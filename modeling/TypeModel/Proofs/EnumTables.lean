import TypeModel.Proofs.AccessorLinks
import TypeModel.Proofs.Positions

/-!
# Tables of enum literals

Literals take their values one after another: a constant is taken as it is, and a literal without
one counts on from the literal before it (`EnumLiteral.Counted`). Along a run of literals without
constants the values count on from where the run starts, in 64-bit arithmetic that wraps around
(`EnumLiteral.Counted.value_of_run`), so that each value can be told from the last constant. The
tables find the first literal of a value or a name, also if values agree only because they wrapped
(`TypeRecord.literals_are_tabulated`).
-/

namespace TypeModel

/-! ## Counting -/

namespace EnumLiteral

theorem map_fst_number (previous : Option Int64) (fields : List (FieldId × FieldDecl)) :
    (number previous fields).map Prod.fst = fields := by
  induction fields generalizing previous with
  | nil => rfl
  | cons f rest ih => rw [number, List.map_cons, ih]

theorem getElem?_number_zero (previous : Option Int64) (fields : List (FieldId × FieldDecl)) :
    (number previous fields)[0]? =
      fields[0]?.map fun f => (f, literalValue previous f.2.constant) := by
  cases fields <;> rfl

/-- One step of the numbering: a value depends on its literal and on the value before it. -/
theorem getElem?_number_succ (previous : Option Int64) (fields : List (FieldId × FieldDecl))
    (k : Nat) : (number previous fields)[k + 1]? = fields[k + 1]?.map fun f =>
      (f, literalValue ((number previous fields)[k]?.map Prod.snd) f.2.constant) := by
  induction fields generalizing previous k with
  | nil => rfl
  | cons f rest ih =>
    simp only [number, List.getElem?_cons_succ]
    cases k with
    | zero => exact getElem?_number_zero _ rest
    | succ k => exact ih _ k

end EnumLiteral

/-- The constant that a field declares, if it declares one. -/
def Store.constantOf? (store : Store) (f : FieldId) : Option Int64 :=
  (store.field? f).bind FieldDecl.constant

/-- The fields of a type that are literals if it is an enum type, in the order of their listing. -/
def Store.literalFields (store : Store) (t : TypeDecl) : List FieldId :=
  t.fields.filter fun f => (store.field? f).any fun d => d.name != EnumLiteral.valueFieldName

namespace EnumLiteral

/-- Literals that take their values one after another. -/
structure Counted (store : Store) (literals : List EnumLiteral) : Prop where
  first : ∀ e, literals[0]? = some e → e.value = literalValue none (store.constantOf? e.field)
  next : ∀ k e e', literals[k]? = some e → literals[k + 1]? = some e' →
    e'.value = literalValue (some e.value) (store.constantOf? e'.field)

namespace Counted

variable {store : Store} {literals : List EnumLiteral}

theorem value_of_constant (h : Counted store literals) {e : EnumLiteral} (he : e ∈ literals)
    {c : Int64} (hc : store.constantOf? e.field = some c) : e.value = c := by
  obtain ⟨k, hk⟩ := List.getElem?_of_mem he
  cases k with
  | zero => rw [h.first e hk, hc]; rfl
  | succ k =>
    obtain ⟨hlt, -⟩ := List.getElem?_eq_some_iff.1 hk
    have hbefore : literals[k]? = some literals[k] := List.getElem?_eq_getElem (by omega)
    rw [h.next k _ e hbefore hk, hc]
    rfl

/-- Literals without constants count on from the literal before them. -/
theorem value_of_run (h : Counted store literals) {j n : Nat} {e e' : EnumLiteral}
    (he : literals[j]? = some e) (he' : literals[j + n]? = some e')
    (hnone : ∀ i, j < i → i ≤ j + n → ∀ x, literals[i]? = some x →
      store.constantOf? x.field = none) : e'.value = e.value + Int64.ofNat n := by
  induction n generalizing e' with
  | zero =>
    obtain rfl : e = e' := Option.some.inj (he.symm.trans he')
    exact (Int64.add_zero e.value).symm
  | succ n ih =>
    obtain ⟨hlt, -⟩ := List.getElem?_eq_some_iff.1 he'
    have hbefore : literals[j + n]? = some literals[j + n] :=
      List.getElem?_eq_getElem (by omega)
    have hrun := ih hbefore fun i hi hle => hnone i hi (by omega)
    rw [h.next (j + n) _ e' hbefore he', hnone (j + (n + 1)) (by omega) le_rfl e' he',
      Int64.ofNat_add, ← Int64.add_assoc, ← hrun]
    rfl

/-- Before the first constant, values are positions. -/
theorem value_of_no_constant (h : Counted store literals) {k : Nat} {e : EnumLiteral}
    (he : literals[k]? = some e)
    (hnone : ∀ i ≤ k, ∀ x, literals[i]? = some x → store.constantOf? x.field = none) :
    e.value = Int64.ofNat k := by
  obtain ⟨hlt, -⟩ := List.getElem?_eq_some_iff.1 he
  have hfirst : literals[0]? = some literals[0] := List.getElem?_eq_getElem (by omega)
  have hzero : literals[0].value = 0 := by
    rw [h.first _ hfirst, hnone 0 k.zero_le _ hfirst]
    rfl
  have hrun := h.value_of_run (n := k) hfirst (by rwa [Nat.zero_add]) fun i _ hle =>
    hnone i (by omega)
  rw [hrun, hzero, Int64.zero_add]

end Counted

/-! ## The literals of an enum type -/

section Listed

variable {store : Store} {owner : TypeId} {t : TypeDecl} {fields : List (FieldId × FieldDecl)}
  {literals : List EnumLiteral}

theorem listed_of_listedFields? (h : listedFields? store t = some fields) :
    t.fields = fields.map Prod.fst ∧ ∀ f ∈ fields, store.field? f.1 = some f.2 := by
  have hrel : List.Forall₂ (fun f x => x.1 = f ∧ store.field? x.1 = some x.2) t.fields fields := by
    refine (option_mapM_eq_some.1 h).imp fun f x hx => ?_
    obtain ⟨d, hd, hx⟩ := Option.bind_eq_some_iff.1 hx
    cases hx
    exact ⟨rfl, hd⟩
  refine ⟨?_, fun x hx => ?_⟩
  · have hmap := map_eq_of_forall₂ (f := id) (g := Prod.fst) hrel fun _ _ hx => hx.1
    rw [hmap, List.map_id]
  · obtain ⟨f, -, -, hx⟩ := exists_of_mem_right hrel hx
    exact hx

theorem literalFields_of_listedFields? (h : listedFields? store t = some fields) :
    store.literalFields t = (EnumLiteral.literals fields).map Prod.fst := by
  obtain ⟨hlisted, hdecl⟩ := listed_of_listedFields? h
  unfold Store.literalFields EnumLiteral.literals
  rw [hlisted, List.filter_map]
  refine congrArg _ (List.filter_congr fun f hf => ?_)
  simp [hdecl f hf]

/-- A literal and the numbered field that it comes from. -/
structure MadeFrom (store : Store) (owner : TypeId) (x : (FieldId × FieldDecl) × Int64)
    (e : EnumLiteral) : Prop where
  owner_eq : e.owner = owner
  field_eq : e.field = x.1.1
  decl_eq : store.field? e.field = some x.1.2
  name_eq : e.name = x.1.2.name
  fullName_eq : store.qualifiedMemberName? (.field e.field) = some e.fullName
  value_eq : e.value = x.2

theorem MadeFrom.constant_eq {x : (FieldId × FieldDecl) × Int64} {e : EnumLiteral}
    (h : MadeFrom store owner x e) : store.constantOf? e.field = x.1.2.constant := by
  rw [Store.constantOf?, h.decl_eq]
  rfl

/-- The literals of an enum type are made from the numbered literals among its listed fields. -/
theorem made_of_ofType? (ht : t.kind = .enumType) (h : ofType? store owner t = some literals) :
    ∃ fields, listedFields? store t = some fields ∧
      List.Forall₂ (MadeFrom store owner) (number none (EnumLiteral.literals fields))
        literals := by
  unfold ofType? at h
  rw [if_pos ht] at h
  obtain ⟨fields, hfields, h⟩ := Option.bind_eq_some_iff.1 h
  refine ⟨fields, hfields, forall₂_imp_of_mem (option_mapM_eq_some.1 h) fun x hx e he => ?_⟩
  have hdecl : store.field? x.1.1 = some x.1.2 :=
    (listed_of_listedFields? hfields).2 x.1 (List.mem_of_mem_filter (mem_of_mem_number hx))
  obtain ⟨fullName, hname, he⟩ := Option.bind_eq_some_iff.1 he
  cases he
  exact ⟨rfl, rfl, hdecl, rfl, hname, rfl⟩

theorem map_field_of_made
    (h : List.Forall₂ (MadeFrom store owner) (number none fields) literals) :
    literals.map field = fields.map Prod.fst := by
  have hmap : literals.map field = (number none fields).map fun x => x.1.1 :=
    map_eq_of_forall₂ h fun _ _ h => h.field_eq
  rw [hmap, ← Function.comp_def Prod.fst Prod.fst, ← List.map_map, map_fst_number]

/-- Values count on from the literal before, whatever fields they were made from. -/
theorem counted_of_made
    (h : List.Forall₂ (MadeFrom store owner) (number none fields) literals) :
    Counted store literals where
  first e he := by
    obtain ⟨x, hx, hfrom⟩ := exists_of_getElem?_right h he
    rw [getElem?_number_zero] at hx
    obtain ⟨f, -, rfl⟩ := Option.map_eq_some_iff.1 hx
    rw [hfrom.constant_eq, hfrom.value_eq]
  next k e e' he he' := by
    obtain ⟨x, hx, hfrom⟩ := exists_of_getElem?_right h he
    obtain ⟨x', hx', hfrom'⟩ := exists_of_getElem?_right h he'
    rw [getElem?_number_succ, hx] at hx'
    obtain ⟨f, -, rfl⟩ := Option.map_eq_some_iff.1 hx'
    rw [hfrom'.constant_eq, hfrom'.value_eq, hfrom.value_eq]
    rfl

end Listed

end EnumLiteral

/-! ## What a lookup finds -/

/-- The first element of a list with a property, or nothing if no element has it. -/
inductive FindsFirst {α : Type} (p : α → Prop) (xs : List α) : Option α → Prop where
  | found {x : α} {before after : List α} (heq : xs = before ++ x :: after)
      (hbefore : ∀ y ∈ before, ¬p y) (hx : p x) : FindsFirst p xs (some x)
  | nothing (hnone : ∀ x ∈ xs, ¬p x) : FindsFirst p xs none

/-- A search finds the first match or reports that there is none. -/
theorem findsFirst_find? {α : Type} (p : α → Prop) [DecidablePred p] (xs : List α) :
    FindsFirst p xs (xs.find? fun x => p x) := by
  cases hfound : xs.find? fun x => p x with
  | none =>
    refine .nothing fun x hx => ?_
    simpa using List.find?_eq_none.1 hfound x hx
  | some x =>
    obtain ⟨hx, before, after, heq, hbefore⟩ := List.find?_eq_some_iff_append.1 hfound
    refine .found heq (fun y hy => ?_) (of_decide_eq_true hx)
    simpa using hbefore y hy

/-! ## The tables of a record -/

namespace TypeRecord

/-- Literals of a type that come from the given fields, in order, with values that count on from the
last constant. -/
structure Tabulates (store : Store) (owner : TypeId) (fields : List FieldId)
    (literals : List EnumLiteral) : Prop where
  complete : literals.map EnumLiteral.field = fields
  described : ∀ e ∈ literals, e.owner = owner ∧
    store.qualifiedMemberName? (.field e.field) = some e.fullName ∧
    (store.field? e.field).map FieldDecl.name = some e.name
  own : ∀ e ∈ literals, ∀ c, store.constantOf? e.field = some c → e.value = c
  /-- After the last constant, values count on from it; the sum is reduced to 64 bits. -/
  continued : ∀ (j k : Nat) last e c, literals[j]? = some last → literals[k]? = some e → j < k →
    store.constantOf? last.field = some c →
    (∀ i, j < i → i ≤ k → ∀ x, literals[i]? = some x → store.constantOf? x.field = none) →
    e.value.toInt = (c.toInt + (k - j)).bmod Int64.size
  /-- If there is no constant yet, the value is the position, as far as 64 bits go. -/
  initial : ∀ (k : Nat) e, literals[k]? = some e →
    (∀ i ≤ k, ∀ x, literals[i]? = some x → store.constantOf? x.field = none) →
    e.value = Int64.ofNat k ∧ (k ≤ Int64.maxValue.toInt → e.value.toInt = k)

variable {store : Store} {names : Vocabulary} {id : TypeId} {t : TypeDecl} {r : TypeRecord}

/-- The literals of an enum type are counted, in the order of its fields. -/
theorem tabulates_of_ofType? {literals : List EnumLiteral}
    (ht : t.kind = .enumType) (h : EnumLiteral.ofType? store id t = some literals) :
    Tabulates store id (store.literalFields t) literals := by
  obtain ⟨fields, hfields, hmade⟩ := EnumLiteral.made_of_ofType? ht h
  have hcounted := EnumLiteral.counted_of_made hmade
  constructor
  case complete =>
    rw [EnumLiteral.map_field_of_made hmade, EnumLiteral.literalFields_of_listedFields? hfields]
  case described =>
    intro e he
    obtain ⟨x, -, hfrom⟩ := exists_of_mem_right hmade he
    refine ⟨hfrom.owner_eq, hfrom.fullName_eq, ?_⟩
    rw [hfrom.decl_eq, hfrom.name_eq]
    rfl
  case own => exact fun e he c hc => hcounted.value_of_constant he hc
  case continued =>
    intro j k last e c hlast he hjk hc hnone
    obtain ⟨n, rfl⟩ := Nat.exists_eq_add_of_le hjk.le
    have hdistance : ((j + n : Nat) : Int) - j = n := by omega
    have hlastValue := hcounted.value_of_constant (List.mem_of_getElem? hlast) hc
    rw [hcounted.value_of_run hlast he hnone, hlastValue, hdistance, Int64.toInt_add,
      Int64.toInt_ofNat']
    exact Int.add_bmod_bmod
  case initial =>
    intro k e he hnone
    have hvalue := hcounted.value_of_no_constant he hnone
    refine ⟨hvalue, fun hk => ?_⟩
    have hmax : Int64.maxValue.toInt = 9223372036854775807 := rfl
    rw [hvalue, Int64.toInt_ofNat_of_lt (by omega)]

/-- Only enum types have literals. -/
theorem ofType?_of_kind_ne (ht : t.kind ≠ .enumType) :
    EnumLiteral.ofType? store id t = some [] := by
  rw [EnumLiteral.ofType?, if_neg ht]
  rfl

/-- What a literal comes from is among the members that the type lists. -/
theorem mem_offeredMembers_of_ofType? {literals : List EnumLiteral}
    (h : EnumLiteral.ofType? store id t = some literals) {e : EnumLiteral} (he : e ∈ literals) :
    .field e.field ∈ t.offeredMembers := by
  by_cases ht : t.kind = .enumType
  · have hfield : e.field ∈ literals.map EnumLiteral.field := List.mem_map_of_mem he
    rw [(tabulates_of_ofType? ht h).complete] at hfield
    have hlisted : e.field ∈ t.fields := List.mem_of_mem_filter hfield
    simp [TypeDecl.offeredMembers, hlisted]
  · rw [ofType?_of_kind_ne ht] at h
    cases h
    exact absurd he List.not_mem_nil

theorem literals_of_outline? {proxies : List Proxy} {outline : Outline}
    (h : outline? store names proxies id t = some outline) :
    EnumLiteral.ofType? store id t = some outline.literals := by
  obtain ⟨roster, -, h⟩ := Option.bind_eq_some_iff.1 h
  obtain ⟨drafts, -, h⟩ := Option.bind_eq_some_iff.1 h
  obtain ⟨literals, hliterals, h⟩ := Option.bind_eq_some_iff.1 h
  cases h
  exact hliterals

/-- The literals of an enum type are its listed fields but for the one that holds the value, in
order, and their values count on from the last constant. A lookup by value or by name, which follows
a position noted when the literals were listed, finds the first literal that there is. Nothing that
a proxy contributes is a literal, and types other than enum types have none. -/
theorem literals_are_tabulated (h : build store names id = .ok r) :
    ∃ t, store.type? id = some t ∧
      (t.kind = .enumType → Tabulates store id (store.literalFields t) r.literals) ∧
      (t.kind ≠ .enumType → r.literals = []) ∧
      (∀ value, r.literalOfValueAt value = .ok (r.literalOfValue? value) ∧
        FindsFirst (fun e => e.value = value) r.literals (r.literalOfValue? value)) ∧
      (∀ name, r.literalNamedAt name = .ok (r.literalNamed? name) ∧
        FindsFirst (fun e => e.name = name) r.literals (r.literalNamed? name)) ∧
      ∀ x ∈ r.members.values, ¬x.IsOwn store t →
        ∀ e ∈ r.literals, x.decl ≠ .member (.field e.field) := by
  obtain ⟨t, module, outline, ht, -, -, houtline, hfinish⟩ := build_eq_ok h
  obtain ⟨visible, -, -, hr⟩ := finish_eq_ok hfinish
  have hliterals : EnumLiteral.ofType? store id t = some r.literals := by
    rw [hr]
    exact literals_of_outline? houtline
  have hlocated := located_of_build h
  refine ⟨t, ht, fun hkind => tabulates_of_ofType? hkind hliterals, ?_, ?_, ?_, ?_⟩
  · intro hkind
    exact Option.some.inj (hliterals.symm.trans (ofType?_of_kind_ne hkind))
  · exact fun value => ⟨hlocated.literalOfValue value, findsFirst_find? _ r.literals⟩
  · exact fun name => ⟨hlocated.literalNamed name, findsFirst_find? _ r.literals⟩
  · rintro x - hforeign e he hdecl
    refine hforeign ⟨_, Store.mem_ownMembers_of_listed ?_, hdecl⟩
    exact mem_offeredMembers_of_ofType? hliterals he

/-- An enum type whose second literal wraps around to the value of the third one, and a proxy of it
that contributes a field. -/
def wrappingStore : Store where
  modules := #[{ name := "app.dll" }]
  types := #[
    { module := ⟨0⟩, scope := "", name := "Main", fullName := "Main", kind := .enumType
      fields := [⟨0⟩, ⟨1⟩, ⟨2⟩, ⟨3⟩, ⟨4⟩] },
    { module := ⟨0⟩, scope := "", name := "Proxy", fullName := "Proxy", kind := .classType
      fields := [⟨5⟩]
      annotations := [{ kind := "Xlate.Meta.ProxyAttribute", args := [.str "Main"] }] }]
  fields := #[
    { owner := ⟨0⟩, name := "value__", type := .plain "System.Int64" },
    { owner := ⟨0⟩, name := "Top", type := .plain "Main", constant := some Int64.maxValue },
    { owner := ⟨0⟩, name := "Wrapped", type := .plain "Main" },
    { owner := ⟨0⟩, name := "Bottom", type := .plain "Main", constant := some Int64.minValue },
    { owner := ⟨0⟩, name := "Next", type := .plain "Main" },
    { owner := ⟨1⟩, name := "Extra", type := .plain "Main" }]

theorem wrapped_literal_comes_first_for_its_value :
    ∃ r e x, build wrappingStore {} ⟨0⟩ = .ok r ∧
      Tabulates wrappingStore ⟨0⟩ [⟨1⟩, ⟨2⟩, ⟨3⟩, ⟨4⟩] r.literals ∧
      r.literals.map EnumLiteral.value =
        [Int64.maxValue, Int64.minValue, Int64.minValue, Int64.minValue + 1] ∧
      r.literalOfValueAt Int64.minValue = .ok (some e) ∧ e.name = "Wrapped" ∧
      x ∈ r.members.values ∧ x.decl = .member (.field ⟨5⟩) ∧
      r.literalNamedAt x.name = .ok none := by
  have hbuild := (rfl : build wrappingStore {} ⟨0⟩ = .ok _)
  obtain ⟨t, ht, htables, -, hvalue, hname, -⟩ := literals_are_tabulated hbuild
  cases ht
  exact ⟨_, _, _, hbuild, htables rfl, by decide, (hvalue Int64.minValue).1, rfl,
    List.mem_of_getElem? (i := 5) rfl, rfl, (hname "Extra").1⟩

end TypeRecord

end TypeModel
