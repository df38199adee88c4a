import Mathlib.Data.List.Induction
import TypeModel.Proofs.Following

/-!
# The last applicable proxy backs a member

Proxies are asked one after another what backs a member, and each answer replaces those before it.
What is left in the end is the answer of the last proxy that had one (`Store.LastSupplied`): one
whose policy admits substitution and which finds a member that is not abstract. So the result is the
member itself or listed by one of the proxies, and what it has in common with the member is what a
lookup by identifier guarantees (`Store.Backs`, `Store.last_applicable_proxy_backs`).
-/

namespace TypeModel

namespace Store

variable {s : Store} {m : MemberId}

/-! ## Implementations and default constructors -/

/-- The member is a method without parameters that has the name of constructors. -/
def IsDefaultConstructor (s : Store) (m : MemberId) : Prop :=
  ∃ d, s.member? m = some (.method d) ∧ d.name = constructorName ∧ d.params = []

/-- A method is not abstract, and neither is any accessor that a property or an event has. -/
def IsConcrete (s : Store) (m : MemberId) : Prop :=
  ∃ d, s.member? m = some d ∧ (∀ e, d = .method e → e.modifiers.isAbstract = false) ∧
    ∀ a ∈ d.accessors, ∃ e, s.method? a = some e ∧ e.modifiers.isAbstract = false

theorem kind_of_identifier? {key : Identifier} (h : s.identifier? m = some key) :
    key.kind = m.kind := by
  obtain ⟨d, -, hkind, -⟩ := identifier?_eq_some h
  exact hkind

theorem isDefaultConstructor_iff {key : Identifier} (h : s.identifier? m = some key) :
    key.isDefaultConstructor = true ↔ s.IsDefaultConstructor m := by
  obtain ⟨d, hd, hkind, hname, -, hparams⟩ := identifier?_eq_some h
  unfold IsDefaultConstructor Identifier.isDefaultConstructor
  simp only [hd, hkind, hname, Bool.and_eq_true, decide_eq_true_eq, Option.some.injEq]
  cases m with
  | method id =>
    obtain ⟨e, -, rfl⟩ := Option.map_eq_some_iff.1 hd
    simp [← Option.some.inj hparams, MemberId.kind, MemberDecl.name]
  | field id =>
    obtain ⟨e, -, rfl⟩ := Option.map_eq_some_iff.1 hd
    simp [MemberId.kind]
  | property id =>
    obtain ⟨e, -, rfl⟩ := Option.map_eq_some_iff.1 hd
    simp [MemberId.kind]
  | event id =>
    obtain ⟨e, -, rfl⟩ := Option.map_eq_some_iff.1 hd
    simp [MemberId.kind]

/-- An accessor that is absent or not abstract does not stand in the way. -/
theorem isAbstract?_eq_false {accessor : Option MethodId} :
    s.isAbstract? accessor = some false ↔
      ∀ a ∈ accessor, ∃ e, s.method? a = some e ∧ e.modifiers.isAbstract = false := by
  cases accessor <;> simp [isAbstract?]

/-- Standing in for each other, accessors come to be asked twice at most: what matters is that none
of those that are there is abstract. -/
theorem eitherAbstract?_eq_false {first second : Option MethodId} :
    s.eitherAbstract? first second = some false ↔
      ∀ a ∈ first.toList ++ second.toList,
        ∃ e, s.method? a = some e ∧ e.modifiers.isAbstract = false := by
  have hboth : s.eitherAbstract? first second = some false ↔
      s.isAbstract? (first.or second) = some false ∧
        s.isAbstract? (second.or first) = some false := by
    unfold eitherAbstract?
    rcases s.isAbstract? (first.or second) with _ | _ | _ <;> simp
  rw [hboth, isAbstract?_eq_false, isAbstract?_eq_false]
  cases first <;> cases second <;> simp

/-- A member supplies an implementation exactly when it is concrete: neither it nor an accessor of
it is abstract. -/
theorem suppliesImplementation?_eq_true :
    s.suppliesImplementation? m = some true ↔ s.IsConcrete m := by
  have hnot : ∀ o : Option Bool, (o.bind fun b => some !b) = some true ↔ o = some false := by
    rintro (_ | _ | _) <;> simp
  unfold suppliesImplementation? IsConcrete
  cases hd : s.member? m with
  | none => simp
  | some d =>
    cases d with
    | method e => simp [MemberDecl.accessors]
    | field e => simp [MemberDecl.accessors]
    | property e => simp [hnot, eitherAbstract?_eq_false, MemberDecl.accessors]
    | event e => simp [hnot, eitherAbstract?_eq_false, MemberDecl.accessors]

end Store

/-! ## One proxy after another -/

/-- The proxy finds a member for the identifier and lets it substitute members of targets. -/
def Proxy.Supplies (s : Store) (key : Identifier) (p : Proxy) (candidate : MemberId) : Prop :=
  p.marker.memberPolicy ≠ .replaceNone ∧ p.find? key = some candidate ∧ s.IsConcrete candidate

namespace Store

variable {s : Store} {key : Identifier} {proxies : List Proxy} {p : Proxy} {m b : MemberId}

/-- The member is what the last proxy that supplies one supplies, or else the given one. -/
def LastSupplied (s : Store) (key : Identifier) (proxies : List Proxy) (m b : MemberId) : Prop :=
  (∃ (i : Nat) (p : Proxy), proxies[i]? = some p ∧ p.Supplies s key b ∧
    ∀ (j : Nat) (q : Proxy), i < j → proxies[j]? = some q → ∀ c, ¬q.Supplies s key c) ∨
  b = m ∧ ∀ p ∈ proxies, ∀ c, ¬p.Supplies s key c

/-- A proxy either replaces what backs the member so far or has nothing to say. -/
theorem substitute?_eq_some {backing : MemberId} (h : s.substitute? key backing p = some b) :
    p.Supplies s key b ∨ b = backing ∧ ∀ c, ¬p.Supplies s key c := by
  unfold substitute? at h
  by_cases hpolicy : p.substitutes = true
  · rw [if_pos hpolicy] at h
    cases hfind : p.find? key with
    | none =>
      rw [hfind] at h
      refine .inr ⟨(Option.some.inj h).symm, fun c hc => ?_⟩
      cases hfind.symm.trans hc.2.1
    | some candidate =>
      rw [hfind] at h
      obtain ⟨supplies, hsupplies, h⟩ := Option.bind_eq_some_iff.1 h
      cases supplies with
      | true =>
        obtain rfl : candidate = b := Option.some.inj h
        exact .inl ⟨bne_iff_ne.1 hpolicy, hfind, suppliesImplementation?_eq_true.1 hsupplies⟩
      | false =>
        refine .inr ⟨(Option.some.inj h).symm, fun c hc => ?_⟩
        obtain rfl : candidate = c := Option.some.inj (hfind.symm.trans hc.2.1)
        rw [suppliesImplementation?_eq_true.2 hc.2.2] at hsupplies
        cases hsupplies
  · rw [if_neg hpolicy] at h
    exact .inr ⟨(Option.some.inj h).symm, fun c hc => hpolicy (bne_iff_ne.2 hc.1)⟩

theorem lastSupplied_concat {backing : MemberId} (h : LastSupplied s key proxies m backing)
    (hstep : s.substitute? key backing p = some b) : LastSupplied s key (proxies ++ [p]) m b := by
  rcases substitute?_eq_some hstep with hsupplies | ⟨rfl, hsilent⟩
  · -- The new proxy stands last, so that it is the last one that supplies a member.
    refine .inl ⟨proxies.length, p, List.getElem?_concat_length, hsupplies, fun j q hj hq => ?_⟩
    rw [List.getElem?_eq_none (by rw [List.length_append]; exact hj)] at hq
    cases hq
  · rcases h with ⟨i, q, hq, hsupplies, hlast⟩ | ⟨hm, hnone⟩
    · have hi : i < proxies.length := (List.getElem?_eq_some_iff.1 hq).1
      refine .inl ⟨i, q, by rw [List.getElem?_append_left hi, hq], hsupplies, fun j q' hj hq' => ?_⟩
      by_cases hlt : j < proxies.length
      · rw [List.getElem?_append_left hlt] at hq'
        exact hlast j q' hj hq'
      · rw [List.getElem?_append_right (Nat.le_of_not_lt hlt)] at hq'
        rw [List.mem_singleton.1 (List.mem_of_getElem? hq')]
        exact hsilent
    · refine .inr ⟨hm, fun q hq => ?_⟩
      rcases List.mem_append.1 hq with hq | hq
      · exact hnone q hq
      · rw [List.mem_singleton.1 hq]
        exact hsilent

/-- A run of substitutions ends with what the last applicable proxy supplied. -/
theorem lastSupplied_of_foldlM (h : proxies.foldlM (s.substitute? key) m = some b) :
    LastSupplied s key proxies m b := by
  induction proxies using List.reverseRecOn generalizing b with
  | nil =>
    cases h
    exact .inr ⟨rfl, fun p hp => absurd hp List.not_mem_nil⟩
  | append_singleton proxies p ih =>
    rw [List.foldlM_append] at h
    obtain ⟨backing, hbacking, h⟩ := Option.bind_eq_some_iff.1 h
    rw [List.foldlM_cons] at h
    obtain ⟨b', hstep, h⟩ := Option.bind_eq_some_iff.1 h
    cases h
    exact lastSupplied_concat (ih hbacking) hstep

/-- What backs a member is the member itself or one that a proxy offers under its identifier. -/
theorem LastSupplied.source (h : LastSupplied s key proxies m b) :
    b = m ∨ ∃ p ∈ proxies, p.find? key = some b := by
  rcases h with ⟨i, p, hp, hsupplies, -⟩ | ⟨rfl, -⟩
  · exact .inr ⟨p, List.mem_of_getElem? hp, hsupplies.2.1⟩
  · exact .inl rfl

/-! ## What backs a member -/

/-- The declaration that backs a member of the given identifier. -/
structure Backs (s : Store) (proxies : List Proxy) (m : MemberId) (key : Identifier)
    (b : MemberId) : Prop where
  identified : s.identifier? m = some key
  /-- Default constructors are never substituted. -/
  constructor_eq : s.IsDefaultConstructor m → b = m
  supplied : ¬s.IsDefaultConstructor m → LastSupplied s key proxies m b
  kind_eq : b.kind = m.kind
  agrees : ∃ key', s.identifier? b = some key' ∧ key'.agrees key = true
  listed : b = m ∨ ∃ p ∈ proxies, ∃ t, s.type? p.id = some t ∧ b ∈ t.offeredMembers

/-- The record of the proxy can be built from the store. -/
def Builds (s : Store) (p : Proxy) : Prop :=
  ∃ names id, Proxy.build s names id = .ok p

theorem Builds.tabulated (h : s.Builds p) : Roster.Tabulated s p := by
  obtain ⟨names, id, h⟩ := h
  exact Proxy.tabulated_of_build h

/-- What a proxy finds for an identifier has an identifier that agrees, and the proxy lists it. -/
theorem Builds.of_find? (h : s.Builds p) (hfind : p.find? key = some b) :
    (∃ key', s.identifier? b = some key' ∧ key'.agrees key = true) ∧
      ∃ t, s.type? p.id = some t ∧ b ∈ t.offeredMembers := by
  have htabulated := h.tabulated
  obtain ⟨names, id, h⟩ := h
  obtain ⟨entry, hentry, hagrees, hvalue⟩ := (Proxy.filed_of_build h).get?_eq_some hfind
  obtain ⟨t, ht, hvalues⟩ := Proxy.values_of_build h
  refine ⟨⟨entry.1, ?_, hagrees⟩, t, ?_, ?_⟩
  · rw [← hvalue]
    exact htabulated entry hentry
  · rw [Proxy.id_of_build h]
    exact ht
  · rw [← hvalues]
    exact IdentifierMap.mem_values_of_get? hfind

/-- The member that resolution finds backs the member that it was asked for. -/
theorem backs_of_resolve? (h : s.resolve? proxies m = some b)
    (hproxies : ∀ p ∈ proxies, s.Builds p) : ∃ key, s.Backs proxies m key b := by
  obtain ⟨key, hkey, h⟩ := Option.bind_eq_some_iff.1 h
  refine ⟨key, ?_⟩
  by_cases hconstructor : key.isDefaultConstructor = true
  · rw [if_pos hconstructor] at h
    obtain rfl : m = b := Option.some.inj h
    constructor
    case identified => exact hkey
    case constructor_eq => exact fun _ => rfl
    case supplied =>
      intro hother
      exact absurd ((isDefaultConstructor_iff hkey).1 hconstructor) hother
    case kind_eq => rfl
    case agrees => exact ⟨key, hkey, key.agrees_refl⟩
    case listed => exact .inl rfl
  · rw [if_neg hconstructor] at h
    have hsupplied := lastSupplied_of_foldlM h
    have hsource : b = m ∨ ∃ p ∈ proxies, s.Builds p ∧ p.find? key = some b :=
      hsupplied.source.imp_right fun ⟨p, hp, hfind⟩ => ⟨p, hp, hproxies p hp, hfind⟩
    have hagrees : ∃ key', s.identifier? b = some key' ∧ key'.agrees key = true := by
      rcases hsource with rfl | ⟨p, -, hbuilds, hfind⟩
      · exact ⟨key, hkey, key.agrees_refl⟩
      · exact (hbuilds.of_find? hfind).1
    constructor
    case identified => exact hkey
    case constructor_eq =>
      intro hdefault
      exact absurd ((isDefaultConstructor_iff hkey).2 hdefault) hconstructor
    case supplied => exact fun _ => hsupplied
    case kind_eq =>
      obtain ⟨key', hkey', hshape⟩ := hagrees
      rw [← kind_of_identifier? hkey', ← kind_of_identifier? hkey]
      exact congrArg Identifier.Shape.kind (Identifier.shape_eq_of_agrees hshape)
    case agrees => exact hagrees
    case listed =>
      refine hsource.imp_right fun ⟨p, hp, hbuilds, hfind⟩ => ⟨p, hp, ?_⟩
      exact (hbuilds.of_find? hfind).2

end Store

/-! ## Members of a record -/

/-- A slot of a member that the type lists itself is one of its own. -/
theorem Roster.origin_of_mem_ownMembers {store : Store} {t : TypeDecl} {proxies : List Proxy}
    {r : Roster} (h : Roster.build? store t proxies = some r)
    (hproxies : ∀ p ∈ proxies, Roster.Tabulated store p) {entry : Identifier × Slot}
    (hentry : entry ∈ r.entries) (hown : entry.2.member ∈ store.ownMembers t) :
    entry.2.origin = .own := by
  obtain ⟨base, new, hbase, heq, hbaseSlots, hnewSlots⟩ := Roster.parts_of_build? h hproxies
  rw [heq] at hentry
  rcases List.mem_append.1 hentry with hentry | hentry
  · exact (hbaseSlots entry hentry).1
  · exact absurd ((Roster.lists_of_ofType? hbase _).2 hown) (hnewSlots entry hentry).2.2

namespace TypeRecord

variable {store : Store} {names : Vocabulary} {id : TypeId} {t : TypeDecl} {r : TypeRecord}

/-- A member that the type lists itself is backed by what the proxies of the record resolve it
to. -/
theorem resolve?_of_build (h : build store names id = .ok r) (ht : store.type? id = some t)
    {x : Member} (hx : x ∈ r.members.values) {m : MemberId} (hdecl : x.decl = .member m)
    (hm : m ∈ store.ownMembers t) :
    ∃ b, x.backing = .member b ∧ store.resolve? r.proxies m = some b := by
  obtain ⟨t', roster, drafts, ht', hproxies, hroster, hdrafts, hmembers⟩ := roster_of_build h
  obtain rfl : t = t' := Option.some.inj (ht.symm.trans ht')
  obtain ⟨e, he, rfl⟩ := List.mem_map.1 hx
  obtain ⟨entry, hentry, -, draft, hdraft, hfinish⟩ :=
    exists_of_mem_right (hdrafts.trans hmembers).entries he
  obtain ⟨inherited, d, -, -, hmember, hcore, -, -⟩ := MemberDraft.ofSlot?_eq_some hdraft
  obtain ⟨visible, -, heq⟩ := finishMember_eq_ok hfinish
  obtain ⟨-, -, hbacking, -⟩ := MemberCore.ofMember?_eq_some hcore
  have hslot : entry.2.member = m := by
    rw [heq] at hdecl
    rw [← hmember]
    exact DeclId.member.inj hdecl
  rw [hslot, Roster.origin_of_mem_ownMembers hroster (Proxy.tabulated_of_proxiesOf ht hproxies)
    hentry (by rw [hslot]; exact hm)] at hbacking
  refine ⟨draft.core.backing, ?_, hbacking⟩
  rw [heq]

end TypeRecord

/-- In a well-formed store every member is backed by what the last applicable proxy supplies for it,
or else by itself; and that is what the records of types say of their own members. -/
theorem Store.last_applicable_proxy_backs {s : Store} (h : s.WellFormed) :
    (∀ proxies m, (∀ p ∈ proxies, s.Builds p) → s.Has (.member m) →
      ∃ key b, s.resolve proxies (.member m) = .ok b ∧ s.Backs proxies m key b) ∧
    ∀ names id t r, s.type? id = some t → TypeRecord.build s names id = .ok r →
      ∀ x ∈ r.members.values, ∀ m ∈ s.ownMembers t, x.decl = .member m →
      ∃ key b, x.backing = .member b ∧ s.resolve r.proxies (.member m) = .ok b ∧
        s.Backs r.proxies m key b := by
  constructor
  · intro proxies m hproxies hm
    obtain ⟨b, hb, -⟩ := h.exists_resolve? (fun p hp => (hproxies p hp).tabulated) hm
    obtain ⟨key, hbacks⟩ := backs_of_resolve? hb hproxies
    exact ⟨key, b, inRange_eq_ok.2 hb, hbacks⟩
  · intro names id t r ht hr x hx m hm hdecl
    obtain ⟨b, hbacking, hb⟩ := TypeRecord.resolve?_of_build hr ht hx hdecl hm
    obtain ⟨t', -, -, ht', -, hproxies, -⟩ := TypeRecord.build_eq_ok hr
    have hbuilds : ∀ p ∈ r.proxies, s.Builds p :=
      fun p hp => ⟨names, p.id, ((Store.mem_proxiesOf ht' hproxies p).1 hp).1⟩
    obtain ⟨key, hbacks⟩ := backs_of_resolve? hb hbuilds
    exact ⟨key, b, hbacking, inRange_eq_ok.2 hb, hbacks⟩

/-- A type with a method, and three proxies that list a method like it; that of the last one is
abstract. -/
def contestedStore : Store where
  modules := #[{ name := "app.dll" }]
  types := #[
    { module := ⟨0⟩, scope := "", name := "Main", fullName := "Main", kind := .classType
      methods := [⟨0⟩] },
    { module := ⟨0⟩, scope := "", name := "First", fullName := "First", kind := .classType
      methods := [⟨1⟩]
      annotations := [{ kind := "Xlate.Meta.ProxyAttribute", args := [.str "Main"] }] },
    { module := ⟨0⟩, scope := "", name := "Second", fullName := "Second", kind := .classType
      methods := [⟨2⟩]
      annotations := [{ kind := "Xlate.Meta.ProxyAttribute", args := [.str "Main"] }] },
    { module := ⟨0⟩, scope := "", name := "Sketch", fullName := "Sketch", kind := .classType
      methods := [⟨3⟩]
      annotations := [{ kind := "Xlate.Meta.ProxyAttribute", args := [.str "Main"] }] }]
  methods := #[
    { owner := ⟨0⟩, name := "Run" },
    { owner := ⟨1⟩, name := "Run" },
    { owner := ⟨2⟩, name := "Run" },
    { owner := ⟨3⟩, name := "Run", modifiers := { isAbstract := true } }]

/-- The implementation of an earlier proxy stays when a later one offers an abstract method. -/
theorem abstract_proxy_method_is_skipped :
    ∃ r x key, TypeRecord.build contestedStore {} ⟨0⟩ = .ok r ∧ x ∈ r.members.values ∧
      x.decl = .member (.method ⟨0⟩) ∧ x.backing = .member (.method ⟨2⟩) ∧
      contestedStore.Backs r.proxies (.method ⟨0⟩) key (.method ⟨2⟩) := by
  have hwell : contestedStore.WellFormed := by decide
  obtain ⟨r, x, hr, hx, hdecl, hbacking⟩ : ∃ r x,
      TypeRecord.build contestedStore {} ⟨0⟩ = .ok r ∧ x ∈ r.members.values ∧
      x.decl = .member (.method ⟨0⟩) ∧ x.backing = .member (.method ⟨2⟩) :=
    ⟨_, _, rfl, .head _, rfl, rfl⟩
  obtain ⟨key, b, hb, -, hbacks⟩ := (Store.last_applicable_proxy_backs hwell).2 {} ⟨0⟩ _ r rfl hr x
    hx (.method ⟨0⟩) (by decide) hdecl
  obtain rfl : b = .method ⟨2⟩ := DeclId.member.inj (hb.symm.trans hbacking)
  exact ⟨r, x, key, hr, hx, hdecl, hbacking, hbacks⟩

end TypeModel
