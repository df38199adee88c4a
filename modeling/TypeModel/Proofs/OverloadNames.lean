import TypeModel.Proofs.Overlay
import TypeModel.Proofs.Slots

/-!
# Overloads have visible names of their own

Methods of one name and staticness form a cluster and are numbered by their places in it, so that
two of them never share a number (`Overloads.Keyed.exists_index?`). Numbers are printed after a
dollar sign, which ends the declared name, so that visible names tell both the name and the number
(`overloadName_inj`). So no two methods that a type lists itself come out under one visible name, as
far as their names are left to the overload rule (`TypeRecord.visibleName_ne_of_build`).
-/

namespace TypeModel

/-! ## Places in a list -/

theorem getElem?_of_lastIndexOf? {α : Type} [DecidableEq α] {x : α} {xs : List α} {i : Nat}
    (h : lastIndexOf? x xs = some i) : xs[i]? = some x := by
  induction xs generalizing i with
  | nil => cases h
  | cons y rest ih =>
    rw [lastIndexOf?] at h
    cases hrest : lastIndexOf? x rest with
    | some j =>
      rw [hrest] at h
      cases h
      exact ih hrest
    | none =>
      simp only [hrest] at h
      by_cases heq : y = x
      · rw [if_pos heq] at h
        cases h
        exact congrArg some heq
      · rw [if_neg heq] at h
        cases h

theorem exists_lastIndexOf? {α : Type} [DecidableEq α] {x : α} {xs : List α} (h : x ∈ xs) :
    ∃ i, lastIndexOf? x xs = some i := by
  induction xs with
  | nil => exact absurd h List.not_mem_nil
  | cons y rest ih =>
    rw [lastIndexOf?]
    cases hrest : lastIndexOf? x rest with
    | some j => exact ⟨j + 1, rfl⟩
    | none =>
      rcases List.mem_cons.1 h with rfl | h
      · exact ⟨0, if_pos rfl⟩
      · obtain ⟨j, hj⟩ := ih h
        rw [hrest] at hj
        cases hj

theorem two_le_length_of_mem {α : Type} {a b : α} {xs : List α} (ha : a ∈ xs) (hb : b ∈ xs)
    (hab : a ≠ b) : 2 ≤ xs.length := by
  match xs, ha, hb with
  | [x], ha, hb =>
    rw [List.mem_singleton] at ha hb
    exact absurd (ha.trans hb.symm) hab
  | _ :: _ :: _, _, _ => exact Nat.le_add_left 2 _

/-! ## Printed names -/

/-- The name of an overload: the declared name, and its number if it has one. -/
def overloadName (declared : String) (index : Option Nat) : String :=
  declared ++ index.elim "" overloadSuffix

theorem toString_injective {i j : Nat} (h : (toString i).toList = (toString j).toList) :
    i = j := by
  have hdigits : Nat.toDigits 10 i = Nat.toDigits 10 j := by
    simpa only [Nat.toString_eq_repr, Nat.toList_repr] using h
  calc
    i = Nat.ofDigitChars 10 (Nat.toDigits 10 i) 0 := Nat.ofDigitChars_ten_toDigits.symm
    _ = Nat.ofDigitChars 10 (Nat.toDigits 10 j) 0 := by rw [hdigits]
    _ = j := Nat.ofDigitChars_ten_toDigits

theorem overloadSuffix_injective {i j : Nat} (h : overloadSuffix i = overloadSuffix j) : i = j := by
  have hlists := congrArg String.toList h
  simp only [overloadSuffix, String.toList_append] at hlists
  exact toString_injective (List.append_cancel_left hlists)

/-- A name without a dollar sign is what stands before the first one. -/
theorem takeWhile_overloadName {declared : String} (h : '$' ∉ declared.toList)
    (index : Option Nat) :
    (overloadName declared index).toList.takeWhile (· != '$') = declared.toList := by
  have hall : ∀ c ∈ declared.toList, (c != '$') = true := by
    intro c hc
    rw [bne_iff_ne]
    rintro rfl
    exact h hc
  have hsuffix : (index.elim "" overloadSuffix).toList.takeWhile (· != '$') = [] := by
    cases index with
    | none => rfl
    | some i => simp [overloadSuffix]
  rw [overloadName, String.toList_append, List.takeWhile_append_of_pos hall, hsuffix,
    List.append_nil]

/-- A name without `$` can be read back off the overload name, and so can the suffix. -/
theorem overloadName_inj {s t : String} (hs : '$' ∉ s.toList) (ht : '$' ∉ t.toList)
    {i j : Option Nat} (h : overloadName s i = overloadName t j) :
    s = t ∧ i.elim "" overloadSuffix = j.elim "" overloadSuffix := by
  have hname : s.toList = t.toList := by
    rw [← takeWhile_overloadName hs i, h, takeWhile_overloadName ht j]
  obtain rfl : s = t := String.toList_inj.1 hname
  exact ⟨rfl, (String.append_right_inj s).1 h⟩

/-- Without a rename and without dispatch at run time the overload rule decides. -/
theorem visibleName_eq_ok {names : Vocabulary} {metadata : Metadata} {declared : String}
    {index : Option Nat} (hrename : metadata.has names.rename = false)
    (hdispatch : metadata.has names.runtimeDispatch = false) :
    names.visibleName metadata declared index = .ok (overloadName declared index) := by
  have hget : metadata.get names.rename = [] := by
    unfold Metadata.get
    rw [List.find?_eq_none.2 fun g hg hkind => ?_]
    rw [Metadata.has, List.any_eq_false] at hrename
    exact hrename g hg hkind
  have hsole : metadata.soleString names.rename = .ok none := by
    unfold Metadata.soleString Metadata.soleArgs
    rw [hget]
    rfl
  unfold Vocabulary.visibleName
  rw [hsole]
  cases index with
  | none => exact congrArg Except.ok (String.append_empty (s := declared)).symm
  | some i =>
    show (if metadata.has names.runtimeDispatch then pure declared
      else pure (declared ++ overloadSuffix i) : Except ModelError String) = _
    rw [hdispatch]
    rfl

/-! ## Numbers of overloads -/

namespace Overloads

variable {methods : List (MethodId × OverloadKey)} {key : OverloadKey} {a b : MethodId}

theorem key_eq_of_mem_candidates {t : TypeDecl} {drafts : IdentifierMap MemberDraft}
    (ha : candidate? drafts a = some (a, key)) {k : OverloadKey}
    (hk : (a, k) ∈ t.methods.filterMap (candidate? drafts)) : k = key := by
  obtain ⟨id, -, hcandidate⟩ := List.mem_filterMap.1 hk
  obtain rfl : a = id := candidate?_fst hcandidate
  rw [ha] at hcandidate
  cases hcandidate
  rfl

/-- No method comes with two keys. -/
def Keyed (methods : List (MethodId × OverloadKey)) : Prop :=
  ∀ a key key', (a, key) ∈ methods → (a, key') ∈ methods → key = key'

theorem keyed_candidates (t : TypeDecl) (drafts : IdentifierMap MemberDraft) :
    Keyed (t.methods.filterMap (candidate? drafts)) := by
  intro a key key' h h'
  obtain ⟨id, -, hcandidate⟩ := List.mem_filterMap.1 h'
  obtain rfl : a = id := candidate?_fst hcandidate
  exact key_eq_of_mem_candidates hcandidate h

/-- A method is in one group at most. -/
theorem Keyed.group_unique (h : Keyed methods) {g g' : OverloadGroup}
    (hg : g ∈ (ofMethods methods).groups) (ha : a ∈ g.methods)
    (hg' : g' ∈ (ofMethods methods).groups) (ha' : a ∈ g'.methods) : g = g' := by
  obtain ⟨key, -, rfl⟩ := mem_groups_iff.1 hg
  obtain ⟨key', -, rfl⟩ := mem_groups_iff.1 hg'
  rw [h a key key' (mem_sharing.1 ha) (mem_sharing.1 ha')]

/-- A method of a group is numbered by a place that it has in the group. -/
theorem Keyed.exists_index? (h : Keyed methods) {g : OverloadGroup}
    (hg : g ∈ (ofMethods methods).groups) (ha : a ∈ g.methods) :
    ∃ i, (ofMethods methods).index? (.method a) = some i ∧ g.methods[i]? = some a := by
  obtain ⟨last, hlast⟩ := exists_lastIndexOf? ha
  obtain ⟨i, hi⟩ : ∃ i, (ofMethods methods).index? (.method a) = some i := by
    refine Option.isSome_iff_exists.1 (List.findSome?_isSome_iff.2 ⟨g, hg, ?_⟩)
    rw [hlast]
    rfl
  obtain ⟨g', hg', hindex⟩ := List.exists_of_findSome?_eq_some hi
  obtain rfl : g' = g := h.group_unique hg' (mem_of_lastIndexOf? hindex) hg ha
  exact ⟨i, hi, getElem?_of_lastIndexOf? hindex⟩

/-- A method that shares its key with another is numbered by its place among those of the key. -/
theorem Keyed.exists_index?_of_shared (h : Keyed methods) (ha : (a, key) ∈ methods)
    (hb : (b, key) ∈ methods) (hab : a ≠ b) :
    ∃ i, (ofMethods methods).index? (.method a) = some i ∧
      (sharing methods key)[i]? = some a := by
  have hmem : a ∈ sharing methods key := mem_sharing.2 ha
  have htwo := two_le_length_of_mem hmem (mem_sharing.2 hb) hab
  exact h.exists_index? (mem_groups_iff.2 ⟨key, htwo, rfl⟩) hmem

/-- No two drafts are of one method. -/
def UniqueDrafts (drafts : IdentifierMap MemberDraft) : Prop :=
  drafts.entries.Pairwise fun e e' => e.2.member.kind = .method → e.2.member ≠ e'.2.member

theorem eq_of_unique_drafts {drafts : IdentifierMap MemberDraft} (h : UniqueDrafts drafts)
    {e e' : Identifier × MemberDraft} (he : e ∈ drafts.entries) (he' : e' ∈ drafts.entries)
    (hmember : e.2.member = .method a) (hmember' : e'.2.member = .method a) : e = e' :=
  eq_of_pairwise_ne (P := fun m : MemberId => m.kind = .method)
    (f := fun e : Identifier × MemberDraft => e.2.member) h he he'
    (congrArg MemberId.kind hmember) (hmember.trans hmember'.symm)

/-- A roster that lists methods once has one draft for each. -/
theorem unique_drafts_of_roster {store : Store} {names : Vocabulary} {proxies : List Proxy}
    {roster : Roster} {drafts : IdentifierMap MemberDraft}
    (hunique : Roster.NodupOn (fun m => m.kind = .method) roster)
    (hdrafts : roster.Replaces (fun slot draft =>
      MemberDraft.ofSlot? store names proxies slot = some draft) drafts) :
    UniqueDrafts drafts := by
  have heq : drafts.entries.map (fun e => e.2.member) = roster.entries.map fun e => e.2.member :=
    map_eq_of_forall₂ hdrafts.entries fun e e' he => by
      obtain ⟨-, -, -, -, hmember, -⟩ := MemberDraft.ofSlot?_eq_some he.2
      exact hmember
  exact pairwise_of_map_eq (f := fun e : Identifier × Slot => e.2.member)
    (g := fun e : Identifier × MemberDraft => e.2.member)
    (S := fun m m' => m.kind = .method → m ≠ m') heq hunique

/-- If no two drafts are of one method, a listed method that is not ignored takes part. -/
theorem candidate?_eq_some {drafts : IdentifierMap MemberDraft} (hunique : UniqueDrafts drafts)
    {e : Identifier × MemberDraft} (he : e ∈ drafts.entries) (hmember : e.2.member = .method a)
    (hignored : e.2.ignored = false) :
    candidate? drafts a = some (a, ⟨e.1.name, e.2.details.isStaticMethod⟩) := by
  have hfind : drafts.entries.find? (fun entry => entry.2.member = .method a) = some e :=
    find?_eq_some_of_unique he (decide_eq_true hmember) fun e' he' hmember' =>
      eq_of_unique_drafts hunique he' he (of_decide_eq_true hmember') hmember
  unfold candidate?
  rw [hfind]
  show (if e.2.ignored = true then none
    else some (a, OverloadKey.mk e.1.name e.2.details.isStaticMethod)) = _
  rw [hignored]
  rfl

end Overloads

/-! ## Visible names in a record -/

namespace TypeRecord

/-- A method of a record that is emitted and whose visible name is left to the overload rule. -/
structure NamedByRule (store : Store) (names : Vocabulary) (r : TypeRecord) (id : MethodId)
    (d : MethodDecl) (x : Member) : Prop where
  mem : x ∈ r.members.values
  decl_eq : x.decl = .member (.method id)
  method_eq : store.method? id = some d
  no_overrides : d.overrides = []
  no_dollar : '$' ∉ x.name.toList
  emitted : x.ignored = false
  not_renamed : x.metadata.has names.rename = false
  not_dispatched : x.metadata.has names.runtimeDispatch = false

section Named

variable {store : Store} {names : Vocabulary} {id : TypeId} {t : TypeDecl} {r : TypeRecord}
  {a b : MethodId} {d e : MethodDecl} {x y : Member}

theorem member?_method (hd : store.method? a = some d) :
    store.member? (.method a) = some (.method d) :=
  congrArg (Option.map MemberDecl.method) hd

/-- A method that overrides nothing is declared under its own name. -/
theorem declaredMemberName?_of_no_overrides (hd : store.method? a = some d)
    (hoverrides : d.overrides = []) : store.declaredMemberName? (.method a) = some d.name := by
  unfold Store.declaredMemberName?
  rw [member?_method hd]
  simp [hoverrides]

theorem name_of_identifier? (hd : store.method? a = some d) {key : Identifier}
    (hkey : store.identifier? (.method a) = some key) : key.name = d.name := by
  obtain ⟨e, he, -, hname, -⟩ := Store.identifier?_eq_some hkey
  obtain rfl : e = .method d := Option.some.inj (he.symm.trans (member?_method hd))
  exact hname

/-- The draft of a method has the name and the staticness that the method is declared with. -/
theorem key_of_draft {proxies : List Proxy} {roster : Roster} {drafts : IdentifierMap MemberDraft}
    (hsound : Roster.Sound store roster)
    (hdrafts : roster.Replaces (fun slot draft =>
      MemberDraft.ofSlot? store names proxies slot = some draft) drafts)
    {e : Identifier × MemberDraft} (he : e ∈ drafts.entries) (hmember : e.2.member = .method a) :
    ∃ d, store.method? a = some d ∧ e.1.name = d.name ∧
      e.2.details.isStaticMethod = d.modifiers.isStatic := by
  obtain ⟨slot, hslot, hkey, hdraft⟩ := exists_of_mem_right hdrafts.entries he
  obtain ⟨-, decl, -, hdecl, hsame, -, hdetails, -⟩ := MemberDraft.ofSlot?_eq_some hdraft
  have hmethod : slot.2.member = .method a := hsame.symm.trans hmember
  rw [hmethod] at hdecl hdetails
  obtain ⟨d, hd, rfl⟩ := Option.map_eq_some_iff.1 hdecl
  have hidentifier := hsound.keyed slot hslot
  rw [hmethod, ← hkey] at hidentifier
  refine ⟨d, hd, name_of_identifier? hd hidentifier, ?_⟩
  rw [← Option.some.inj hdetails]
  rfl

/-- Such a method takes part in the grouping, and its visible name is its name as an overload. -/
theorem NamedByRule.visibleName_eq {roster : Roster} {drafts : IdentifierMap MemberDraft}
    (hx : r.NamedByRule store names a d x) (hsound : Roster.Sound store roster)
    (hunique : Roster.NodupOn (fun m => m.kind = .method) roster)
    (hdrafts : roster.Replaces (fun slot draft =>
      MemberDraft.ofSlot? store names r.proxies slot = some draft) drafts)
    (hmembers : drafts.Replaces (fun draft m =>
      finishMember names id r.ignored (.ofDrafts t drafts) draft = .ok m) r.members) :
    Overloads.candidate? drafts a = some (a, ⟨d.name, d.modifiers.isStatic⟩) ∧
      x.name = d.name ∧
      x.visibleName = overloadName d.name ((Overloads.ofDrafts t drafts).index? (.method a)) := by
  obtain ⟨entry, hentry, rfl⟩ := List.mem_map.1 hx.mem
  obtain ⟨drafted, hdrafted, hkey, hfinish⟩ := exists_of_mem_right hmembers.entries hentry
  obtain ⟨slot, -, -, hdraft⟩ := exists_of_mem_right hdrafts.entries hdrafted
  obtain ⟨-, -, -, -, hmember, hcore, -, -⟩ := MemberDraft.ofSlot?_eq_some hdraft
  obtain ⟨visible, hvisible, hfinished⟩ := finishMember_eq_ok hfinish
  have hfilled := fills_of_finish hdraft hfinish
  have hmethod : slot.2.member = .method a :=
    DeclId.member.inj (hfilled.decl_eq.symm.trans hx.decl_eq)
  have hname : drafted.2.core.name = d.name := by
    obtain ⟨-, -, -, -, -, hcoreName, -⟩ := MemberCore.ofMember?_eq_some hcore
    rw [hmethod, declaredMemberName?_of_no_overrides hx.method_eq hx.no_overrides] at hcoreName
    exact (Option.some.inj hcoreName).symm
  refine ⟨?_, ?_, ?_⟩
  · have hdraftsUnique := Overloads.unique_drafts_of_roster hunique hdrafts
    have hignored : drafted.2.ignored = false := by
      have hor := hx.emitted
      rw [hfinished] at hor
      exact (Bool.or_eq_false_iff.1 hor).1
    obtain ⟨d', hd', hkeyName, hstatic⟩ :=
      key_of_draft hsound hdrafts hdrafted (hmember.trans hmethod)
    obtain rfl : d = d' := Option.some.inj (hx.method_eq.symm.trans hd')
    rw [Overloads.candidate?_eq_some hdraftsUnique hdrafted (hmember.trans hmethod) hignored,
      hstatic, hkeyName]
  · rw [hfinished]
    exact hname
  · have hrename := hx.not_renamed
    have hdispatch := hx.not_dispatched
    rw [hfinished] at hrename hdispatch
    rw [visibleName_eq_ok hrename hdispatch, hname, hmember, hmethod] at hvisible
    rw [hfinished]
    exact (Except.ok.inj hvisible).symm

/-- Distinct methods that a type lists, that are alike in being static or not, and whose visible
names are left to the overload rule, have distinct visible names. -/
theorem visibleName_ne_of_build (h : build store names id = .ok r) (ht : store.type? id = some t)
    (ha : a ∈ t.methods) (hb : b ∈ t.methods) (hab : a ≠ b)
    (hx : r.NamedByRule store names a d x) (hy : r.NamedByRule store names b e y)
    (hstatic : d.modifiers.isStatic = e.modifiers.isStatic) :
    x.visibleName ≠ y.visibleName := by
  obtain ⟨t', roster, drafts, ht', hproxies, hroster, hdrafts, hmembers⟩ := roster_of_build h
  obtain rfl : t = t' := Option.some.inj (ht.symm.trans ht')
  have htabulated := Proxy.tabulated_of_proxiesOf ht hproxies
  have hsound := Roster.sound_of_build? hroster htabulated
  have hunique := Roster.nodupOn_methods_of_build? hroster htabulated
  obtain ⟨hacandidate, haname, havisible⟩ := hx.visibleName_eq hsound hunique hdrafts hmembers
  obtain ⟨hbcandidate, hbname, hbvisible⟩ := hy.visibleName_eq hsound hunique hdrafts hmembers
  have hadollar := hx.no_dollar
  have hbdollar := hy.no_dollar
  rw [haname] at hadollar
  rw [hbname] at hbdollar
  intro heq
  rw [havisible, hbvisible] at heq
  obtain ⟨hname, hsuffix⟩ := overloadName_inj hadollar hbdollar heq
  -- Both have one key now, so that both are numbered by their places in one list.
  rw [← hname, ← hstatic] at hbcandidate
  have hamem := List.mem_filterMap.2 ⟨a, ha, hacandidate⟩
  have hbmem := List.mem_filterMap.2 ⟨b, hb, hbcandidate⟩
  have hkeyed := Overloads.keyed_candidates t drafts
  obtain ⟨i, hi, hplace⟩ := hkeyed.exists_index?_of_shared hamem hbmem hab
  obtain ⟨j, hj, hplace'⟩ := hkeyed.exists_index?_of_shared hbmem hamem hab.symm
  unfold Overloads.ofDrafts at hsuffix
  rw [hi, hj] at hsuffix
  have hij : i = j := overloadSuffix_injective hsuffix
  rw [hij] at hplace
  exact hab (Option.some.inj (hplace.symm.trans hplace'))

/-- A store with a type that lists two methods of one name. -/
def overloadStore : Store where
  modules := #[{ name := "app.dll" }]
  types := #[
    { module := ⟨0⟩, scope := "", name := "Main", fullName := "Main", kind := .classType
      methods := [⟨0⟩, ⟨1⟩] }]
  methods := #[
    { owner := ⟨0⟩, name := "Run" },
    { owner := ⟨0⟩, name := "Run", params := [.plain "System.Int32"] }]

/-- Two overloads of one name are shown under two names. -/
theorem two_runs_have_two_names :
    ∃ r x y, build overloadStore {} ⟨0⟩ = .ok r ∧ r.members.values = [x, y] ∧
      x.decl = .member (.method ⟨0⟩) ∧ y.decl = .member (.method ⟨1⟩) ∧
      x.visibleName ≠ y.visibleName := by
  have h : ∃ r, build overloadStore {} ⟨0⟩ = .ok r ∧ ∃ x y, r.members.values = [x, y] ∧
      r.NamedByRule overloadStore {} ⟨0⟩ { owner := ⟨0⟩, name := "Run" } x ∧
      r.NamedByRule overloadStore {} ⟨1⟩
        { owner := ⟨0⟩, name := "Run", params := [.plain "System.Int32"] } y := by
    refine ⟨_, rfl, _, _, rfl, ?_, ?_⟩
    · exact ⟨.head _, rfl, rfl, rfl, by decide, rfl, rfl, rfl⟩
    · exact ⟨.tail _ (.head _), rfl, rfl, rfl, by decide, rfl, rfl, rfl⟩
  obtain ⟨r, hr, x, y, hvalues, hx, hy⟩ := h
  have hne : x.visibleName ≠ y.visibleName :=
    visibleName_ne_of_build hr rfl (.head _) (.tail _ (.head _)) (by decide) hx hy rfl
  exact ⟨r, x, y, hr, hvalues, hx.decl_eq, hy.decl_eq, hne⟩

end Named

end TypeRecord

end TypeModel
