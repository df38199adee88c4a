import TypeModel.Proofs.Coverage
import TypeModel.Proofs.HiddenName
import TypeModel.Proofs.IgnoreCascade

/-!
# What a member shows and what hides it

Two things that a member shows should hide it: a pointer in its identifier and a short name that is
scaffolding. The record does not look at either of them. It looks for pointers in the declaration,
which for a property says nothing of parameters, and for scaffolding in the qualified name, which
does not begin as the short one does. How far the two views agree is said exactly
(`TypeRecord.ignored_iff_of_pointer`, `TypeRecord.ignored_iff_of_scaffolding`).
-/

namespace TypeModel

/-! ## Pointers in identifiers -/

/-- A pointer occurs in the type of an identifier or in one of its parameter types. -/
def Identifier.MentionsPointer (key : Identifier) : Prop :=
  ∃ sig ∈ key.type :: key.params.getD [], ∃ target, Signature.Occurs (.pointer target) sig

/-- A declaration mentions the pointers of its identifier, but for those that a property has in its
parameters alone. -/
theorem Identifier.MentionsPointer.mentionsPointer_iff {store : Store} {m : MemberId}
    {key : Identifier} {d : MemberDecl} (h : key.MentionsPointer)
    (hkey : store.identifier? m = some key) (hd : store.member? m = some d) :
    d.mentionsPointer = true ↔
      (m.kind = .property → ∃ target, Signature.Occurs (.pointer target) key.type) := by
  obtain ⟨d', hd', -, -, htype, hparams⟩ := Store.identifier?_eq_some hkey
  obtain rfl : d = d' := Option.some.inj (hd.symm.trans hd')
  rw [d.mentionsPointer_iff]
  cases m with
  | property id =>
    obtain ⟨e, -, rfl⟩ := Option.map_eq_some_iff.1 hd
    simp [htype, MemberDecl.signatures, MemberDecl.type, MemberId.kind]
  | field id | event id | method id =>
    obtain ⟨e, -, rfl⟩ := Option.map_eq_some_iff.1 hd
    -- The identifier of any other member has just the types of its declaration.
    unfold MentionsPointer at h
    rw [htype, ← Option.some.inj hparams] at h
    exact ⟨fun _ => nofun, fun _ => h⟩

namespace TypeRecord

variable {store : Store} {names : Vocabulary} {id : TypeId} {r : TypeRecord}

/-- What hides a member of a record by itself can be read off the record and the declaration. -/
theorem hiddenByItself_iff_of_build (h : build store names id = .ok r) {x : Member} {m : MemberId}
    {d : MemberDecl} (hx : x ∈ r.members.values) (hdecl : x.decl = .member m)
    (hd : store.member? m = some d) :
    store.qualifiedMemberName? m = some x.qualifiedName ∧
      (x.HiddenByItself store names ↔ isHiddenName x.qualifiedName = true ∨
        x.metadata.has names.ignore = true ∨ d.mentionsPointer = true) := by
  obtain ⟨t, drafts, slot, draft, hdraft, hfinish⟩ := exists_slot_of_build h hx
  obtain ⟨-, -, -, -, hmember, hcore, -, -⟩ := MemberDraft.ofSlot?_eq_some hdraft
  obtain ⟨visible, -, hfinished⟩ := finishMember_eq_ok hfinish
  rw [hiddenByItself_iff_of_finish hdraft hfinish]
  obtain rfl : slot.member = m := by
    rw [hfinished] at hdecl
    exact hmember.symm.trans (DeclId.member.inj hdecl)
  obtain ⟨d', hd', -, -, hqualified, -, hhidden⟩ := MemberCore.ofMember?_eq_some hcore
  obtain rfl : d = d' := Option.some.inj (hd.symm.trans hd')
  rw [hfinished]
  refine ⟨hqualified, ?_⟩
  simp only [hcore, Option.some.injEq, exists_eq_left', hhidden, Bool.or_eq_true, or_assoc]

/-- A member whose identifier mentions a pointer is ignored unless it is a property that mentions
pointers only in its parameters. Such a property is ignored for other reasons or not at all. -/
theorem ignored_iff_of_pointer (h : build store names id = .ok r) {e : Identifier × Member}
    (he : e ∈ r.members.entries) (hpointer : e.1.MentionsPointer) :
    e.2.ignored = true ↔ r.ignored = true ∨ isHiddenName e.2.qualifiedName = true ∨
      e.2.metadata.has names.ignore = true ∨
      (e.2.kind = .property → ∃ target, Signature.Occurs (.pointer target) e.1.type) := by
  obtain ⟨m, hdecl, hkey⟩ := keyed_of_build h he
  obtain ⟨d, hd, -⟩ := Store.identifier?_eq_some hkey
  have hx : e.2 ∈ r.members.values := List.mem_map_of_mem he
  have hkind : e.2.kind = m.kind := (kind_and_owner_of_build h hx).2 m hdecl
  obtain ⟨-, hhidden⟩ := hiddenByItself_iff_of_build h hx hdecl hd
  rw [hpointer.mentionsPointer_iff hkey hd, ← hkind] at hhidden
  rw [member_ignored_iff_of_build h hx]
  -- Only a method can be ignored together with an owner, and then it mentions its pointers itself.
  by_cases hmethod : e.2.kind = .method
  · have hnot : e.2.kind = .property → ∃ target, Signature.Occurs (.pointer target) e.1.type := by
      rw [hmethod]
      nofun
    exact iff_of_true (.inr (.inl (hhidden.2 (.inr (.inr hnot))))) (.inr (.inr (.inr hnot)))
  · have hconcealed : e.2.Concealed store names r ↔ e.2.HiddenByItself store names :=
      or_iff_left fun hcascade => hmethod hcascade.1
    rw [hconcealed, hhidden]

/-- A store with a type that lists a property, and its getter, which takes a pointer. -/
def indexerStore : Store where
  modules := #[{ name := "app.dll" }]
  types := #[
    { module := ⟨0⟩, scope := "", name := "Main", fullName := "Main", kind := .classType
      properties := [⟨0⟩], methods := [⟨0⟩] }]
  properties := #[
    { owner := ⟨0⟩, name := "Item", type := .plain "System.Int32", getter := some ⟨0⟩ }]
  methods := #[
    { owner := ⟨0⟩, name := "get_Item", returns := .plain "System.Int32"
      params := [.pointer (.plain "System.Byte")] }]

theorem getter_is_ignored_for_its_parameter :
    ∃ r e, build indexerStore {} ⟨0⟩ = .ok r ∧ e ∈ r.members.entries ∧
      e.2.decl = .member (.method ⟨0⟩) ∧ e.1.MentionsPointer ∧ e.2.ignored = true := by
  refine ⟨_, _, rfl, .tail _ (.head _), rfl, ⟨_, .tail _ (.head _), _, .here⟩, ?_⟩
  have hignored := ignored_iff_of_pointer (rfl : build indexerStore {} ⟨0⟩ = .ok _)
    (.tail _ (.head _)) ⟨_, .tail _ (.head _), _, .here⟩
  exact hignored.2 (.inr (.inr (.inr nofun)))

/-- The property has the parameters of its getter and is not ignored. -/
theorem indexer_over_pointer_is_visible :
    ∃ r e, build indexerStore {} ⟨0⟩ = .ok r ∧ e ∈ r.members.entries ∧
      e.2.decl = .member (.property ⟨0⟩) ∧ e.1.MentionsPointer ∧ e.2.ignored = false :=
  ⟨_, _, rfl, .head _, rfl, ⟨_, .tail _ (.head _), _, .here⟩, rfl⟩

/-! ## Short names -/

/-- A member with the short name of scaffolding and a qualified name that is not exempt is ignored
if a fragment in the short name or the name of the declaring type says so. An opening alone does
not: such a member is ignored for other reasons or not at all. -/
theorem ignored_iff_of_scaffolding (h : build store names id = .ok r) {x : Member} {m : MemberId}
    {d : MemberDecl} (hx : x ∈ r.members.values) (hdecl : x.decl = .member m)
    (hd : store.member? m = some d) (hname : isHiddenName d.name = true)
    (hexempt : HiddenName.staysVisible x.qualifiedName.toList = false) :
    ∃ t, store.type? d.owner = some t ∧ x.qualifiedName = Store.memberName t.fullName d.name ∧
      (x.ignored = true ↔ r.ignored = true ∨
        (∃ fragment ∈ HiddenName.fragments, fragment <:+: d.name.toList) ∨
        HiddenName.isScaffolding t.fullName.toList = true ∨
        x.metadata.has names.ignore = true ∨ d.mentionsPointer = true ∨
        (x.kind = .method ∧ ∃ o ∈ r.members.values,
          x.details.accessorOf.map DeclId.member = some o.decl ∧
          (o.kind = .property ∨ o.kind = .event) ∧ o.HiddenByItself store names)) := by
  obtain ⟨hqualified, hhidden⟩ := hiddenByItself_iff_of_build h hx hdecl hd
  obtain ⟨d', hd', hqualified⟩ := Option.bind_eq_some_iff.1 hqualified
  obtain rfl : d = d' := Option.some.inj (hd.symm.trans hd')
  obtain ⟨t, ht, hqualified⟩ := Option.bind_eq_some_iff.1 hqualified
  have hqualified : x.qualifiedName = Store.memberName t.fullName d.name :=
    (Option.some.inj hqualified).symm
  obtain ⟨-, hscaffolding⟩ := isHiddenName_iff.1 hname
  have hsearch : isHiddenName x.qualifiedName = true ↔
      (∃ fragment ∈ HiddenName.fragments, fragment <:+: d.name.toList) ∨
        HiddenName.isScaffolding t.fullName.toList = true := by
    rw [← isScaffolding_memberName_iff hscaffolding, ← hqualified, isHiddenName_iff]
    exact and_iff_right hexempt
  refine ⟨t, ht, hqualified, ?_⟩
  rw [member_ignored_iff_of_build h hx, Member.Concealed, hhidden, hsearch]
  simp only [or_assoc]

/-- A store with a type that lists two fields with names that compilers choose. -/
def mangledStore : Store where
  modules := #[{ name := "app.dll" }]
  types := #[
    { module := ⟨0⟩, scope := "", name := "Main", fullName := "Main", kind := .classType
      fields := [⟨0⟩, ⟨1⟩] }]
  fields := #[
    { owner := ⟨0⟩, name := "<Run>o__SiteContainer0", type := .plain "System.Object" },
    { owner := ⟨0⟩, name := "CS$<>8__locals1", type := .plain "System.Object" }]

theorem call_site_container_is_ignored :
    ∃ r x d, build mangledStore {} ⟨0⟩ = .ok r ∧ x ∈ r.members.values ∧
      x.decl = .member (.field ⟨0⟩) ∧ mangledStore.member? (.field ⟨0⟩) = some d ∧
      isHiddenName d.name = true ∧ HiddenName.staysVisible x.qualifiedName.toList = false ∧
      x.ignored = true := by
  have hbuild := (rfl : build mangledStore {} ⟨0⟩ = .ok _)
  have hname : isHiddenName "<Run>o__SiteContainer0" = true := by decide
  have hexempt : HiddenName.staysVisible "Main.<Run>o__SiteContainer0".toList = false := by decide
  have hfragment : "__SiteContainer".toList <:+: "<Run>o__SiteContainer0".toList := by decide
  obtain ⟨t, -, -, hignored⟩ := ignored_iff_of_scaffolding hbuild (.head _) rfl rfl hname hexempt
  exact ⟨_, _, _, hbuild, .head _, rfl, rfl, hname, hexempt,
    hignored.2 (.inr (.inl ⟨_, .tail _ (.head _), hfragment⟩))⟩

/-- The other field begins like scaffolding, but its qualified name does not. -/
theorem mangled_field_is_visible :
    ∃ r x d, build mangledStore {} ⟨0⟩ = .ok r ∧ x ∈ r.members.values ∧
      x.decl = .member (.field ⟨1⟩) ∧ mangledStore.member? (.field ⟨1⟩) = some d ∧
      isHiddenName d.name = true ∧ HiddenName.staysVisible x.qualifiedName.toList = false ∧
      x.ignored = false := by
  have hname : isHiddenName "CS$<>8__locals1" = true := by decide
  have hexempt : HiddenName.staysVisible "Main.CS$<>8__locals1".toList = false := by decide
  exact ⟨_, _, _, rfl, .tail _ (.head _), rfl, rfl, hname, hexempt, rfl⟩

end TypeRecord

end TypeModel
