import TypeModel.Proofs.Slots
import TypeModel.Proofs.TypeRecord
import TypeModel.Proofs.WellFormed

/-!
# Following handles in a well-formed store

In a well-formed store each function that follows handles gets to its end if the handles that it is
given lead somewhere: identifiers, names and metadata of members, what backs a member, the roster of
a type, the drafts of its members and its literals (`Store.WellFormed.exists_outline?`).
-/

namespace TypeModel

variable {s : Store}

/-! ## Handles of members -/

namespace Store

theorem has_method_iff {id : MethodId} :
    s.Has (.member (.method id)) ↔ ∃ d, s.method? id = some d :=
  has_member_iff.trans exists_map_eq_some

theorem has_field_iff {id : FieldId} : s.Has (.member (.field id)) ↔ ∃ d, s.field? id = some d :=
  has_member_iff.trans exists_map_eq_some

end Store

/-- The identifier of a member can be found only if its handle leads somewhere. -/
theorem Store.has_of_identifier? {m : MemberId} {key : Identifier}
    (h : s.identifier? m = some key) : s.Has (.member m) := by
  obtain ⟨d, hd, -⟩ := Option.bind_eq_some_iff.1 h
  exact has_member_iff.2 ⟨d, hd⟩

namespace Store.WellFormed

variable {m : MemberId} {d : MemberDecl}

/-- What the declaration of a member mentions is there. -/
theorem has_of_member? (h : s.WellFormed) (hd : s.member? m = some d) :
    ∀ x ∈ d.handles, s.Has x :=
  h (.member m) (.member d) (congrArg (Option.map Decl.member) hd)

theorem has_of_type? (h : s.WellFormed) {id : TypeId} {t : TypeDecl} (ht : s.type? id = some t) :
    ∀ x ∈ t.handles, s.Has x :=
  h (.type id) (.type t) (congrArg (Option.map Decl.type) ht)

theorem exists_owner (h : s.WellFormed) (hd : s.member? m = some d) :
    ∃ t, s.type? d.owner = some t :=
  has_type_iff.1 (h.has_of_member? hd _ List.mem_cons_self)

/-- The accessors of a member and the methods that it overrides are there. -/
theorem exists_mentioned (h : s.WellFormed) (hd : s.member? m = some d) {a : MethodId}
    (ha : a ∈ d.accessors ++ d.overrides) : ∃ e, s.method? a = some e :=
  has_method_iff.1 (h.has_of_member? hd _ (List.mem_cons_of_mem _
    (List.mem_map_of_mem (f := fun a => DeclId.member (.method a)) ha)))

theorem has_listed (h : s.WellFormed) {id : TypeId} {t : TypeDecl} (ht : s.type? id = some t)
    (hm : m ∈ t.offeredMembers) : s.Has (.member m) :=
  h.has_of_type? ht _ (List.mem_cons_of_mem _ (List.mem_append_right _ (List.mem_map_of_mem hm)))

theorem exists_module (h : s.WellFormed) {id : TypeId} {t : TypeDecl} (ht : s.type? id = some t) :
    ∃ d, s.module? t.module = some d :=
  has_module_iff.1 (h.has_of_type? ht _ List.mem_cons_self)

/-! ## Identifiers, names and metadata -/

theorem exists_memberParams? (h : s.WellFormed) (hd : s.member? m = some d) :
    ∃ params, s.memberParams? d = some params := by
  have hmentioned := fun a ha => h.exists_mentioned hd (a := a) ha
  cases d with
  | field d => exact ⟨_, rfl⟩
  | event d => exact ⟨_, rfl⟩
  | method d => exact ⟨_, rfl⟩
  | property d =>
    obtain ⟨owner, name, type, getter, setter, annotations⟩ := d
    cases getter with
    | some getter =>
      obtain ⟨e, he⟩ := hmentioned getter (by simp [MemberDecl.accessors])
      simp [memberParams?, params?, he]
    | none =>
      cases setter with
      | none => exact ⟨_, rfl⟩
      | some setter =>
        obtain ⟨e, he⟩ := hmentioned setter (by simp [MemberDecl.accessors])
        simp [memberParams?, params?, he]

theorem exists_identifier? (h : s.WellFormed) (hm : s.Has (.member m)) :
    ∃ key, s.identifier? m = some key := by
  obtain ⟨d, hd⟩ := has_member_iff.1 hm
  obtain ⟨params, hparams⟩ := h.exists_memberParams? hd
  simp [identifier?, hd, hparams]

theorem exists_qualifiedMemberName? (h : s.WellFormed) (hm : s.Has (.member m)) :
    ∃ name, s.qualifiedMemberName? m = some name := by
  obtain ⟨d, hd⟩ := has_member_iff.1 hm
  obtain ⟨t, ht⟩ := h.exists_owner hd
  simp [qualifiedMemberName?, hd, ht]

theorem exists_qualifiedName? (h : s.WellFormed) {id : DeclId} (hid : s.Has id) :
    ∃ name, s.qualifiedName? id = some name := by
  cases id with
  | module id =>
    obtain ⟨d, hd⟩ := has_module_iff.1 hid
    simp [qualifiedName?, hd]
  | type id =>
    obtain ⟨t, ht⟩ := has_type_iff.1 hid
    simp [qualifiedName?, ht]
  | member m => exact h.exists_qualifiedMemberName? hid

/-- Every member has a declared name, also one that takes the name of a method that it overrides. -/
theorem exists_declaredMemberName? (h : s.WellFormed) (hm : s.Has (.member m)) :
    ∃ name, s.declaredMemberName? m = some name := by
  obtain ⟨d, hd⟩ := has_member_iff.1 hm
  obtain ⟨t, ht⟩ := h.exists_owner hd
  have hmentioned := fun a ha => h.exists_mentioned hd (a := a) ha
  unfold declaredMemberName?
  rw [hd]
  cases d with
  | field d => exact ⟨d.name, rfl⟩
  | property d =>
    have ht : s.type? d.owner = some t := ht
    simp [interfaceQualified?, ht]
  | event d =>
    have ht : s.type? d.owner = some t := ht
    simp [interfaceQualified?, ht]
  | method d =>
    cases hoverrides : d.overrides with
    | nil => simp [hoverrides]
    | cons first rest =>
      have hfirst : s.Has (.member (.method first)) :=
        has_method_iff.2 (hmentioned first (by simp [MemberDecl.overrides, hoverrides]))
      simpa [hoverrides] using h.exists_qualifiedMemberName? hfirst

theorem exists_declaredName? (h : s.WellFormed) {id : DeclId} (hid : s.Has id) :
    ∃ name, s.declaredName? id = some name := by
  cases id with
  | module id => exact h.exists_qualifiedName? hid
  | type id => exact h.exists_qualifiedName? hid
  | member m => exact h.exists_declaredMemberName? hid

theorem exists_metadata? (h : s.WellFormed) {id : DeclId} (hid : s.Has id) :
    ∃ metadata, s.metadata? id = some metadata := by
  obtain ⟨name, hname⟩ := h.exists_qualifiedName? hid
  obtain ⟨d, hd⟩ := hid
  simp [metadata?, hd, hname]

/-! ## What backs a member -/

/-- Accessors that are in range can be asked whether they are abstract. -/
theorem exists_eitherAbstract? {first second : Option MethodId}
    (h : ∀ a ∈ first.toList ++ second.toList, ∃ e, s.method? a = some e) :
    ∃ b, s.eitherAbstract? first second = some b := by
  have hone : ∀ accessor : Option MethodId,
      (∀ a ∈ accessor, a ∈ first.toList ++ second.toList) →
      ∃ b, s.isAbstract? accessor = some b := by
    rintro (_ | a) hmem
    · exact ⟨false, rfl⟩
    · obtain ⟨e, he⟩ := h a (hmem a rfl)
      exact ⟨e.modifiers.isAbstract, by simp [isAbstract?, he]⟩
  obtain ⟨b, hb⟩ := hone (first.or second) fun a ha => by
    cases first <;> simp_all
  obtain ⟨b', hb'⟩ := hone (second.or first) fun a ha => by
    cases second <;> simp_all
  unfold eitherAbstract?
  cases b with
  | true => exact ⟨true, by simp [hb]⟩
  | false => exact ⟨b', by simp [hb, hb']⟩

/-- Every member can be asked whether it has an implementation to give. -/
theorem exists_suppliesImplementation? (h : s.WellFormed) (hm : s.Has (.member m)) :
    ∃ b, s.suppliesImplementation? m = some b := by
  obtain ⟨d, hd⟩ := has_member_iff.1 hm
  have haccessors : ∀ a ∈ d.accessors, ∃ e, s.method? a = some e := fun a ha =>
    h.exists_mentioned hd (List.mem_append_left _ ha)
  unfold suppliesImplementation?
  rw [hd]
  cases d with
  | method d => exact ⟨!d.modifiers.isAbstract, rfl⟩
  | field d => exact ⟨true, rfl⟩
  | property d =>
    obtain ⟨b, hb⟩ := exists_eitherAbstract? haccessors
    exact ⟨!b, by simp [hb]⟩
  | event d =>
    obtain ⟨b, hb⟩ := exists_eitherAbstract? haccessors
    exact ⟨!b, by simp [hb]⟩

/-- The table of a proxy leads to members of the store only. -/
theorem has_of_tabulated {p : Proxy} (hp : Roster.Tabulated s p) :
    ∀ m ∈ p.members.values, s.Has (.member m) := by
  intro m hm
  obtain ⟨entry, hentry, rfl⟩ := List.mem_map.1 hm
  exact has_of_identifier? (hp entry hentry)

/-- Every proxy has a say, and what it substitutes is there. -/
theorem exists_substitute? (h : s.WellFormed) {p : Proxy} (hp : Roster.Tabulated s p)
    {key : Identifier} {backing : MemberId} (hbacking : s.Has (.member backing)) :
    ∃ b, s.substitute? key backing p = some b ∧ s.Has (.member b) := by
  unfold substitute?
  by_cases hsubstitutes : p.substitutes
  · rw [if_pos hsubstitutes]
    cases hfind : p.find? key with
    | none => exact ⟨backing, rfl, hbacking⟩
    | some candidate =>
      have hcandidate : s.Has (.member candidate) :=
        has_of_tabulated hp _ (IdentifierMap.mem_values_of_get? hfind)
      obtain ⟨supplies, hsupplies⟩ := h.exists_suppliesImplementation? hcandidate
      refine ⟨if supplies then candidate else backing, by simp [hsupplies], ?_⟩
      split
      · exact hcandidate
      · exact hbacking
  · rw [if_neg hsubstitutes]
    exact ⟨backing, rfl, hbacking⟩

/-- What backs a member is the member itself or one that a proxy offers. -/
theorem exists_resolve? (h : s.WellFormed) {proxies : List Proxy}
    (hproxies : ∀ p ∈ proxies, Roster.Tabulated s p) (hm : s.Has (.member m)) :
    ∃ b, s.resolve? proxies m = some b ∧ s.Has (.member b) := by
  obtain ⟨key, hkey⟩ := h.exists_identifier? hm
  unfold resolve?
  rw [hkey]
  by_cases hconstructor : key.isDefaultConstructor
  · exact ⟨m, by simp [hconstructor], hm⟩
  · have hstep : ∀ p ∈ proxies, ∀ backing, s.Has (.member backing) →
        ∃ b, s.substitute? key backing p = some b ∧ s.Has (.member b) :=
      fun p hp backing hbacking => h.exists_substitute? (hproxies p hp) hbacking
    obtain ⟨b, hb, hhas⟩ := option_foldlM_exists (P := fun b => s.Has (.member b)) hm hstep
    exact ⟨b, by simp [hconstructor, hb], hhas⟩

end Store.WellFormed

/-! ## The roster of a type -/

namespace Roster

variable {t : TypeDecl} {proxies : List Proxy} {origin : Origin} {slot : Slot} {m : MemberId}

theorem exists_offer? (h : s.WellFormed) (r : Roster) (hslot : s.Has (.member slot.member)) :
    ∃ r', offer? s r slot = some r' := by
  obtain ⟨key, hkey⟩ := h.exists_identifier? hslot
  simp [offer?, hkey]

/-- Every member can be added, with its accessors. -/
theorem exists_add? (h : s.WellFormed) (r : Roster) (hm : s.Has (.member m)) :
    ∃ r', add? s origin r m = some r' := by
  obtain ⟨d, hd⟩ := Store.has_member_iff.1 hm
  obtain ⟨key, hkey⟩ := h.exists_identifier? hm
  have hstep : ∀ a ∈ d.accessors, ∀ c : Roster, True →
      ∃ c', offer? s c ⟨.method a, origin, some m⟩ = some c' ∧ True := by
    intro a ha c _
    have hmethod := h.exists_mentioned hd (List.mem_append_left _ ha)
    have hslot : s.Has (.member (Slot.mk (.method a) origin (some m)).member) :=
      Store.has_method_iff.2 hmethod
    obtain ⟨c', hc'⟩ := exists_offer? h c hslot
    exact ⟨c', hc', trivial⟩
  obtain ⟨r', hr', -⟩ := option_foldlM_exists (b := r.push key ⟨m, origin, none⟩) trivial hstep
  exact ⟨r', by simp [add?, hkey, hd, hr']⟩

theorem exists_ofType? (h : s.WellFormed) (ht : ∀ m ∈ t.offeredMembers, s.Has (.member m)) :
    ∃ r, ofType? s t = some r := by
  have hdata : ∀ m ∈ t.dataMembers, s.Has (.member m) := by
    intro m hm
    refine ht m ?_
    unfold TypeDecl.dataMembers at hm
    unfold TypeDecl.offeredMembers
    simp only [List.mem_append] at hm ⊢
    grind
  have hadd : ∀ m ∈ t.dataMembers, ∀ c : Roster, True → ∃ c', add? s .own c m = some c' ∧ True := by
    intro m hm c _
    obtain ⟨c', hc'⟩ := exists_add? h c (hdata m hm)
    exact ⟨c', hc', trivial⟩
  have hoffer : ∀ id ∈ t.methods, ∀ c : Roster, True →
      ∃ c', offer? s c ⟨.method id, .own, none⟩ = some c' ∧ True := by
    intro id hid c _
    have hslot : s.Has (.member (Slot.mk (.method id) .own none).member) := by
      refine ht _ ?_
      unfold TypeDecl.offeredMembers
      exact List.mem_append_right _ (List.mem_map_of_mem hid)
    obtain ⟨c', hc'⟩ := exists_offer? h c hslot
    exact ⟨c', hc', trivial⟩
  obtain ⟨base, hbase, -⟩ := option_foldlM_exists (b := (.empty : Roster)) trivial hadd
  obtain ⟨r, hr, -⟩ := option_foldlM_exists (b := base) trivial hoffer
  exact ⟨r, by simp [ofType?, hbase, hr]⟩

/-- What a proxy lists may join, or is passed over. -/
theorem exists_contribute? (h : s.WellFormed) (r : Roster) {p : Proxy} (hp : Tabulated s p) :
    ∃ r', contribute? s r p = some r' := by
  have hstep : ∀ entry ∈ p.members.entries, ∀ c : Roster, True →
      ∃ c', contributeMember? s c entry = some c' ∧ True := by
    intro entry hentry c _
    have hmember := Store.has_of_identifier? (hp entry hentry)
    obtain ⟨c', hc'⟩ := exists_add? h c hmember
    unfold contributeMember?
    split
    · exact ⟨c, rfl, trivial⟩
    · exact ⟨c', hc', trivial⟩
  obtain ⟨r', hr', -⟩ := option_foldlM_exists (b := r) trivial hstep
  exact ⟨r', hr'⟩

/-- The roster of a type can be made, with whatever its proxies contribute. -/
theorem exists_build? (h : s.WellFormed) (ht : ∀ m ∈ t.offeredMembers, s.Has (.member m))
    (hproxies : ∀ p ∈ proxies, Tabulated s p) : ∃ r, build? s t proxies = some r := by
  obtain ⟨base, hbase⟩ := exists_ofType? h ht
  have hstep : ∀ p ∈ proxies, ∀ c : Roster, True → ∃ c', contribute? s c p = some c' ∧ True := by
    intro p hp c _
    obtain ⟨c', hc'⟩ := exists_contribute? h c (hproxies p hp)
    exact ⟨c', hc', trivial⟩
  obtain ⟨r, hr, -⟩ := option_foldlM_exists (b := base) trivial hstep
  exact ⟨r, by simp [build?, hbase, hr]⟩

end Roster

/-! ## Drafts and literals -/

section Drafts

variable {names : Vocabulary} {proxies : List Proxy} {origin : Origin} {m : MemberId}

theorem MemberCore.exists_ofMember? (h : s.WellFormed)
    (hproxies : ∀ p ∈ proxies, Roster.Tabulated s p) (hm : s.Has (.member m)) :
    ∃ core, MemberCore.ofMember? s names proxies origin m = some core := by
  obtain ⟨d, hd⟩ := Store.has_member_iff.1 hm
  obtain ⟨qualifiedName, hqualified⟩ := h.exists_qualifiedMemberName? hm
  obtain ⟨name, hname⟩ := h.exists_declaredMemberName? hm
  obtain ⟨backing, hbacking, hhas⟩ :
      ∃ b, backing? s proxies origin m = some b ∧ s.Has (.member b) := by
    cases origin with
    | own => exact h.exists_resolve? hproxies hm
    | proxy => exact ⟨m, rfl, hm⟩
  obtain ⟨own, hown⟩ := h.exists_metadata? hm
  obtain ⟨lent, hlent⟩ := h.exists_metadata? hhas
  obtain ⟨metadata, hmetadata⟩ : ∃ metadata, backedMetadata? s m backing = some metadata := by
    unfold backedMetadata?
    rw [hown, hlent]
    by_cases heq : backing = m
    · exact ⟨own, by simp [heq]⟩
    · exact ⟨own.update lent false, by simp [heq]⟩
  simp [ofMember?, hd, hbacking, hmetadata, hqualified, hname]

theorem MemberDetails.exists_ofDecl {d : MemberDecl} (hd : s.member? m = some d)
    (accessorOf : Option MemberId) :
    ∃ details, MemberDetails.ofDecl accessorOf m d = some details := by
  cases m <;>
  · obtain ⟨e, -, rfl⟩ := Option.map_eq_some_iff.1 hd
    exact ⟨_, rfl⟩

theorem MemberDraft.exists_ofSlot? (h : s.WellFormed)
    (hproxies : ∀ p ∈ proxies, Roster.Tabulated s p) {slot : Slot}
    (hmember : s.Has (.member slot.member))
    (howner : ∀ o, slot.accessorOf = some o → s.Has (.member o)) :
    ∃ draft, MemberDraft.ofSlot? s names proxies slot = some draft := by
  obtain ⟨d, hd⟩ := Store.has_member_iff.1 hmember
  obtain ⟨core, hcore⟩ :
      ∃ core, MemberCore.ofMember? s names proxies slot.origin slot.member = some core :=
    MemberCore.exists_ofMember? h hproxies hmember
  obtain ⟨details, hdetails⟩ := MemberDetails.exists_ofDecl hd slot.accessorOf
  obtain ⟨inherited, hinherited⟩ :
      ∃ inherited, inheritsHidden? s names proxies slot = some inherited := by
    unfold inheritsHidden?
    cases haccessor : slot.accessorOf with
    | none => exact ⟨false, rfl⟩
    | some o =>
      obtain ⟨ownerCore, hownerCore⟩ :
          ∃ core, MemberCore.ofMember? s names proxies slot.origin o = some core :=
        MemberCore.exists_ofMember? h hproxies (howner o haccessor)
      exact ⟨ownerCore.hidden, by simp [hownerCore]⟩
  simp [ofSlot?, hcore, hinherited, hd, hdetails]

theorem EnumLiteral.mem_of_mem_number {previous : Option Int64}
    {fields : List (FieldId × FieldDecl)} {x : (FieldId × FieldDecl) × Int64}
    (hx : x ∈ number previous fields) : x.1 ∈ fields := by
  induction fields generalizing previous with
  | nil => exact absurd hx List.not_mem_nil
  | cons f rest ih =>
    rw [number] at hx
    rcases List.mem_cons.1 hx with rfl | hx
    · exact List.mem_cons_self
    · exact List.mem_cons_of_mem _ (ih hx)

/-- Every type has a list of literals, which may be empty. -/
theorem EnumLiteral.exists_ofType? (h : s.WellFormed) (id : TypeId) {t : TypeDecl}
    (ht : ∀ m ∈ t.offeredMembers, s.Has (.member m)) :
    ∃ literals, EnumLiteral.ofType? s id t = some literals := by
  have hfields : ∀ f ∈ t.fields, s.Has (.member (.field f)) := by
    intro f hf
    refine ht _ ?_
    unfold TypeDecl.offeredMembers
    exact List.mem_append_left _ (List.mem_append_right _ (List.mem_map_of_mem hf))
  obtain ⟨listed, hlisted⟩ : ∃ listed, listedFields? s t = some listed :=
    option_mapM_exists fun f hf => by
      obtain ⟨d, hd⟩ := Store.has_field_iff.1 (hfields f hf)
      exact ⟨(f, d), by simp [hd]⟩
  have hhas : ∀ f ∈ listed, s.Has (.member (.field f.1)) := by
    intro f hf
    obtain ⟨id, hid, heq⟩ := exists_of_mem_right (option_mapM_eq_some.1 hlisted) hf
    obtain ⟨d, -, heq⟩ := Option.bind_eq_some_iff.1 heq
    cases heq
    exact hfields id hid
  unfold ofType?
  split
  · rw [hlisted]
    refine option_mapM_exists fun x hx => ?_
    have hmem : x.1 ∈ listed := List.mem_of_mem_filter (mem_of_mem_number hx)
    obtain ⟨name, hname⟩ := h.exists_qualifiedMemberName? (hhas x.1 hmem)
    obtain ⟨⟨f, d⟩, value⟩ := x
    exact ⟨⟨id, f, name, d.name, value⟩, by simp [hname]⟩
  · exact ⟨[], rfl⟩

end Drafts

/-- Everything that the record of a type depends on can be followed. -/
theorem Store.WellFormed.exists_outline? (h : s.WellFormed) (names : Vocabulary)
    {proxies : List Proxy} (hproxies : ∀ p ∈ proxies, Roster.Tabulated s p) {id : TypeId}
    {t : TypeDecl} (ht : s.type? id = some t) :
    ∃ outline, TypeRecord.outline? s names proxies id t = some outline := by
  have hlisted : ∀ m ∈ t.offeredMembers, s.Has (.member m) := fun m hm => h.has_listed ht hm
  obtain ⟨roster, hroster⟩ := Roster.exists_build? h hlisted hproxies
  obtain ⟨literals, hliterals⟩ := EnumLiteral.exists_ofType? h id hlisted
  have hsound := Roster.sound_of_build? hroster hproxies
  have hslots : ∀ entry ∈ roster.entries,
      ∃ draft, MemberDraft.ofSlot? s names proxies entry.2 = some draft := by
    intro entry hentry
    refine MemberDraft.exists_ofSlot? h hproxies (has_of_identifier? (hsound.keyed entry hentry)) ?_
    intro o ho
    obtain ⟨-, d, hd, -⟩ := Roster.owner_of_build? hroster hproxies hentry o ho
    exact has_member_iff.2 ⟨d, hd⟩
  obtain ⟨entries, hentries⟩ := option_mapM_exists
    (f := fun entry : Identifier × Slot => do
      return (entry.1, ← MemberDraft.ofSlot? s names proxies entry.2)) fun entry hentry => by
        obtain ⟨draft, hdraft⟩ := hslots entry hentry
        exact ⟨(entry.1, draft), by simp [hdraft]⟩
  have hdrafts : roster.mapM (fun _ slot => MemberDraft.ofSlot? s names proxies slot) =
      some ⟨entries, roster.buckets⟩ := by
    unfold IdentifierMap.mapM
    rw [hentries]
    rfl
  simp [TypeRecord.outline?, hroster, hdrafts, hliterals]

end TypeModel
