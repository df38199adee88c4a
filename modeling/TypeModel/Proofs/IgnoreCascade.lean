import TypeModel.Proofs.Metadata
import TypeModel.Proofs.Overlay
import TypeModel.Proofs.Slots

/-!
# What is ignored

A member can be ignored for three reasons: by itself (`Member.HiddenByItself`), because it was
reached through a property or event that is hidden by itself, or because its type is ignored. The
flag of a member is written when its draft is made and again when the record is finished, but says
just this (`TypeRecord.ignored_iff_of_build`).
-/

namespace TypeModel

/-! ## Pointers -/

/-- The type of a field, a property or an event; what a method returns and what it takes. -/
def MemberDecl.signatures : MemberDecl → List Signature
  | .method d => d.returns :: d.params
  | d => [d.type]

/-- A declaration mentions a pointer if one occurs in some signature of it, however deep. -/
theorem MemberDecl.mentionsPointer_iff (d : MemberDecl) : d.mentionsPointer = true ↔
    ∃ sig ∈ d.signatures, ∃ target, Signature.Occurs (.pointer target) sig := by
  have hany : d.mentionsPointer = d.signatures.any Signature.containsPointer := by
    cases d with
    | method d => exact (List.any_cons ..).symm
    | _ => exact (Bool.or_false _).symm
  rw [hany, List.any_eq_true]
  simp only [Signature.containsPointer_iff]

/-! ## Members hidden by themselves -/

section Hidden

variable {store : Store} {names : Vocabulary} {proxies : List Proxy} {slot : Slot}

/-- A member is hidden by its qualified name, by an annotation on it or on the declaration that
backs it, or by a pointer in its signature. -/
def Store.Hides (store : Store) (names : Vocabulary) (m backing : MemberId) : Prop :=
  ∃ d lent name, store.member? m = some d ∧ store.member? backing = some lent ∧
    store.qualifiedMemberName? m = some name ∧
    (isHiddenName name = true ∨
      (∃ a ∈ d.annotations ++ lent.annotations, a.kind = names.ignore) ∨
      ∃ sig ∈ d.signatures, ∃ target, Signature.Occurs (.pointer target) sig)

/-- A member of a record is hidden, whatever its type and its owner are. -/
def Member.HiddenByItself (store : Store) (names : Vocabulary) (x : Member) : Prop :=
  ∃ m backing, x.decl = .member m ∧ x.backing = .member backing ∧ store.Hides names m backing

/-- A member of a record is hidden by itself or, if it is a method, together with the property or
event that it was reached through. -/
def Member.Concealed (store : Store) (names : Vocabulary) (r : TypeRecord) (x : Member) : Prop :=
  x.HiddenByItself store names ∨
    (x.kind = .method ∧ ∃ o ∈ r.members.values,
      x.details.accessorOf.map DeclId.member = some o.decl ∧
      (o.kind = .property ∨ o.kind = .event) ∧ o.HiddenByItself store names)

theorem metadata?_member_eq_some {m : MemberId} {metadata : Metadata}
    (h : store.metadata? (.member m) = some metadata) :
    ∃ d owner, store.member? m = some d ∧ metadata = .ofAnnotations owner d.annotations := by
  obtain ⟨decl, hdecl, h⟩ := Option.bind_eq_some_iff.1 h
  obtain ⟨owner, -, h⟩ := Option.bind_eq_some_iff.1 h
  obtain ⟨d, hd, rfl⟩ := Option.map_eq_some_iff.1 hdecl
  cases h
  exact ⟨d, owner, hd, rfl⟩

/-- A kind is present on a member with its backing if one of the two carries it. -/
theorem has_backedMetadata? {m backing : MemberId} {metadata : Metadata}
    (h : backedMetadata? store m backing = some metadata) (kind : String) :
    ∃ d lent, store.member? m = some d ∧ store.member? backing = some lent ∧
      (metadata.has kind = true ↔ ∃ a ∈ d.annotations ++ lent.annotations, a.kind = kind) := by
  obtain ⟨own, hown, h⟩ := Option.bind_eq_some_iff.1 h
  obtain ⟨d, owner, hd, rfl⟩ := metadata?_member_eq_some hown
  by_cases heq : backing = m
  · rw [if_pos heq] at h
    cases h
    subst heq
    refine ⟨d, d, hd, hd, ?_⟩
    rw [Metadata.has_ofAnnotations]
    simp only [List.mem_append, or_self]
  · rw [if_neg heq] at h
    obtain ⟨other, hother, h⟩ := Option.bind_eq_some_iff.1 h
    obtain ⟨lent, lentOwner, hlent, rfl⟩ := metadata?_member_eq_some hother
    cases h
    refine ⟨d, lent, hd, hlent, ?_⟩
    rw [Metadata.has_update, Metadata.has_ofAnnotations]
    simp only [Metadata.mem_annotations_ofAnnotations, true_and, List.mem_append, or_and_right,
      exists_or]

/-- The core of a draft is hidden for a reason of the member itself. -/
theorem MemberCore.hidden_iff {origin : Origin} {m : MemberId} {core : MemberCore}
    (h : MemberCore.ofMember? store names proxies origin m = some core) :
    core.hidden = true ↔ store.Hides names m core.backing := by
  obtain ⟨d, hd, -, hmetadata, hqualified, -, hhidden⟩ := MemberCore.ofMember?_eq_some h
  obtain ⟨d', lent, hd', hlent, hhas⟩ := has_backedMetadata? hmetadata names.ignore
  obtain rfl : d = d' := Option.some.inj (hd.symm.trans hd')
  simp only [hhidden, Bool.or_eq_true, hhas, d.mentionsPointer_iff, or_assoc]
  constructor
  · intro hreason
    exact ⟨d, lent, core.qualifiedName, hd, hlent, hqualified, hreason⟩
  · rintro ⟨d', lent', name, hd', hlent', hname, hreason⟩
    obtain rfl : d = d' := Option.some.inj (hd.symm.trans hd')
    obtain rfl : lent = lent' := Option.some.inj (hlent.symm.trans hlent')
    obtain rfl : core.qualifiedName = name := Option.some.inj (hqualified.symm.trans hname)
    exact hreason

/-- An accessor takes over what its property or event is by itself. -/
theorem inheritsHidden?_eq_some {inherited : Bool}
    (h : inheritsHidden? store names proxies slot = some inherited) :
    inherited = true ↔ ∃ o core, slot.accessorOf = some o ∧
      MemberCore.ofMember? store names proxies slot.origin o = some core ∧
      core.hidden = true := by
  unfold inheritsHidden? at h
  cases haccessor : slot.accessorOf with
  | none =>
    rw [haccessor] at h
    cases h
    refine ⟨nofun, ?_⟩
    rintro ⟨o, core, ho, -⟩
    cases ho
  | some o =>
    rw [haccessor] at h
    obtain ⟨core, hcore, rfl⟩ := Option.map_eq_some_iff.1 h
    constructor
    · intro hhidden
      exact ⟨o, core, rfl, hcore, hhidden⟩
    · rintro ⟨o', core', ho', hcore', hhidden⟩
      cases ho'
      rw [hcore] at hcore'
      cases hcore'
      exact hhidden

theorem MemberDetails.accessorOf_ofDecl {accessorOf : Option MemberId} {m : MemberId}
    {d : MemberDecl} {details : MemberDetails} (h : ofDecl accessorOf m d = some details)
    (hmethod : ∀ o, accessorOf = some o → m.kind = .method) : details.accessorOf = accessorOf := by
  cases accessorOf with
  | none => cases m <;> cases d <;> cases h <;> rfl
  | some o =>
    have hkind : m.kind = .method := hmethod o rfl
    cases m with
    | method id =>
      cases d <;> cases h
      rfl
    | _ => cases hkind

@[simp] theorem MemberDetails.accessorOf_withOverloadIndex (details : MemberDetails)
    (index : Option Nat) : (details.withOverloadIndex index).accessorOf = details.accessorOf := by
  cases details <;> rfl

end Hidden

/-! ## The cascade -/

namespace TypeRecord

/-- A kind is present among the annotations of a type and those of its proxies: some proxy lends it
and none after it replaces what was there, or the type has it and no proxy replaces anything. -/
def Lends (t : TypeDecl) (proxies : List Proxy) (kind : String) : Prop :=
  (∃ before p after, proxies = before ++ p :: after ∧
    (∃ a ∈ p.metadata.annotations, a.kind = kind) ∧ ∀ q ∈ after, q.replacesMetadata = false) ∨
  ((∃ a ∈ t.annotations, a.kind = kind) ∧ ∀ q ∈ proxies, q.replacesMetadata = false)

/-- The last proxy lends its metadata last. -/
theorem mergedMetadata_append (t : TypeDecl) (proxies : List Proxy) (p : Proxy) :
    mergedMetadata t (proxies ++ [p]) =
      (mergedMetadata t proxies).update p.metadata p.replacesMetadata :=
  List.foldl_append

/-- A kind is present in merged metadata exactly if the type or some proxy lends it. -/
theorem has_mergedMetadata (t : TypeDecl) (proxies : List Proxy) (kind : String) :
    (mergedMetadata t proxies).has kind = true ↔ Lends t proxies kind := by
  induction proxies using List.reverseRecOn with
  | nil =>
    have hempty : Lends t [] kind ↔ ∃ a ∈ t.annotations, a.kind = kind := by simp [Lends]
    rw [hempty]
    exact Metadata.has_ofAnnotations t.fullName kind t.annotations
  | append_singleton proxies p ih =>
    rw [mergedMetadata_append, Metadata.has_update, ih]
    constructor
    · rintro (⟨hkeeps, ⟨before, q, after, rfl, hq, hafter⟩ | ⟨ht, hall⟩⟩ | hp)
      · refine .inl ⟨before, q, after ++ [p], by simp, hq, ?_⟩
        simpa [or_imp, forall_and] using ⟨hafter, hkeeps⟩
      · refine .inr ⟨ht, ?_⟩
        simpa [or_imp, forall_and] using ⟨hall, hkeeps⟩
      · exact .inl ⟨proxies, p, [], rfl, hp, by simp⟩
    · rintro (⟨before, q, after, heq, hq, hafter⟩ | ⟨ht, hall⟩)
      · rcases List.eq_nil_or_concat after with rfl | ⟨after, last, rfl⟩
        · obtain ⟨-, rfl⟩ := List.append_singleton_inj.1 heq
          exact .inr hq
        · have heq : proxies ++ [p] = (before ++ q :: after) ++ [last] := by simpa using heq
          obtain ⟨rfl, rfl⟩ := List.append_singleton_inj.1 heq
          refine .inl ⟨hafter p (by simp), .inl ⟨before, q, after, rfl, hq, ?_⟩⟩
          exact fun q' hq' => hafter q' (by simp [hq'])
      · refine .inl ⟨hall p (by simp), .inr ⟨ht, ?_⟩⟩
        exact fun q hq => hall q (by simp [hq])

/-! ## Members as they come out of their slots -/

section Finished

variable {store : Store} {names : Vocabulary} {id : TypeId} {proxies : List Proxy}
  {typeIgnored : Bool} {overloads : Overloads} {slot : Slot} {draft : MemberDraft} {x : Member}

/-- Whether a member is hidden by itself is settled when its draft is made. -/
theorem hiddenByItself_iff_of_finish
    (hdraft : MemberDraft.ofSlot? store names proxies slot = some draft)
    (hx : finishMember names id typeIgnored overloads draft = .ok x) :
    x.HiddenByItself store names ↔ ∃ core,
      MemberCore.ofMember? store names proxies slot.origin slot.member = some core ∧
      core.hidden = true := by
  obtain ⟨inherited, d, -, -, hmember, hcore, -, -⟩ := MemberDraft.ofSlot?_eq_some hdraft
  obtain ⟨visible, -, rfl⟩ := finishMember_eq_ok hx
  constructor
  · rintro ⟨m, backing, hm, hbacking, hhides⟩
    obtain rfl : draft.member = m := DeclId.member.inj hm
    obtain rfl : draft.core.backing = backing := DeclId.member.inj hbacking
    rw [hmember] at hhides
    exact ⟨draft.core, hcore, (MemberCore.hidden_iff hcore).2 hhides⟩
  · rintro ⟨core, hcore', hhidden⟩
    obtain rfl : draft.core = core := Option.some.inj (hcore.symm.trans hcore')
    refine ⟨draft.member, draft.core.backing, rfl, rfl, ?_⟩
    rw [hmember]
    exact (MemberCore.hidden_iff hcore).1 hhidden

/-- A draft is ignored by itself or together with what it was reached through. -/
theorem draft_ignored_iff_of_finish
    (hdraft : MemberDraft.ofSlot? store names proxies slot = some draft)
    (hx : finishMember names id typeIgnored overloads draft = .ok x) :
    draft.ignored = true ↔ x.HiddenByItself store names ∨
      ∃ o core, slot.accessorOf = some o ∧
        MemberCore.ofMember? store names proxies slot.origin o = some core ∧
        core.hidden = true := by
  rw [hiddenByItself_iff_of_finish hdraft hx]
  obtain ⟨inherited, d, hinherited, -, -, hcore, -, hignored⟩ :=
    MemberDraft.ofSlot?_eq_some hdraft
  rw [← inheritsHidden?_eq_some hinherited]
  have hown : (∃ core, MemberCore.ofMember? store names proxies slot.origin slot.member =
      some core ∧ core.hidden = true) ↔ draft.core.hidden = true := by
    simp only [hcore, Option.some.injEq, exists_eq_left']
  rw [hown, hignored, Bool.or_eq_true]

theorem accessorOf_of_finish (hdraft : MemberDraft.ofSlot? store names proxies slot = some draft)
    (hx : finishMember names id typeIgnored overloads draft = .ok x)
    {slots : List (Identifier × Slot)} (hlinked : Roster.Linked store slots slot) :
    x.details.accessorOf = slot.accessorOf := by
  obtain ⟨inherited, d, -, -, -, -, hdetails, -⟩ := MemberDraft.ofSlot?_eq_some hdraft
  obtain ⟨visible, -, rfl⟩ := finishMember_eq_ok hx
  show (draft.details.withOverloadIndex _).accessorOf = _
  rw [MemberDetails.accessorOf_withOverloadIndex]
  refine MemberDetails.accessorOf_ofDecl hdetails fun o ho => ?_
  obtain ⟨-, d, -, a, -, hmethod⟩ := hlinked o ho
  rw [hmethod]
  rfl

end Finished

/-- What has accessors is a property or an event. -/
theorem kind_of_accessor {store : Store} {o : MemberId} {d : MemberDecl} {a : MethodId}
    (hd : store.member? o = some d) (ha : a ∈ d.accessors) :
    o.kind = .property ∨ o.kind = .event := by
  cases o with
  | property id => exact .inl rfl
  | event id => exact .inr rfl
  | method id =>
    rw [Roster.not_accessor_of_method hd] at ha
    exact absurd ha List.not_mem_nil
  | field id =>
    obtain ⟨e, -, rfl⟩ := Option.map_eq_some_iff.1 hd
    exact absurd ha List.not_mem_nil

/-! ## The cascade as a whole -/

variable {store : Store} {names : Vocabulary} {id : TypeId} {r : TypeRecord}

/-- A type is ignored for its module, for its name or for its metadata. -/
theorem type_ignored_iff_of_build (h : build store names id = .ok r) :
    ∃ t module, store.type? id = some t ∧ store.module? t.module = some module ∧
      r.metadata = mergedMetadata t r.proxies ∧
      (r.ignored = true ↔
        (isHiddenName module.name = true ∨ ∃ a ∈ module.annotations, a.kind = names.ignore) ∨
        isHiddenName t.fullName = true ∨ r.metadata.has names.ignore = true) := by
  obtain ⟨t, moduleRecord, outline, ht, hmodule, -, -, hfinish⟩ := build_eq_ok h
  obtain ⟨d, hd, hmodule⟩ := Option.bind_eq_some_iff.1 hmodule
  cases hmodule
  obtain ⟨visible, -, -, hr⟩ := finish_eq_ok hfinish
  refine ⟨t, d, ht, hd, by rw [hr], ?_⟩
  rw [hr]
  simp only [Bool.or_eq_true, Metadata.has_ofAnnotations, or_assoc]

/-- Whether a draft is ignored can be told from the finished record: the property or event that a
method was reached through is a member of it as well. -/
theorem draft_ignored_iff_concealed {t : TypeDecl} {roster : Roster}
    {drafts : IdentifierMap MemberDraft}
    (hroster : Roster.build? store t r.proxies = some roster)
    (htabulated : ∀ p ∈ r.proxies, Roster.Tabulated store p)
    (hdrafts : roster.Replaces (fun slot draft =>
      MemberDraft.ofSlot? store names r.proxies slot = some draft) drafts)
    (hmembers : drafts.Replaces (fun draft m =>
      finishMember names id r.ignored (.ofDrafts t drafts) draft = .ok m) r.members)
    {entry : Identifier × Slot} (hentry : entry ∈ roster.entries) {draft : MemberDraft}
    (hdraft : MemberDraft.ofSlot? store names r.proxies entry.2 = some draft) {x : Member}
    (hfinish : finishMember names id r.ignored (.ofDrafts t drafts) draft = .ok x) :
    draft.ignored = true ↔ x.Concealed store names r := by
  have hall := (hdrafts.trans hmembers).entries
  have hlinked := Roster.owner_of_build? hroster htabulated hentry
  unfold Member.Concealed
  rw [draft_ignored_iff_of_finish hdraft hfinish, accessorOf_of_finish hdraft hfinish hlinked,
    kind_of_finish hdraft hfinish]
  refine or_congr_right ⟨?_, ?_⟩
  · rintro ⟨o, core, ho, hcore, hhidden⟩
    obtain ⟨⟨owner, howner, heq⟩, d, hd, a, ha, hmethod⟩ := hlinked o ho
    obtain ⟨y, hy, -, ownerDraft, hownerDraft, hownerFinish⟩ := exists_of_mem_left hall howner
    have hmember : owner.2.member = o := by rw [heq]
    refine ⟨by rw [hmethod]; rfl, y.2, List.mem_map_of_mem hy, ?_, ?_, ?_⟩
    · rw [ho, (fills_of_finish hownerDraft hownerFinish).decl_eq, hmember]
      rfl
    · rw [kind_of_finish hownerDraft hownerFinish, hmember]
      exact kind_of_accessor hd ha
    · rw [hiddenByItself_iff_of_finish hownerDraft hownerFinish, heq]
      exact ⟨core, hcore, hhidden⟩
  · rintro ⟨-, y, hy, hdecl, -, hhidden⟩
    obtain ⟨e', he', rfl⟩ := List.mem_map.1 hy
    obtain ⟨owner, howner, -, ownerDraft, hownerDraft, hownerFinish⟩ := exists_of_mem_right hall he'
    obtain ⟨o, ho, hmap⟩ := Option.map_eq_some_iff.1 hdecl
    rw [(fills_of_finish hownerDraft hownerFinish).decl_eq] at hmap
    obtain rfl : o = owner.2.member := DeclId.member.inj hmap
    -- The owner may have several slots, but all of them have the origin of the accessor.
    obtain ⟨⟨first, hfirst, heq⟩, -⟩ := hlinked _ ho
    have horigin : owner.2.origin = entry.2.origin := by
      have hsame := Roster.origin_eq_of_build? hroster htabulated howner hfirst (by rw [heq])
      rw [hsame, heq]
    obtain ⟨core, hcore, hhidden⟩ :=
      (hiddenByItself_iff_of_finish hownerDraft hownerFinish).1 hhidden
    rw [horigin] at hcore
    exact ⟨owner.2.member, core, ho, hcore, hhidden⟩

/-- A member is ignored with its type or if it is concealed. -/
theorem member_ignored_iff_of_build (h : build store names id = .ok r) {x : Member}
    (hx : x ∈ r.members.values) :
    x.ignored = true ↔ r.ignored = true ∨ x.Concealed store names r := by
  obtain ⟨t, roster, drafts, ht, hproxies, hroster, hdrafts, hmembers⟩ := roster_of_build h
  have htabulated := Proxy.tabulated_of_proxiesOf ht hproxies
  obtain ⟨e, he, rfl⟩ := List.mem_map.1 hx
  obtain ⟨entry, hentry, -, draft, hdraft, hfinish⟩ :=
    exists_of_mem_right (hdrafts.trans hmembers).entries he
  rw [← draft_ignored_iff_concealed hroster htabulated hdrafts hmembers hentry hdraft hfinish]
  obtain ⟨visible, -, hfinished⟩ := finishMember_eq_ok hfinish
  rw [hfinished, Bool.or_eq_true, or_comm]

/-- A type is ignored with its module, by its name, or by an annotation that is present once all
proxies are merged. A member is ignored with its type, by itself, or, if it is a method, with the
property or event that it was reached through and that is hidden by itself. -/
theorem ignored_iff_of_build (h : build store names id = .ok r) :
    ∃ t module, store.type? id = some t ∧ store.module? t.module = some module ∧
      r.metadata = mergedMetadata t r.proxies ∧
      (r.metadata.has names.ignore = true ↔ Lends t r.proxies names.ignore) ∧
      (r.ignored = true ↔
        (isHiddenName module.name = true ∨ ∃ a ∈ module.annotations, a.kind = names.ignore) ∨
        isHiddenName t.fullName = true ∨ r.metadata.has names.ignore = true) ∧
      ∀ x ∈ r.members.values, (x.ignored = true ↔
        r.ignored = true ∨ x.HiddenByItself store names ∨
        (x.kind = .method ∧ ∃ o ∈ r.members.values,
          x.details.accessorOf.map DeclId.member = some o.decl ∧
          (o.kind = .property ∨ o.kind = .event) ∧ o.HiddenByItself store names)) := by
  obtain ⟨t, module, ht, hmodule, hmetadata, hignored⟩ := type_ignored_iff_of_build h
  refine ⟨t, module, ht, hmodule, hmetadata, ?_, hignored, ?_⟩
  · rw [hmetadata]
    exact has_mergedMetadata t r.proxies names.ignore
  · exact fun x hx => member_ignored_iff_of_build h hx

/-- A store with a type that lists a property with an unmanaged pointer, the getter of the property
and another method. -/
def pointerStore : Store where
  modules := #[{ name := "app.dll" }]
  types := #[
    { module := ⟨0⟩, scope := "", name := "Main", fullName := "Main", kind := .classType
      properties := [⟨0⟩], methods := [⟨0⟩, ⟨1⟩] }]
  properties := #[
    { owner := ⟨0⟩, name := "Head", type := .pointer (.plain "System.Byte"),
      getter := some ⟨0⟩ }]
  methods := #[
    { owner := ⟨0⟩, name := "get_Head", returns := .plain "System.IntPtr" },
    { owner := ⟨0⟩, name := "Run" }]

/-- A getter that has no reason of its own is ignored with the property that mentions a pointer. -/
theorem ignored_property_takes_its_getter_along :
    ∃ r getter, build pointerStore {} ⟨0⟩ = .ok r ∧
      r.members.values.map Member.ignored = [true, true, false] ∧
      getter ∈ r.members.values ∧ getter.decl = .member (.method ⟨0⟩) ∧
      (r.ignored = true ∨ getter.HiddenByItself pointerStore {} ∨
        (getter.kind = .method ∧ ∃ o ∈ r.members.values,
          getter.details.accessorOf.map DeclId.member = some o.decl ∧
          (o.kind = .property ∨ o.kind = .event) ∧ o.HiddenByItself pointerStore {})) := by
  refine ⟨_, _, rfl, rfl, .tail _ (.head _), rfl, ?_⟩
  obtain ⟨t, module, -, -, -, -, -, hmembers⟩ :=
    ignored_iff_of_build (rfl : build pointerStore {} ⟨0⟩ = .ok _)
  exact (hmembers _ (.tail _ (.head _))).1 rfl

end TypeRecord

end TypeModel
