import TypeModel.Proofs.ProxyLookup
import TypeModel.Proofs.Skeleton

/-!
# A type is affected only by the proxies that name it

Two stores that agree except for what one type is annotated with and which members it lists are told
apart by no other type that this one does not name as a target (`Catalog.answers_agree`). The index
is made by a scan over all types, that one included, and its members stay in the store; so it has to
be shown of each read that it passes the type by or reads what has not changed: names and kind.
-/

namespace TypeModel

/-- Two stores agree except for the annotations and the member lists of one type. -/
structure Store.AgreeExcept (p : TypeId) (s s' : Store) : Prop where
  modules : s.modules = s'.modules
  fields : s.fields = s'.fields
  properties : s.properties = s'.properties
  events : s.events = s'.events
  methods : s.methods = s'.methods
  size : s.types.size = s'.types.size
  bare : (s.type? p).map TypeDecl.bare = (s'.type? p).map TypeDecl.bare
  other : ∀ id, id ≠ p → s.type? id = s'.type? id

/-- Changing what a type is annotated with and which members it lists leaves all else as it is. -/
theorem Store.agreeExcept_updateType (s : Store) (p : TypeId) {change : TypeDecl → TypeDecl}
    (hchange : ∀ t, (change t).bare = t.bare) : s.AgreeExcept p (s.updateType p change) where
  modules := rfl
  fields := rfl
  properties := rfl
  events := rfl
  methods := rfl
  size := (Array.size_modify).symm
  bare := by
    unfold Store.type? Store.updateType
    rw [Array.getElem?_modify, if_pos rfl, Option.map_map]
    exact congrArg (fun f => Option.map f _) (funext fun t => (hchange t).symm)
  other id hid := by
    have hindex : p.index ≠ id.index := by
      rintro heq
      exact hid (by cases id; cases p; cases heq; rfl)
    unfold Store.type? Store.updateType
    rw [Array.getElem?_modify, if_neg hindex]

namespace Store.AgreeExcept

variable {p : TypeId} {s s' : Store}

/-! ## Reads of the store -/

section Reads

theorem member? (h : AgreeExcept p s s') : s.member? = s'.member? := by
  funext m
  cases m with
  | field id => rw [Store.member?, Store.member?, Store.field?, Store.field?, h.fields]
  | property id => rw [Store.member?, Store.member?, Store.property?, Store.property?, h.properties]
  | event id => rw [Store.member?, Store.member?, Store.event?, Store.event?, h.events]
  | method id => rw [Store.member?, Store.member?, Store.method?, Store.method?, h.methods]

theorem module? (h : AgreeExcept p s s') : s.module? = s'.module? := by
  funext id
  unfold Store.module?
  rw [h.modules]

/-- The bare declaration of every type is the same. -/
theorem bare_type? (h : AgreeExcept p s s') (id : TypeId) :
    (s.type? id).map TypeDecl.bare = (s'.type? id).map TypeDecl.bare := by
  by_cases hid : id = p
  · rw [hid]
    exact h.bare
  · rw [h.other id hid]

/-- The stores differ in annotations and lists of one type only, which skeletons leave out. -/
theorem skeleton (h : AgreeExcept p s s') : s.skeleton = s'.skeleton := by
  apply skeleton_of_decl?
  intro id
  unfold Store.decl?
  cases id with
  | module id => rw [h.module?]
  | type id =>
    rw [Option.map_map, Option.map_map]
    have hbare := congrArg (Option.map Decl.type) (h.bare_type? id)
    rw [Option.map_map, Option.map_map] at hbare
    exact hbare
  | member m => rw [h.member?]

theorem metadata? (h : AgreeExcept p s s') (m : MemberId) :
    s.metadata? (.member m) = s'.metadata? (.member m) := by
  unfold Store.metadata? Store.decl? Store.qualifiedName?
  simp only [h.member?, eq_of_skeleton qualifiedMemberName?_skeleton h.skeleton]

end Reads

/-! ## Records -/

section Records

variable {names : Vocabulary}

theorem memberDraft (h : AgreeExcept p s s') :
    MemberDraft.ofSlot? s names = MemberDraft.ofSlot? s' names := by
  have hmetadata : backedMetadata? s = backedMetadata? s' := by
    funext m backing
    unfold backedMetadata?
    rw [h.metadata? m, h.metadata? backing]
  have hcore : MemberCore.ofMember? s names = MemberCore.ofMember? s' names := by
    funext proxies origin m
    unfold MemberCore.ofMember? backing?
    rw [h.member?, hmetadata, eq_of_skeleton resolve?_skeleton h.skeleton,
      eq_of_skeleton qualifiedMemberName?_skeleton h.skeleton,
      eq_of_skeleton declaredMemberName?_skeleton h.skeleton]
  funext proxies slot
  unfold MemberDraft.ofSlot? inheritsHidden?
  rw [hcore, h.member?]

/-- From the same declaration of a type and the same proxies, records come out the same. -/
theorem assemble (h : AgreeExcept p s s') :
    TypeRecord.assemble s names = TypeRecord.assemble s' names := by
  funext moduleIgnored proxies id t
  unfold TypeRecord.assemble TypeRecord.outline?
  rw [h.memberDraft, eq_of_skeleton roster_skeleton h.skeleton,
    eq_of_skeleton literals_skeleton h.skeleton]

theorem moduleRecord (h : AgreeExcept p s s') :
    ModuleRecord.build? s names = ModuleRecord.build? s' names := by
  funext id
  unfold ModuleRecord.build?
  rw [h.module?]

/-- Other types are the same proxies. -/
theorem proxy (h : AgreeExcept p s s') {q : TypeId} (hq : q ≠ p) :
    Proxy.build s names q = Proxy.build s' names q := by
  unfold Proxy.build
  rw [h.other q hq, eq_of_skeleton keyed?_skeleton h.skeleton]

end Records

/-! ## The index -/

section Index

variable {names : Vocabulary} {fullName : String}

/-- The same types are marked for a name, if the one that may differ is not marked for it. -/
theorem typesMarkedFor (h : AgreeExcept p s s') (hs : s.marksFor names fullName p = false)
    (hs' : s'.marksFor names fullName p = false) :
    s.typesMarkedFor names fullName = s'.typesMarkedFor names fullName := by
  have hmarks : s.marksFor names fullName = s'.marksFor names fullName := by
    funext id
    by_cases hid : id = p
    · rw [hid, hs, hs']
    · unfold Store.marksFor
      rw [h.other id hid]
  unfold Store.typesMarkedFor
  rw [eq_of_skeleton typeIds_skeleton h.skeleton, hmarks]

variable {id : TypeId} {t : TypeDecl}

/-- A type that the differing one does not target has the same proxies. -/
theorem proxiesOf (h : AgreeExcept p s s') (hid : id ≠ p) (ht : s.type? id = some t)
    (hs : s.marksFor names t.fullName p = false) (hs' : s'.marksFor names t.fullName p = false) :
    s.proxiesOf names id = s'.proxiesOf names id := by
  have ht' : s'.type? id = some t := (h.other id hid).symm.trans ht
  rw [Store.proxiesOf_eq ht, Store.proxiesOf_eq ht', ← h.typesMarkedFor hs hs']
  refine except_mapM_congr fun q hq => h.proxy ?_
  rintro rfl
  obtain ⟨-, hmarks⟩ := List.mem_filter.1 hq
  rw [hs] at hmarks
  cases hmarks

/-- A type that the differing one does not target has the same record. -/
theorem build (h : AgreeExcept p s s') (hid : id ≠ p) (ht : s.type? id = some t)
    (hs : s.marksFor names t.fullName p = false) (hs' : s'.marksFor names t.fullName p = false) :
    TypeRecord.build s names id = TypeRecord.build s' names id := by
  unfold TypeRecord.build
  rw [h.other id hid, h.moduleRecord, h.proxiesOf hid ht hs hs', h.assemble]

end Index

end Store.AgreeExcept

namespace Catalog

/-- What is attached to a type and which members it lists has no bearing on the record and the
proxies of another type that it does not name as a target, whatever else was asked before. -/
theorem answers_agree (names : Vocabulary) {p id : TypeId} {s s' : Store} {t : TypeDecl}
    (h : s.AgreeExcept p s') (hid : id ≠ p) (ht : s.type? id = some t)
    (hs : ∀ u, s.type? p = some u → ¬u.MarksFor names t.fullName)
    (hs' : ∀ u, s'.type? p = some u → ¬u.MarksFor names t.fullName) (before : List Request) :
    (after s names before).answer (.type id) = (after s' names before).answer (.type id) ∧
      (after s names before).answer (.proxies id) =
        (after s' names before).answer (.proxies id) := by
  have hs := Store.marksFor_eq_false.2 hs
  have hs' := Store.marksFor_eq_false.2 hs'
  constructor
  · rw [answer_type_after, answer_type_after, h.build hid ht hs hs']
  · rw [answer_after, answer_after, Request.expected, Request.expected,
      h.proxiesOf hid ht hs hs']

/-- Breaking the marker of one proxy changes nothing for a type that it does not target. -/
theorem broken_marker_elsewhere_changes_nothing :
    let s := markedStore.updateType ⟨2⟩ fun t => { t with
      fields := [⟨7⟩]
      annotations := [
        { kind := "Xlate.Meta.ProxyAttribute", args := [.bool true, .str "Other"] },
        { kind := "Xlate.Meta.ProxyAttribute", args := [.str "Twice"] }] }
    (after markedStore {} [.everything]).answer (.type ⟨0⟩) =
      (after s {} [.everything]).answer (.type ⟨0⟩) := by
  intro s
  have hagree : markedStore.AgreeExcept ⟨2⟩ s := markedStore.agreeExcept_updateType ⟨2⟩ fun _ => rfl
  exact (answers_agree {} hagree (by decide) rfl (by rintro u ⟨⟩; decide) (by rintro u ⟨⟩; decide)
    [.everything]).1

end Catalog

end TypeModel
