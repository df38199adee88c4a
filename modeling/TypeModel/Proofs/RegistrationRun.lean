import Mathlib.Data.List.Induction
import TypeModel.Proofs.Skeleton
import TypeModel.Proofs.Traversal

/-!
# Runs of registrations

What a registration brings about can be told from it and from the number of declarations before it.
It needs the declaration that it adds to (`Store.exists_register?_iff`), it hands out the next
handle of its kind (`Store.handedOut?_eq`), puts one declaration behind that handle and leaves all
others as they are, but for annotations and lists of members (`Store.decl?_skeleton_register?`). A
run of registrations succeeds exactly if each of them adds to something that one before it has
introduced (`Store.exists_registerAll?_iff_grounded`).
-/

namespace TypeModel

/-! ## Handles by kind and position -/

/-- The handle of a declaration of a kind at a position. -/
def DeclKind.handle : DeclKind → Nat → DeclId
  | .module, i => .module ⟨i⟩
  | .type, i => .type ⟨i⟩
  | .field, i => .member (.field ⟨i⟩)
  | .property, i => .member (.property ⟨i⟩)
  | .event, i => .member (.event ⟨i⟩)
  | .method, i => .member (.method ⟨i⟩)

def MemberId.index : MemberId → Nat
  | .field id => id.index
  | .property id => id.index
  | .event id => id.index
  | .method id => id.index

/-- The position of a declaration among those of its kind. -/
def DeclId.index : DeclId → Nat
  | .module id => id.index
  | .type id => id.index
  | .member m => m.index

@[simp] theorem DeclKind.kind_handle (kind : DeclKind) (i : Nat) : (kind.handle i).kind = kind := by
  cases kind <;> rfl

@[simp] theorem DeclKind.index_handle (kind : DeclKind) (i : Nat) :
    (kind.handle i).index = i := by
  cases kind <;> rfl

/-! ## What a registration introduces -/

namespace Registration

/-- The kind of declaration that a registration introduces; an annotation introduces none. -/
def kind? : Registration → Option DeclKind
  | .module _ => some .module
  | .type .. => some .type
  | .nestedType .. => some .type
  | .member d => some d.kind.declKind
  | .annotate .. => none

/-- The declaration that a registration adds to. -/
def receiver? : Registration → Option DeclId
  | .module _ => none
  | .type .. => none
  | .nestedType outer .. => some (.type outer)
  | .member d => some (.type d.owner)
  | .annotate target _ => some target

/-- How many registrations introduce a declaration of a kind. -/
def countOf (kind : DeclKind) (registrations : List Registration) : Nat :=
  registrations.countP fun r => r.kind? = some kind

/-- Each registration adds to a declaration that one before it introduces. -/
def Grounded (registrations : List Registration) : Prop :=
  ∀ before r after, registrations = before ++ r :: after →
    ∀ id ∈ r.receiver?, id.index < countOf id.kind before

end Registration

namespace Store

/-- How many declarations of a kind a store holds. -/
def count (s : Store) : DeclKind → Nat
  | .module => s.modules.size
  | .type => s.types.size
  | .field => s.fields.size
  | .property => s.properties.size
  | .event => s.events.size
  | .method => s.methods.size

/-- The handle that a registration hands out, if it introduces a declaration. -/
def handedOut? (s : Store) : Registration → Option DeclId
  | .module name => some (.module (s.addModule name).2)
  | .type module scope name kind => some (.type (s.addType module scope name kind).2)
  | .nestedType outer name kind => (s.addNestedType? outer name kind).map fun a => .type a.2
  | .member d => (s.addMember? d).map fun a => .member a.2
  | .annotate .. => none

/-- The type that a registration introduces. -/
def introducedType? (s : Store) : Registration → Option TypeDecl
  | .type module scope name kind =>
    some { module, scope, name, fullName := topLevelName scope name, kind }
  | .nestedType outer name kind => (s.type? outer).map fun t =>
    { module := t.module, scope := t.scope, name, fullName := nestedName t.fullName name, kind,
      outer := some outer }
  | _ => none

/-- The declaration that a registration introduces. -/
def introduced? (s : Store) : Registration → Option Decl
  | .module name => some (.module { name })
  | .member d => some (.member d)
  | r => (s.introducedType? r).map .type

variable {s s' : Store} {r : Registration}

/-- The handles of a kind that lead somewhere are those below the count. -/
theorem has_iff_index_lt {id : DeclId} : s.Has id ↔ id.index < s.count id.kind := by
  unfold Has
  rw [← Option.isSome_iff_exists]
  rcases id with id | id | (id | id | id | id) <;>
    simp [decl?, member?, module?, type?, field?, property?, event?, method?, DeclId.index,
      MemberId.index, DeclId.kind, MemberId.kind, MemberKind.declKind, count]

/-- The next member of a kind gets the count as its position. -/
theorem nextMember_eq (s : Store) (d : MemberDecl) :
    DeclId.member (s.nextMember d) = d.kind.declKind.handle (s.count d.kind.declKind) := by
  cases d <;> rfl

/-! ## One registration -/

section Register

theorem count_updateType (s : Store) (id : TypeId) (change : TypeDecl → TypeDecl)
    (kind : DeclKind) : (s.updateType id change).count kind = s.count kind := by
  cases kind <;> simp [count, updateType]

theorem count_annotate? {target : DeclId} {a : Annotation} (h : s.annotate? target a = some s')
    (kind : DeclKind) : s'.count kind = s.count kind := by
  obtain ⟨d, -, h⟩ := Option.bind_eq_some_iff.1 h
  obtain rfl := Option.some.inj h
  rcases target with id | id | (id | id | id | id)
  case type => exact count_updateType s id _ kind
  all_goals cases kind <;> simp [count]

/-- A registration counts for its own kind only. -/
theorem count_register? (hr : s.register? r = some s') (kind : DeclKind) :
    s'.count kind = s.count kind + if r.kind? = some kind then 1 else 0 := by
  cases r with
  | module name =>
    cases hr
    cases kind <;> simp [count, addModule, Registration.kind?]
  | type module scope name typeKind =>
    cases hr
    cases kind <;> simp [count, addType, pushType, Registration.kind?]
  | nestedType outer name typeKind =>
    obtain ⟨t, -, rfl⟩ := register?_nestedType_eq_some hr
    cases kind <;> simp [count, pushType, Registration.kind?]
  | member d =>
    obtain ⟨t, -, rfl⟩ := register?_member_eq_some hr
    rw [withMember, count_updateType]
    cases d <;> cases kind <;>
      simp [count, pushMember, Registration.kind?, MemberDecl.kind, MemberKind.declKind]
  | annotate target a => simp [count_annotate? hr, Registration.kind?]

/-- A registration succeeds exactly if what it adds to is there. -/
theorem exists_register?_iff :
    (∃ s', s.register? r = some s') ↔ ∀ id ∈ r.receiver?, s.Has id := by
  cases r with
  | module name => simp [register?, Registration.receiver?]
  | type module scope name kind => simp [register?, Registration.receiver?]
  | nestedType outer name kind =>
    cases h : s.type? outer <;>
      simp [register?, addNestedType?, Registration.receiver?, has_type_iff, h]
  | member d =>
    cases h : s.type? d.owner <;>
      simp [register?, addMember?, Registration.receiver?, has_type_iff, h]
  | annotate target a =>
    cases h : s.decl? target <;> simp [register?, annotate?, Registration.receiver?, Has, h]

/-- A registration hands out the next handle of its kind. -/
theorem handedOut?_eq (hr : s.register? r = some s') :
    s.handedOut? r = r.kind?.map fun kind => kind.handle (s.count kind) := by
  cases r with
  | module name => rfl
  | type module scope name kind => rfl
  | nestedType outer name kind =>
    obtain ⟨t, ht, -⟩ := register?_nestedType_eq_some hr
    simp only [handedOut?, addNestedType?, ht]
    rfl
  | member d =>
    obtain ⟨t, ht, -⟩ := register?_member_eq_some hr
    simp only [handedOut?, addMember?, ht]
    exact congrArg some (nextMember_eq s d)
  | annotate target a => rfl

/-- The handle that a registration hands out is a new one. -/
theorem not_has_of_handedOut? (hr : s.register? r = some s') {id : DeclId}
    (h : s.handedOut? r = some id) : ¬s.Has id := by
  rw [handedOut?_eq hr] at h
  obtain ⟨kind, -, rfl⟩ := Option.map_eq_some_iff.1 h
  simp [has_iff_index_lt]

/-- Behind a handle that a registration hands out it introduces a declaration. -/
theorem exists_introduced? (hr : s.register? r = some s') {id : DeclId}
    (h : s.handedOut? r = some id) : ∃ d, s.introduced? r = some d := by
  cases r with
  | module name => exact ⟨_, rfl⟩
  | type module scope name kind => exact ⟨_, rfl⟩
  | nestedType outer name kind =>
    obtain ⟨t, ht⟩ := has_type_iff.1 (exists_register?_iff.1 ⟨s', hr⟩ _ rfl)
    simp [introduced?, introducedType?, ht]
  | member d => exact ⟨_, rfl⟩
  | annotate target a => cases h

/-- A change that keeps the bare type does not show in the skeleton. -/
theorem decl?_skeleton_updateType {id : TypeId} {change : TypeDecl → TypeDecl}
    (h : ∀ t, (change t).bare = t.bare) (id' : DeclId) :
    (s.updateType id change).skeleton.decl? id' = s.skeleton.decl? id' := by
  rw [decl?_skeleton, decl?_skeleton, decl?_updateType]
  split
  · next heq =>
    have hread : s.decl? (.type id) = (s.type? id).map .type := rfl
    rw [heq, hread, Option.map_map, Option.map_map]
    simp only [Function.comp_def, Decl.skeleton, h]
  · rfl

theorem decl?_skeleton_annotate? {target : DeclId} {a : Annotation}
    (h : s.annotate? target a = some s') (id : DeclId) :
    s'.skeleton.decl? id = s.skeleton.decl? id := by
  rw [decl?_skeleton, decl?_skeleton, decl?_annotate? h]
  split
  · next heq =>
    have hsame : ∀ d : Decl, (d.annotate a).skeleton = d.skeleton := by
      rintro (_ | _ | (_ | _ | _ | _)) <;> rfl
    rw [heq, Option.map_map]
    simp only [Function.comp_def, hsame]
  · rfl

/-- A new declaration is written behind the handle that is handed out. -/
theorem decl?_skeleton_of_write {target : DeclId} {d : Decl}
    (hwrite : ∀ id, s'.decl? id = if id = target then some d else s.decl? id)
    (htarget : s.handedOut? r = some target) (hd : s.introduced? r = some d) (id : DeclId) :
    s'.skeleton.decl? id =
      if s.handedOut? r = some id then (s.introduced? r).map Decl.skeleton
      else s.skeleton.decl? id := by
  rw [decl?_skeleton, decl?_skeleton, hwrite, hd]
  simp only [htarget, Option.some.injEq, eq_comm (a := target)]
  split <;> rfl

/-- A registration puts one declaration behind the handle that it hands out. Elsewhere it changes
annotations and lists of members at most. -/
theorem decl?_skeleton_register? (hr : s.register? r = some s') (id : DeclId) :
    s'.skeleton.decl? id =
      if s.handedOut? r = some id then (s.introduced? r).map Decl.skeleton
      else s.skeleton.decl? id := by
  have hhanded := handedOut?_eq hr
  cases r with
  | module name =>
    cases hr
    exact decl?_skeleton_of_write (decl?_addModule s name) rfl rfl id
  | type module scope name kind =>
    cases hr
    exact decl?_skeleton_of_write (decl?_pushType s _) rfl rfl id
  | nestedType outer name kind =>
    obtain ⟨t, ht, rfl⟩ := register?_nestedType_eq_some hr
    refine decl?_skeleton_of_write (decl?_pushType s _) hhanded ?_ id
    simp [introduced?, introducedType?, ht]
  | member d =>
    obtain ⟨t, -, rfl⟩ := register?_member_eq_some hr
    have hbare : ∀ t : TypeDecl, (t.listMember (s.nextMember d)).bare = t.bare := by
      intro t
      cases d <;> rfl
    have hnext : s.handedOut? (.member d) = some (.member (s.nextMember d)) := by
      rw [hhanded, nextMember_eq]
      rfl
    -- Listing the member changes the type only in what its skeleton leaves out.
    rw [withMember, decl?_skeleton_updateType hbare]
    exact decl?_skeleton_of_write (decl?_pushMember s d) hnext rfl id
  | annotate target a => rw [decl?_skeleton_annotate? hr, if_neg nofun]

/-- Behind a new handle of a type, what is introduced is a type. -/
theorem introduced?_of_handedOut? {id : TypeId} (h : s.handedOut? r = some (.type id)) :
    s.introduced? r = (s.introducedType? r).map .type := by
  cases r with
  | module name => cases h
  | type module scope name kind => rfl
  | nestedType outer name kind => rfl
  | member d =>
    obtain ⟨added, -, h⟩ := Option.map_eq_some_iff.1 h
    cases h
  | annotate target a => cases h

/-- The types among what a registration changes in the skeleton. -/
theorem type?_skeleton_register? (hr : s.register? r = some s') (id : TypeId) :
    s'.skeleton.type? id =
      if s.handedOut? r = some (.type id) then (s.introducedType? r).map TypeDecl.bare
      else s.skeleton.type? id := by
  have hinj : Function.Injective (Option.map Decl.type) :=
    Option.map_injective fun _ _ h => Decl.type.inj h
  apply hinj
  have hread := decl?_skeleton_register? hr (.type id)
  simp only [decl?] at hread
  rw [hread]
  split
  · next hnew =>
    rw [introduced?_of_handedOut? hnew, Option.map_map, Option.map_map]
    rfl
  · rfl

/-- What is behind a handle stays there, but for annotations and lists of members. -/
theorem decl?_skeleton_register?_of_eq_some {id : DeclId} {d : Decl}
    (hd : s.skeleton.decl? id = some d) (hr : s.register? r = some s') :
    s'.skeleton.decl? id = some d := by
  have hhas : s.Has id := by
    rw [decl?_skeleton] at hd
    obtain ⟨e, he, -⟩ := Option.map_eq_some_iff.1 hd
    exact ⟨e, he⟩
  rw [decl?_skeleton_register? hr, if_neg fun hnew => not_has_of_handedOut? hr hnew hhas, hd]

end Register

/-! ## Runs -/

section Run

variable {registrations before after : List Registration}

theorem registerAll?_cons (s : Store) (r : Registration) (rest : List Registration) :
    s.registerAll? (r :: rest) = (s.register? r).bind fun s' => s'.registerAll? rest :=
  List.foldlM_cons

/-- A run may be cut anywhere. -/
theorem registerAll?_append (s : Store) (before after : List Registration) :
    s.registerAll? (before ++ after) =
      (s.registerAll? before).bind fun s' => s'.registerAll? after :=
  List.foldlM_append

/-- A run stops between two registrations with the store that the first of them led to. -/
theorem registerAll?_append_cons_eq_some (h : s.registerAll? (before ++ r :: after) = some s') :
    ∃ s₁ s₂, s.registerAll? before = some s₁ ∧ s₁.register? r = some s₂ ∧
      s₂.registerAll? after = some s' := by
  rw [registerAll?_append] at h
  obtain ⟨s₁, hbefore, h⟩ := Option.bind_eq_some_iff.1 h
  rw [registerAll?_cons] at h
  obtain ⟨s₂, hr, hafter⟩ := Option.bind_eq_some_iff.1 h
  exact ⟨s₁, s₂, hbefore, hr, hafter⟩

/-- When a run is cut before a registration, that one succeeds at the cut and the rest after it. -/
theorem exists_register?_of_registerAll? {s₁ : Store}
    (h : s.registerAll? (before ++ r :: after) = some s') (hs₁ : s.registerAll? before = some s₁) :
    ∃ s₂, s₁.register? r = some s₂ ∧ s₂.registerAll? after = some s' := by
  obtain ⟨s₁', s₂, hs₁', hr, hafter⟩ := registerAll?_append_cons_eq_some h
  obtain rfl : s₁ = s₁' := Option.some.inj (hs₁.symm.trans hs₁')
  exact ⟨s₂, hr, hafter⟩

/-- A run counts its registrations of each kind. -/
theorem count_registerAll? (h : s.registerAll? registrations = some s') (kind : DeclKind) :
    s'.count kind = s.count kind + Registration.countOf kind registrations := by
  induction registrations generalizing s with
  | nil =>
    cases h
    rfl
  | cons r rest ih =>
    rw [registerAll?_cons] at h
    obtain ⟨s₁, hr, h⟩ := Option.bind_eq_some_iff.1 h
    rw [ih h, count_register? hr, Registration.countOf, Registration.countOf, List.countP_cons]
    simp only [decide_eq_true_eq]
    omega

/-- A store holds what the registrations have introduced. -/
theorem count_eq_countOf (h : registerAll? {} registrations = some s) (kind : DeclKind) :
    s.count kind = Registration.countOf kind registrations := by
  have hempty : count {} kind = 0 := by cases kind <;> rfl
  rw [count_registerAll? h, hempty, Nat.zero_add]

/-- Behind a handle that leads somewhere, no run changes the skeleton. -/
theorem decl?_skeleton_registerAll? {id : DeclId} {d : Decl} (hd : s.skeleton.decl? id = some d)
    (h : s.registerAll? registrations = some s') : s'.skeleton.decl? id = some d :=
  option_foldlM_induct (P := fun c => c.skeleton.decl? id = some d) h hd
    fun _ _ _ _ hc hr => decl?_skeleton_register?_of_eq_some hc hr

/-- A run over the empty store succeeds exactly if each registration adds to what is introduced
before it. -/
theorem exists_registerAll?_iff_grounded :
    (∃ s, registerAll? {} registrations = some s) ↔ Registration.Grounded registrations := by
  constructor
  · rintro ⟨s, hs⟩ before r after rfl id hid
    obtain ⟨s₁, s₂, hbefore, hr, -⟩ := registerAll?_append_cons_eq_some hs
    have hhas := exists_register?_iff.1 ⟨s₂, hr⟩ id hid
    rwa [has_iff_index_lt, count_eq_countOf hbefore] at hhas
  · intro h
    -- The last registration adds to what those before it have introduced.
    induction registrations using List.reverseRecOn with
    | nil => exact ⟨{}, rfl⟩
    | append_singleton before r ih =>
      obtain ⟨s₁, hs₁⟩ := ih fun before' r' after' heq =>
        h before' r' (after' ++ [r]) (by rw [heq, List.append_assoc]; rfl)
      obtain ⟨s₂, hs₂⟩ : ∃ s₂, s₁.register? r = some s₂ := by
        refine exists_register?_iff.2 fun id hid => ?_
        rw [has_iff_index_lt, count_eq_countOf hs₁]
        exact h before r [] rfl id hid
      refine ⟨s₂, ?_⟩
      rw [registerAll?_append, hs₁, Option.bind_some, registerAll?_cons, hs₂]
      rfl

end Run

end Store

end TypeModel
