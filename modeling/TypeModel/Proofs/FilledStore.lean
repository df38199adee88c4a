import Mathlib.Data.List.Nodup
import TypeModel.Proofs.Listing
import TypeModel.Proofs.RegistrationRun

/-!
# Stores filled by registration

A store that a run of registrations has filled keeps track of its declarations
(`Store.KeepsTrack`): handles count the registrations of each kind, types list what they declare
in ascending order, the lookup by full name finds the type registered last, and the type around
another was registered before it, so that no chain of enclosing types is endless.
-/

namespace TypeModel

/-! ## Positions of listed members -/

/-- The positions of the members of one kind that a type lists. -/
def TypeDecl.positions (t : TypeDecl) : MemberKind → List Nat
  | .field => t.fields.map Handle.index
  | .property => t.properties.map Handle.index
  | .event => t.events.map Handle.index
  | .method => t.methods.map Handle.index

def Decl.positions : Decl → MemberKind → List Nat
  | .type t, kind => t.positions kind
  | _, _ => []

@[simp] theorem Decl.positions_annotate (a : Annotation) (d : Decl) :
    (d.annotate a).positions = d.positions := by
  rcases d with _ | _ | (_ | _ | _ | _) <;> rfl

/-- The positions of a kind are those of the listed members of that kind. -/
theorem TypeDecl.mem_positions_iff {t : TypeDecl} {kind : MemberKind} {i : Nat} :
    i ∈ t.positions kind ↔ ∃ m ∈ t.offeredMembers, m.kind = kind ∧ m.index = i := by
  cases kind <;> simp [positions, offeredMembers, or_and_right, exists_or, MemberId.kind,
    MemberId.index]

/-- A member that is listed comes last among those of its kind. -/
theorem TypeDecl.positions_listMember (t : TypeDecl) (m : MemberId) (kind : MemberKind) :
    (t.listMember m).positions kind =
      if kind = m.kind then t.positions kind ++ [m.index] else t.positions kind := by
  cases m <;> cases kind <;> simp [listMember, positions, MemberId.kind, MemberId.index]

namespace Store

variable {s s' : Store}

/-! ## Lists of members -/

/-- Every type lists the members of each kind in the order of registration. -/
def Ascending (s : Store) : Prop :=
  ∀ id d, s.decl? id = some d → ∀ kind, (d.positions kind).Pairwise (· < ·)

namespace Ascending

/-- Writing one declaration leaves the lists of all others as they are. -/
theorem write (h : s.Ascending) {target : DeclId} {d : Decl}
    (hwrite : ∀ id, s'.decl? id = if id = target then some d else s.decl? id)
    (hd : ∀ kind, (d.positions kind).Pairwise (· < ·)) : s'.Ascending := by
  intro id e he
  rw [hwrite] at he
  split at he
  · cases he
    exact hd
  · exact h id e he

theorem annotate (h : s.Ascending) {target : DeclId} {a : Annotation}
    (hs : s.annotate? target a = some s') : s'.Ascending := by
  obtain ⟨d, hd, -⟩ := Option.bind_eq_some_iff.1 hs
  have hwrite := decl?_annotate? hs
  rw [hd] at hwrite
  refine h.write hwrite fun kind => ?_
  rw [Decl.positions_annotate]
  exact h target d hd kind

/-- A new member comes after all that its type lists. -/
theorem withMember (h : s.Ascending) (hlisting : s.Listing) {d : MemberDecl} {t : TypeDecl}
    (ht : s.type? d.owner = some t) : (s.withMember d).Ascending := by
  have hpush : (s.pushMember d).Ascending := h.write (decl?_pushMember s d) fun kind => .nil
  have hread := decl?_updateType (s.pushMember d) d.owner fun t => t.listMember (s.nextMember d)
  rw [type?_pushMember, ht] at hread
  refine hpush.write hread fun kind => ?_
  have hold : (t.positions kind).Pairwise (· < ·) :=
    h (.type d.owner) (.type t) (by simp only [decl?, ht, Option.map_some]) kind
  have hnew : (t.listMember (s.nextMember d)).positions kind =
      if kind = d.kind then t.positions kind ++ [s.count d.kind.declKind]
      else t.positions kind := by
    rw [t.positions_listMember]
    cases d <;> rfl
  change ((t.listMember (s.nextMember d)).positions kind).Pairwise (· < ·)
  rw [hnew]
  split
  · next heq =>
    -- What the type lists so far was registered before, at smaller positions.
    refine List.pairwise_append.2 ⟨hold, List.pairwise_singleton _ _, fun i hi j hj => ?_⟩
    rw [List.mem_singleton.1 hj]
    obtain ⟨m, hm, hkind, rfl⟩ := TypeDecl.mem_positions_iff.1 hi
    have howner := hlisting.declared d.owner _ (by rw [listOf?, ht]; rfl) m hm
    obtain ⟨e, he, -⟩ := Option.map_eq_some_iff.1 howner
    have hlt := has_iff_index_lt.1 (has_member_iff.2 ⟨e, he⟩)
    rw [← heq, ← hkind]
    exact hlt
  · exact hold

/-- No registration breaks the order of a list. -/
theorem register? (h : s.Ascending) (hlisting : s.Listing) {r : Registration}
    (hr : s.register? r = some s') : s'.Ascending := by
  cases r with
  | module name =>
    cases hr
    exact h.write (decl?_addModule s name) fun kind => .nil
  | type module scope name typeKind =>
    cases hr
    exact h.write (decl?_pushType s _) fun kind => by cases kind <;> exact .nil
  | nestedType outer name typeKind =>
    obtain ⟨t, -, rfl⟩ := register?_nestedType_eq_some hr
    exact h.write (decl?_pushType s _) fun kind => by cases kind <;> exact .nil
  | member d =>
    obtain ⟨t, ht, rfl⟩ := register?_member_eq_some hr
    exact h.withMember hlisting ht
  | annotate target a => exact h.annotate hr

end Ascending

/-- Every run of registrations keeps the lists in order. -/
theorem ascending_of_registerAll? {registrations : List Registration}
    (h : registerAll? {} registrations = some s) : s.Ascending := by
  have hempty : Ascending {} := by
    intro id d hd
    rcases id with _ | _ | (_ | _ | _ | _) <;>
      simp [decl?, module?, type?, member?, field?, property?, event?, method?] at hd
  have hboth : s.Listing ∧ s.Ascending :=
    option_foldlM_induct (P := fun c => c.Listing ∧ c.Ascending) h ⟨listing_empty, hempty⟩
      fun _ _ _ _ hc hr => ⟨hc.1.register? hr, hc.2.register? hc.1 hr⟩
  exact hboth.2

/-- The members that the types list, one type after another. -/
def listedMembers (s : Store) : List MemberId :=
  s.types.toList.flatMap TypeDecl.offeredMembers

theorem mem_listedMembers {m : MemberId} :
    m ∈ s.listedMembers ↔ ∃ id t, s.type? id = some t ∧ m ∈ t.offeredMembers := by
  unfold listedMembers
  rw [List.mem_flatMap]
  constructor
  · rintro ⟨t, ht, hm⟩
    obtain ⟨i, hi⟩ := exists_getElem?_of_mem_toList ht
    exact ⟨⟨i⟩, t, hi, hm⟩
  · rintro ⟨id, t, ht, hm⟩
    exact ⟨t, Array.mem_toList_iff.2 (Array.mem_of_getElem? ht), hm⟩

theorem Listing.declared_of_type? (h : s.Listing) {id : TypeId} {t : TypeDecl}
    (ht : s.type? id = some t) {m : MemberId} (hm : m ∈ t.offeredMembers) :
    s.ownerOf? m = some id :=
  h.declared id _ (by rw [listOf?, ht]; rfl) m hm

/-- No two types list the same member, and no type lists one twice. -/
theorem Listing.nodup_listedMembers (h : s.Listing) : s.listedMembers.Nodup := by
  refine List.nodup_flatMap.2 ⟨fun t ht => ?_, ?_⟩
  · obtain ⟨i, hi⟩ := exists_getElem?_of_mem_toList ht
    exact h.nodup ⟨i⟩ _ (by rw [listOf?, type?, hi]; rfl)
  · refine List.pairwise_iff_getElem.2 fun i j hi hj hlt m hmi hmj => ?_
    have hread : ∀ k (hk : k < s.types.toList.length), s.type? ⟨k⟩ = some s.types.toList[k] := by
      intro k hk
      simp [type?]
    -- A member that two types list would be declared by both.
    have hsame := (h.declared_of_type? (hread i hi) hmi).symm.trans
      (h.declared_of_type? (hread j hj) hmj)
    cases hsame
    exact Nat.lt_irrefl _ hlt

/-! ## Enclosing types -/

/-- A nested type has module and namespace of the type around it, which was registered before it
and whose full name its own continues. -/
def Nesting (s : Store) : Prop :=
  ∀ id t outer, s.type? id = some t → t.outer = some outer →
    ∃ o, s.type? outer = some o ∧ outer.index < id.index ∧ t.module = o.module ∧
      t.scope = o.scope ∧ t.fullName = o.fullName ++ "+" ++ t.name

theorem Nesting.of_skeleton (h : s.skeleton.Nesting) : s.Nesting := by
  intro id t outer ht houter
  have hbare : s.skeleton.type? id = some t.bare := by rw [type?_skeleton, ht]; rfl
  obtain ⟨b, hb, hrest⟩ := h id t.bare outer hbare houter
  rw [type?_skeleton] at hb
  obtain ⟨o, ho, rfl⟩ := Option.map_eq_some_iff.1 hb
  exact ⟨o, ho, hrest⟩

/-- A registration keeps the bare types that are there. -/
theorem type?_skeleton_of_register? {r : Registration} (hr : s.register? r = some s') {id : TypeId}
    {b : TypeDecl} (hb : s.skeleton.type? id = some b) : s'.skeleton.type? id = some b := by
  have hd : s.skeleton.decl? (.type id) = some (.type b) := by
    simp only [decl?, hb, Option.map_some]
  have hkept := decl?_skeleton_register?_of_eq_some hd hr
  obtain ⟨b', hb', heq⟩ := Option.map_eq_some_iff.1 hkept
  cases heq
  exact hb'

/-- A new nested type comes after the type around it, and no other type changes. -/
theorem Nesting.register? {r : Registration} (h : s.skeleton.Nesting)
    (hr : s.register? r = some s') : s'.skeleton.Nesting := by
  intro id b outer hb houter
  rw [type?_skeleton_register? hr] at hb
  split at hb
  · next hnew =>
    obtain ⟨t, ht, rfl⟩ := Option.map_eq_some_iff.1 hb
    -- Of the new types only a nested one has a type around it, which is there already.
    cases r with
    | type module scope name kind =>
      cases ht
      cases houter
    | nestedType outer' name kind =>
      obtain ⟨o, ho, rfl⟩ := Option.map_eq_some_iff.1 ht
      obtain rfl : outer' = outer := Option.some.inj houter
      have hbare : s.skeleton.type? outer' = some o.bare := by rw [type?_skeleton, ho]; rfl
      have hlt := has_iff_index_lt.1 (has_type_iff.2 ⟨o, ho⟩)
      rw [handedOut?_eq hr] at hnew
      cases hnew
      exact ⟨o.bare, type?_skeleton_of_register? hr hbare, hlt, rfl, rfl, rfl⟩
    | module name => cases ht
    | member d => cases ht
    | annotate target a => cases ht
  · obtain ⟨o, ho, hrest⟩ := h id b outer hb houter
    exact ⟨o, type?_skeleton_of_register? hr ho, hrest⟩

/-- Every run of registrations nests types in earlier ones. -/
theorem nesting_of_registerAll? {registrations : List Registration}
    (h : registerAll? {} registrations = some s) : s.Nesting := by
  have hempty : (skeleton {}).Nesting := by
    intro id t outer ht
    simp [skeleton, type?] at ht
  refine Nesting.of_skeleton ?_
  exact option_foldlM_induct (P := fun c => c.skeleton.Nesting) h hempty
    fun _ _ _ _ hc hr => Nesting.register? hc hr

/-- The type that a number of steps outwards lead to. -/
def outward? (s : Store) (id : TypeId) : Nat → Option TypeId
  | 0 => some id
  | n + 1 => do
    let t ← s.type? (← s.outward? id n)
    t.outer

/-- Each step outwards leads to a type that was registered earlier. -/
theorem Nesting.index_add_le (h : s.Nesting) {id id' : TypeId} {n : Nat}
    (hid : s.outward? id n = some id') : id'.index + n ≤ id.index := by
  induction n generalizing id' with
  | zero =>
    cases hid
    exact Nat.le_refl _
  | succ n ih =>
    obtain ⟨mid, hmid, hid⟩ := Option.bind_eq_some_iff.1 hid
    obtain ⟨t, ht, houter⟩ := Option.bind_eq_some_iff.1 hid
    obtain ⟨o, -, hlt, -⟩ := h mid t id' ht houter
    have hle := ih hmid
    omega

/-- The walk outwards from a type ends within as many steps as there are earlier types. -/
theorem Nesting.outward?_eq_none (h : s.Nesting) (id : TypeId) :
    s.outward? id (id.index + 1) = none := by
  cases hid : s.outward? id (id.index + 1) with
  | none => rfl
  | some id' =>
    have hle := h.index_add_le hid
    omega

/-! ## Lookup by full name -/

/-- Of the types that go by a name, the last one is behind the handle. -/
def LastNamed (s : Store) (name : String) (id : TypeId) : Prop :=
  (s.type? id).map TypeDecl.fullName = some name ∧
    ∀ id', (s.type? id').map TypeDecl.fullName = some name → id'.index ≤ id.index

/-- The index has the last of the types under each full name, and no name that no type goes by. -/
structure NamesIndexed (s : Store) : Prop where
  last : ∀ name id, s.findType? name = some id → s.LastNamed name id
  named : ∀ name id, (s.type? id).map TypeDecl.fullName = some name →
    ∃ id', s.findType? name = some id'

section FindType

variable {name : String} {id : TypeId} {r : Registration}

/-- Registering a type files it in the place of those that went by its name before. -/
theorem findType?_pushType (s : Store) (t : TypeDecl) (name : String) :
    (s.pushType t).1.findType? name =
      if t.fullName = name then some ⟨s.types.size⟩ else s.findType? name :=
  Dictionary.get?_insert ..

/-- Only types are filed. -/
theorem typesByName_annotate? {target : DeclId} {a : Annotation}
    (h : s.annotate? target a = some s') : s'.typesByName = s.typesByName := by
  obtain ⟨d, -, h⟩ := Option.bind_eq_some_iff.1 h
  obtain rfl := Option.some.inj h
  rcases target with _ | _ | (_ | _ | _ | _) <;> rfl

/-- A registration files the type that it introduces, if it introduces one, and nothing else. -/
theorem findType?_register? (hr : s.register? r = some s') (name : String) :
    s'.findType? name =
      if (s.introducedType? r).map TypeDecl.fullName = some name then some ⟨s.count .type⟩
      else s.findType? name := by
  cases r with
  | module moduleName =>
    cases hr
    rfl
  | type module scope typeName kind =>
    cases hr
    rw [addType, findType?_pushType]
    simp only [introducedType?, Option.map_some, Option.some.injEq]
    rfl
  | nestedType outer typeName kind =>
    obtain ⟨t, ht, rfl⟩ := register?_nestedType_eq_some hr
    rw [findType?_pushType]
    simp only [introducedType?, ht, Option.map_some, Option.some.injEq]
    rfl
  | member d =>
    obtain ⟨t, -, rfl⟩ := register?_member_eq_some hr
    cases d <;> rfl
  | annotate target a =>
    rw [findType?, typesByName_annotate? hr]
    rfl

/-- Only the type that a registration introduces gets a name. -/
theorem fullName_register? (hr : s.register? r = some s') (id : TypeId) :
    (s'.type? id).map TypeDecl.fullName =
      if s.handedOut? r = some (.type id) then (s.introducedType? r).map TypeDecl.fullName
      else (s.type? id).map TypeDecl.fullName := by
  have hread := congrArg (Option.map TypeDecl.fullName) (type?_skeleton_register? hr id)
  simp only [type?_skeleton, apply_ite (Option.map TypeDecl.fullName), Option.map_map] at hread
  exact hread

/-- The type that a registration introduces goes by its name, behind the last handle. -/
theorem lastNamed_introducedType? (hr : s.register? r = some s')
    (hname : (s.introducedType? r).map TypeDecl.fullName = some name) :
    s'.LastNamed name ⟨s.count .type⟩ := by
  have hkind : r.kind? = some .type := by
    cases r with
    | type module scope name kind => rfl
    | nestedType outer name kind => rfl
    | module name => cases hname
    | member d => cases hname
    | annotate target a => cases hname
  have hnew : s.handedOut? r = some (.type ⟨s.count .type⟩) := by
    rw [handedOut?_eq hr, hkind]
    rfl
  refine ⟨by rw [fullName_register? hr, if_pos hnew, hname], fun id hid => ?_⟩
  obtain ⟨t, ht, -⟩ := Option.map_eq_some_iff.1 hid
  have hlt := has_iff_index_lt.1 (has_type_iff.2 ⟨t, ht⟩)
  rw [count_register? hr, hkind] at hlt
  exact Nat.le_of_lt_succ hlt

/-- By other names go the same types as before. -/
theorem fullName_register?_of_ne (hr : s.register? r = some s')
    (hname : (s.introducedType? r).map TypeDecl.fullName ≠ some name) (id : TypeId) :
    (s'.type? id).map TypeDecl.fullName = some name ↔
      (s.type? id).map TypeDecl.fullName = some name := by
  rw [fullName_register? hr]
  split
  · next hnew =>
    have hnone : s.type? id = none := by
      rw [Option.eq_none_iff_forall_ne_some]
      exact fun t ht => not_has_of_handedOut? hr hnew (has_type_iff.2 ⟨t, ht⟩)
    simp [hname, hnone]
  · rfl

namespace NamesIndexed

/-- No registration breaks the index: it files the type that it introduces over all of that name. -/
theorem register? (h : s.NamesIndexed) (hr : s.register? r = some s') : s'.NamesIndexed := by
  constructor
  case last =>
    intro name id hid
    rw [findType?_register? hr] at hid
    split at hid
    · next hname =>
      obtain rfl := Option.some.inj hid
      exact lastNamed_introducedType? hr hname
    · next hname =>
      have hsame := fullName_register?_of_ne hr hname
      obtain ⟨hnamed, hlast⟩ := h.last name id hid
      exact ⟨(hsame id).2 hnamed, fun id' hid' => hlast id' ((hsame id').1 hid')⟩
  case named =>
    intro name id hid
    rw [findType?_register? hr]
    split
    · exact ⟨_, rfl⟩
    · next hname => exact h.named name id ((fullName_register?_of_ne hr hname id).1 hid)

/-- The index has the last of the types that go by the name. -/
theorem findType?_eq_some_iff (h : s.NamesIndexed) :
    s.findType? name = some id ↔ s.LastNamed name id := by
  refine ⟨h.last name id, fun ⟨hid, hlast⟩ => ?_⟩
  -- Some type is filed under the name, and no two types can both be the last.
  obtain ⟨found, hfound⟩ := h.named name id hid
  obtain ⟨hname, hmax⟩ := h.last name found hfound
  have hle := hlast found hname
  have hge := hmax id hid
  cases id
  cases found
  exact hfound.trans (congrArg some (congrArg Handle.mk (Nat.le_antisymm hle hge)))

/-- The index has nothing under a name if no type goes by it. -/
theorem findType?_eq_none_iff (h : s.NamesIndexed) : s.findType? name = none ↔
    ∀ id, (s.type? id).map TypeDecl.fullName ≠ some name := by
  constructor
  · intro hnone id hid
    obtain ⟨found, hfound⟩ := h.named name id hid
    cases hnone.symm.trans hfound
  · intro hnone
    rw [Option.eq_none_iff_forall_ne_some]
    exact fun found hfound => hnone found (h.last name found hfound).1

end NamesIndexed

/-- Every run of registrations keeps the index exact. -/
theorem namesIndexed_of_registerAll? {registrations : List Registration}
    (h : registerAll? {} registrations = some s) : s.NamesIndexed := by
  have hempty : NamesIndexed {} := ⟨nofun, fun name id hid => by simp [type?] at hid⟩
  exact option_foldlM_induct (P := NamesIndexed) h hempty fun _ _ _ _ hc hr => hc.register? hr

end FindType

/-! ## The store as a whole -/

/-- What a store that a run of registrations has filled says of them. -/
structure KeepsTrack (registrations : List Registration) (s : Store) : Prop where
  /-- The handles of each kind count the registrations that introduce it. -/
  handedOut : ∀ before r after s₁, registrations = before ++ r :: after →
    registerAll? {} before = some s₁ →
    s₁.handedOut? r = r.kind?.map fun kind => kind.handle (Registration.countOf kind before)
  has : ∀ id, s.Has id ↔ id.index < Registration.countOf id.kind registrations
  /-- Behind each handle is what was registered under it. -/
  introduced : ∀ before r after s₁ id, registrations = before ++ r :: after →
    registerAll? {} before = some s₁ → s₁.handedOut? r = some id →
    ∃ d, s₁.introduced? r = some d ∧ (s.decl? id).map Decl.skeleton = some d.skeleton
  /-- Later registrations change nothing of a declaration but annotations and lists of members. -/
  kept : ∀ before after s₁ id d, registrations = before ++ after →
    registerAll? {} before = some s₁ → s₁.decl? id = some d →
    (s.decl? id).map Decl.skeleton = some d.skeleton
  /-- A member is listed once, in the list for its kind of the type that declares it. -/
  listed : ∀ m d, s.member? m = some d → s.listedMembers.count m = 1 ∧
    ∃ t, s.type? d.owner = some t ∧ m.index ∈ t.positions m.kind
  declared : ∀ m ∈ s.listedMembers, ∃ d, s.member? m = some d
  ascending : ∀ id t kind, s.type? id = some t → (t.positions kind).Pairwise (· < ·)
  /-- The lookup finds the type of that full name that was registered last. -/
  found : ∀ name id, s.findType? name = some id ↔
    (s.type? id).map TypeDecl.fullName = some name ∧
      ∀ id', (s.type? id').map TypeDecl.fullName = some name → id'.index ≤ id.index
  notFound : ∀ name, s.findType? name = none ↔
    ∀ id, (s.type? id).map TypeDecl.fullName ≠ some name
  /-- A further type is found from then on in the place of those that have its full name. -/
  shadows : ∀ r s', s.register? r = some s' → ∀ name, s'.findType? name =
    if (s.introducedType? r).map TypeDecl.fullName = some name then some ⟨s.count .type⟩
    else s.findType? name
  nested : s.Nesting
  /-- There are at most as many types around another as were registered before it. -/
  ends : ∀ id, s.outward? id (id.index + 1) = none

/-- A run of registrations, each of which adds to what is there, fills a store that keeps track of
them. -/
theorem registrations_are_tracked {registrations : List Registration}
    (h : Registration.Grounded registrations) :
    ∃ s, registerAll? {} registrations = some s ∧ s.KeepsTrack registrations := by
  obtain ⟨s, hs⟩ := exists_registerAll?_iff_grounded.2 h
  have hlisting := listing_empty.registerAll? hs
  have hnesting := nesting_of_registerAll? hs
  have hindexed := namesIndexed_of_registerAll? hs
  refine ⟨s, hs, ?_⟩
  constructor
  case handedOut =>
    rintro before r after s₁ rfl hs₁
    obtain ⟨s₂, hr, -⟩ := exists_register?_of_registerAll? hs hs₁
    simp only [handedOut?_eq hr, count_eq_countOf hs₁]
  case has =>
    intro id
    rw [has_iff_index_lt, count_eq_countOf hs]
  case introduced =>
    rintro before r after s₁ id rfl hs₁ hid
    obtain ⟨s₂, hr, hafter⟩ := exists_register?_of_registerAll? hs hs₁
    obtain ⟨d, hd⟩ := exists_introduced? hr hid
    have hread : s₂.skeleton.decl? id = some d.skeleton := by
      rw [decl?_skeleton_register? hr, if_pos hid, hd, Option.map_some]
    refine ⟨d, hd, ?_⟩
    rw [← decl?_skeleton]
    exact decl?_skeleton_registerAll? hread hafter
  case kept =>
    rintro before after s₁ id d rfl hs₁ hd
    rw [registerAll?_append, hs₁, Option.bind_some] at hs
    rw [← decl?_skeleton]
    refine decl?_skeleton_registerAll? ?_ hs
    rw [decl?_skeleton, hd, Option.map_some]
  case listed =>
    intro m d hd
    obtain ⟨list, hlist, hm⟩ := hlisting.listed m d.owner (ownerOf?_of_member? hd)
    obtain ⟨t, ht, rfl⟩ := Option.map_eq_some_iff.1 hlist
    refine ⟨?_, t, ht, TypeDecl.mem_positions_iff.2 ⟨m, hm, rfl, rfl⟩⟩
    exact List.count_eq_one_of_mem hlisting.nodup_listedMembers (mem_listedMembers.2 ⟨_, t, ht, hm⟩)
  case declared =>
    intro m hm
    obtain ⟨id, t, ht, hm⟩ := mem_listedMembers.1 hm
    obtain ⟨d, hd, -⟩ := Option.map_eq_some_iff.1 (hlisting.declared_of_type? ht hm)
    exact ⟨d, hd⟩
  case ascending =>
    intro id t kind ht
    exact ascending_of_registerAll? hs (.type id) (.type t) (by rw [decl?, ht]; rfl) kind
  case found => exact fun name id => hindexed.findType?_eq_some_iff
  case notFound => exact fun name => hindexed.findType?_eq_none_iff
  case shadows => exact fun r s' hr name => findType?_register? hr name
  case nested => exact hnesting
  case ends => exact hnesting.outward?_eq_none

/-- A nested type with two methods and a property, and a type that goes by its full name. -/
def shadowingRegistrations : List Registration := [
  .module "app.dll",
  .type ⟨0⟩ "App" "Outer" .classType,
  .nestedType ⟨0⟩ "Inner" .structType,
  .member (.method { owner := ⟨1⟩, name := "get_Size" }),
  .member (.method { owner := ⟨0⟩, name := "Run" }),
  .member (.property { owner := ⟨1⟩, name := "Size", type := .void, getter := some ⟨0⟩ }),
  .type ⟨0⟩ "App" "Outer+Inner" .classType,
  .annotate (.type ⟨1⟩) { kind := "Mark", args := [] },
  .member (.method { owner := ⟨1⟩, name := "set_Size" })]

/-- The later type is found, and the nested type lists its methods without that of the type around
it. -/
theorem type_of_the_same_name_is_shadowed :
    Registration.Grounded shadowingRegistrations ∧
      ∃ s, registerAll? {} shadowingRegistrations = some s ∧
        s.KeepsTrack shadowingRegistrations ∧ s.findType? "App.Outer+Inner" = some ⟨2⟩ ∧
        ((s.type? ⟨1⟩).map fun t => t.positions .method) = some [0, 2] := by
  have hgrounded : Registration.Grounded shadowingRegistrations :=
    exists_registerAll?_iff_grounded.1 ⟨_, rfl⟩
  obtain ⟨s, hs, htracks⟩ := registrations_are_tracked hgrounded
  cases hs
  exact ⟨hgrounded, _, rfl, htracks, by decide, rfl⟩

end Store

end TypeModel
