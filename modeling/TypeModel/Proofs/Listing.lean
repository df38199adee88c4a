import TypeModel.Proofs.Traversal
import TypeModel.Proofs.WellFormed
import TypeModel.Store.Names

/-!
# Members and the lists that name them

In a store that is filled by registration alone, a member is listed by the type that declares it
and by no other, and it is listed once (`Store.Listing`). Each registration keeps this: a new type
lists nothing, and a new member has a handle that nothing has mentioned so far.
-/

namespace TypeModel

def Decl.owner? : Decl → Option TypeId
  | .member d => some d.owner
  | _ => none

def Decl.listed : Decl → List MemberId
  | .type t => t.offeredMembers
  | _ => []

@[simp] theorem Decl.owner?_annotate (a : Annotation) (d : Decl) :
    (d.annotate a).owner? = d.owner? := by
  rcases d with _ | _ | (_ | _ | _ | _) <;> rfl

@[simp] theorem Decl.listed_annotate (a : Annotation) (d : Decl) :
    (d.annotate a).listed = d.listed := by
  rcases d with _ | _ | (_ | _ | _ | _) <;> rfl

namespace Store

variable {s s' : Store}

/-- The members that a type lists. -/
def listOf? (s : Store) (id : TypeId) : Option (List MemberId) :=
  (s.type? id).map TypeDecl.offeredMembers

/-- Types list the members that they declare, each once. -/
structure Listing (s : Store) : Prop where
  listed : ∀ m owner, s.ownerOf? m = some owner → ∃ list, s.listOf? owner = some list ∧ m ∈ list
  declared : ∀ id list, s.listOf? id = some list → ∀ m ∈ list, s.ownerOf? m = some id
  nodup : ∀ id list, s.listOf? id = some list → list.Nodup

/-- What declares a member depends on its declaration only. -/
theorem ownerOf?_eq (s : Store) (m : MemberId) :
    s.ownerOf? m = (s.decl? (.member m)).bind Decl.owner? := by
  have hread : s.decl? (.member m) = (s.member? m).map .member := rfl
  rw [hread, ownerOf?]
  cases s.member? m <;> rfl

theorem listOf?_eq (s : Store) (id : TypeId) :
    s.listOf? id = (s.decl? (.type id)).map Decl.listed := by
  have hread : s.decl? (.type id) = (s.type? id).map .type := rfl
  rw [hread, listOf?]
  cases s.type? id <;> rfl

theorem listing_empty : Listing {} where
  listed m owner h := by
    cases m <;> simp [ownerOf?, member?, field?, property?, event?, method?] at h
  declared id list h := by simp [listOf?, type?] at h
  nodup id list h := by simp [listOf?, type?] at h

namespace Listing

/-- Listing depends on what declares a member and on what a type lists, and on nothing else. -/
theorem congr (h : s.Listing) (howner : ∀ m, s'.ownerOf? m = s.ownerOf? m)
    (hlist : ∀ id, s'.listOf? id = s.listOf? id) : s'.Listing where
  listed m owner hm := by
    rw [howner] at hm
    rw [hlist]
    exact h.listed m owner hm
  declared id list hid m hm := by
    rw [hlist] at hid
    rw [howner]
    exact h.declared id list hid m hm
  nodup id list hid := by
    rw [hlist] at hid
    exact h.nodup id list hid

theorem addModule (h : s.Listing) (name : String) : (s.addModule name).1.Listing := by
  refine h.congr (fun m => ?_) fun id => ?_
  · rw [ownerOf?_eq, ownerOf?_eq, decl?_addModule, if_neg nofun]
  · rw [listOf?_eq, listOf?_eq, decl?_addModule, if_neg nofun]

theorem annotate (h : s.Listing) {target : DeclId} {a : Annotation}
    (hs : s.annotate? target a = some s') : s'.Listing := by
  have hread := decl?_annotate? hs
  refine h.congr (fun m => ?_) fun id => ?_
  · rw [ownerOf?_eq, ownerOf?_eq, hread]
    split
    · next heq => rw [heq]; cases s.decl? target <;> simp
    · rfl
  · rw [listOf?_eq, listOf?_eq, hread]
    split
    · next heq => rw [heq]; cases s.decl? target <;> simp
    · rfl

/-- A new type lists nothing. -/
theorem pushType (h : s.Listing) {t : TypeDecl} (ht : t.offeredMembers = []) :
    (s.pushType t).1.Listing := by
  have howner : ∀ m, (s.pushType t).1.ownerOf? m = s.ownerOf? m := fun m => by
    rw [ownerOf?_eq, ownerOf?_eq, decl?_pushType, if_neg nofun]
  have hlist : ∀ id, (s.pushType t).1.listOf? id =
      if id = (s.pushType t).2 then some [] else s.listOf? id := fun id => by
    rw [listOf?_eq, listOf?_eq, decl?_pushType]
    simp only [DeclId.type.injEq]
    split
    · exact congrArg some ht
    · rfl
  constructor
  case listed =>
    intro m owner hm
    rw [howner] at hm
    obtain ⟨list, hold, hmem⟩ := h.listed m owner hm
    have hne : owner ≠ (s.pushType t).2 := by
      rintro rfl
      simp [listOf?, type?, Store.pushType] at hold
    exact ⟨list, by rw [hlist, if_neg hne, hold], hmem⟩
  case declared =>
    intro id list hid m hm
    rw [hlist] at hid
    rw [howner]
    split at hid
    · cases hid
      exact absurd hm List.not_mem_nil
    · exact h.declared id list hid m hm
  case nodup =>
    intro id list hid
    rw [hlist] at hid
    split at hid
    · cases hid
      exact List.nodup_nil
    · exact h.nodup id list hid

theorem ownerOf?_nextMember (s : Store) (d : MemberDecl) : s.ownerOf? (s.nextMember d) = none := by
  cases d <;> simp [ownerOf?, member?, nextMember, field?, property?, event?, method?]

/-- The new member has its owner, and all others keep theirs. -/
theorem ownerOf?_withMember (s : Store) (d : MemberDecl) (m : MemberId) :
    (s.withMember d).ownerOf? m = if m = s.nextMember d then some d.owner else s.ownerOf? m := by
  unfold withMember
  rw [ownerOf?_eq, ownerOf?_eq, decl?_updateType, if_neg nofun, decl?_pushMember]
  simp only [DeclId.member.injEq]
  split <;> rfl

/-- The new member is listed by its owner, and all other lists stay as they are. -/
theorem listOf?_withMember {d : MemberDecl} {t : TypeDecl} (ht : s.type? d.owner = some t)
    (id : TypeId) : (s.withMember d).listOf? id =
      if id = d.owner then some (t.listMember (s.nextMember d)).offeredMembers
      else s.listOf? id := by
  unfold withMember
  rw [listOf?_eq, listOf?_eq, decl?_updateType, type?_pushMember, ht, decl?_pushMember]
  simp only [DeclId.type.injEq, reduceCtorEq, if_false]
  split <;> rfl

/-- The new member is not listed yet, since what is listed is declared. -/
theorem nextMember_not_listed (h : s.Listing) {id : TypeId} {list : List MemberId}
    (hlist : s.listOf? id = some list) (d : MemberDecl) : s.nextMember d ∉ list := by
  intro hmem
  have hnone := h.declared _ _ hlist _ hmem
  rw [ownerOf?_nextMember] at hnone
  cases hnone

/-- A new member goes to the list of the type that declares it. -/
theorem withMember (h : s.Listing) {d : MemberDecl} {t : TypeDecl}
    (ht : s.type? d.owner = some t) : (s.withMember d).Listing := by
  have hperm := t.offeredMembers_listMember (s.nextMember d)
  have hold : s.listOf? d.owner = some t.offeredMembers := by rw [listOf?, ht]; rfl
  have hfresh := h.nextMember_not_listed hold d
  constructor
  case listed =>
    intro m owner hm
    rw [ownerOf?_withMember] at hm
    rw [listOf?_withMember ht]
    split at hm
    · next heq =>
      cases hm
      rw [if_pos rfl, heq]
      exact ⟨_, rfl, hperm.mem_iff.2 List.mem_cons_self⟩
    · obtain ⟨list, hid, hmem⟩ := h.listed m owner hm
      split
      · next heq =>
        rw [heq, hold] at hid
        cases hid
        exact ⟨_, rfl, hperm.mem_iff.2 (List.mem_cons_of_mem _ hmem)⟩
      · exact ⟨list, hid, hmem⟩
  case declared =>
    intro id list hid m hm
    rw [listOf?_withMember ht] at hid
    rw [ownerOf?_withMember]
    split at hid
    · next heq =>
      cases hid
      rcases List.mem_cons.1 (hperm.mem_iff.1 hm) with rfl | hm
      · rw [if_pos rfl, heq]
      · have hne : m ≠ s.nextMember d := by
          rintro rfl
          exact hfresh hm
        rw [if_neg hne, heq]
        exact h.declared _ _ hold m hm
    · have hm := h.declared id list hid m hm
      rw [if_neg, hm]
      rintro rfl
      rw [ownerOf?_nextMember] at hm
      cases hm
  case nodup =>
    intro id list hid
    rw [listOf?_withMember ht] at hid
    split at hid
    · cases hid
      exact hperm.nodup_iff.2 (List.nodup_cons.2 ⟨hfresh, h.nodup _ _ hold⟩)
    · exact h.nodup id list hid

/-- No registration breaks the listing. -/
theorem register? (h : s.Listing) {r : Registration} (hr : s.register? r = some s') :
    s'.Listing := by
  cases r with
  | module name =>
    cases hr
    exact h.addModule name
  | type module scope name kind =>
    cases hr
    exact h.pushType rfl
  | nestedType outer name kind =>
    obtain ⟨t, -, rfl⟩ := register?_nestedType_eq_some hr
    exact h.pushType rfl
  | member d =>
    obtain ⟨t, ht, rfl⟩ := register?_member_eq_some hr
    exact h.withMember ht
  | annotate target a => exact h.annotate hr

/-- However a store is filled by registration, its types list what they declare. -/
theorem registerAll? (h : s.Listing) {registrations : List Registration}
    (hr : s.registerAll? registrations = some s') : s'.Listing :=
  option_foldlM_induct hr h fun _ _ _ _ hc hstep => hc.register? hstep

end Listing

end Store

end TypeModel
