import TypeModel.Proofs.IdentifierMap
import TypeModel.TypeRecord.Roster

/-!
# How a roster grows

A roster only ever gets new slots at its end (`Grows`), those that the type itself lists before
those of its proxies. A slot that comes from a proxy is pushed only if its identifier agrees with
none before it, so that no later slot hides or repeats an earlier one (`Grows.fresh`); and whatever
a proxy offers agrees with some slot afterwards (`grows_of_contribute?`).
-/

namespace TypeModel

/-- A member with its accessors. -/
def Store.withAccessors (store : Store) (m : MemberId) : List MemberId :=
  m :: ((store.member? m).toList.flatMap MemberDecl.accessors).map .method

/-- The members that a type lists itself, with the accessors of those that have some. -/
def Store.ownMembers (store : Store) (t : TypeDecl) : List MemberId :=
  t.dataMembers.flatMap store.withAccessors ++ t.methods.map .method

namespace Roster

variable {store : Store}

/-! ## Sound rosters -/

/-- Every slot is filed under the identifier of its member. -/
structure Sound (store : Store) (r : Roster) : Prop where
  filed : r.Filed
  keyed : ∀ entry ∈ r.entries, store.identifier? entry.2.member = some entry.1

theorem sound_empty : Sound store .empty :=
  ⟨IdentifierMap.filed_empty, fun _ h => absurd h List.not_mem_nil⟩

theorem Sound.push {r : Roster} {key : Identifier} {slot : Slot} (h : Sound store r)
    (hkey : store.identifier? slot.member = some key) : Sound store (r.push key slot) := by
  refine ⟨h.filed.push key slot, fun entry hentry => ?_⟩
  rcases List.mem_append.1 hentry with hentry | hentry
  · exact h.keyed entry hentry
  · rw [List.mem_singleton.1 hentry]
    exact hkey

theorem lists_iff {r : Roster} {m : MemberId} :
    r.lists m ↔ ∃ entry ∈ r.entries, entry.2.member = m := by
  unfold lists IdentifierMap.values
  rw [List.any_map, List.any_eq_true]
  simp only [Function.comp, decide_eq_true_eq]

/-- A member that is there agrees with itself. -/
theorem Sound.contains_of_lists {r : Roster} {m : MemberId} {key : Identifier}
    (h : Sound store r) (hm : r.lists m) (hkey : store.identifier? m = some key) :
    r.contains key := by
  obtain ⟨entry, hentry, rfl⟩ := lists_iff.1 hm
  have heq : entry.1 = key := Option.some.inj ((h.keyed entry hentry).symm.trans hkey)
  refine (h.filed.contains_iff key).2 ⟨entry, hentry, ?_⟩
  rw [heq]
  exact Identifier.agrees_refl key

theorem lists_mono {r r' : Roster} (h : r.entries ⊆ r'.entries) {m : MemberId} (hm : r.lists m) :
    r'.lists m := by
  obtain ⟨entry, hentry, heq⟩ := lists_iff.1 hm
  exact lists_iff.2 ⟨entry, h hentry, heq⟩

/-! ## Growth -/

/-- The slots that the second roster has beyond those of the first. -/
def added (r r' : Roster) : List (Identifier × Slot) :=
  r'.entries.drop r.entries.length

/-- Where a slot comes from: its member is offered, or is an accessor of a member in one of the
given slots, which has the same origin. -/
def Reached (store : Store) (offered : List MemberId) (slots : List (Identifier × Slot))
    (slot : Slot) : Prop :=
  match slot.accessorOf with
  | none => slot.member ∈ offered
  | some o => (∃ entry ∈ slots, entry.2 = ⟨o, slot.origin, none⟩) ∧
    ∃ d, store.member? o = some d ∧ ∃ a ∈ d.accessors, slot.member = .method a

/-- The second roster arises from the first by pushing slots of one origin, each reached from what
is offered. A slot from a proxy is pushed only if no slot agrees with it. -/
inductive Grows (store : Store) (offered : List MemberId) (origin : Origin) (r : Roster) :
    Roster → Prop
  | refl : Grows store offered origin r r
  | push {r' : Roster} {key : Identifier} {slot : Slot} (before : Grows store offered origin r r')
      (origin_eq : slot.origin = origin) (key_eq : store.identifier? slot.member = some key)
      (reached : Reached store offered (added r r') slot)
      (fresh : origin = .proxy → r'.contains key = false) :
      Grows store offered origin r (r'.push key slot)

section Grows

variable {offered offered' : List MemberId} {origin : Origin} {r r' r'' : Roster}

theorem Reached.mono {slots slots' : List (Identifier × Slot)} {slot : Slot}
    (h : Reached store offered slots slot) (hoffered : offered ⊆ offered')
    (hslots : slots ⊆ slots') : Reached store offered' slots' slot := by
  unfold Reached at *
  cases hslot : slot.accessorOf with
  | none =>
    rw [hslot] at h
    exact hoffered h
  | some o =>
    rw [hslot] at h
    obtain ⟨⟨entry, hentry, heq⟩, haccessor⟩ := h
    exact ⟨⟨entry, hslots hentry, heq⟩, haccessor⟩

theorem added_self (r : Roster) : added r r = [] :=
  List.drop_length

theorem added_push (h : r.entries.length ≤ r'.entries.length) (key : Identifier) (slot : Slot) :
    added r (r'.push key slot) = added r r' ++ [(key, slot)] :=
  List.drop_append_of_le_length h

theorem Grows.length_le (h : Grows store offered origin r r') :
    r.entries.length ≤ r'.entries.length := by
  induction h with
  | refl => exact Nat.le_refl _
  | push _ _ _ _ _ ih =>
    rw [IdentifierMap.entries_push, List.length_append]
    omega

/-- New slots come after the old ones. -/
theorem Grows.entries_eq (h : Grows store offered origin r r') :
    r'.entries = r.entries ++ added r r' := by
  induction h with
  | refl => rw [added_self, List.append_nil]
  | @push r' key slot before _ _ _ _ ih =>
    rw [added_push before.length_le, ← List.append_assoc, ← ih]
    rfl

/-- What is added has the origin of the growth and is reached from what was offered. -/
theorem Grows.of_added (h : Grows store offered origin r r') :
    ∀ entry ∈ added r r',
      entry.2.origin = origin ∧ Reached store offered (added r r') entry.2 := by
  induction h with
  | refl =>
    rw [added_self]
    exact fun _ h => absurd h List.not_mem_nil
  | @push r' key slot before horigin _ hreached _ ih =>
    rw [added_push before.length_le]
    intro entry hentry
    have hsub : added r r' ⊆ added r r' ++ [(key, slot)] := List.subset_append_left _ _
    rcases List.mem_append.1 hentry with hentry | hentry
    · exact ⟨(ih entry hentry).1, (ih entry hentry).2.mono (List.Subset.refl _) hsub⟩
    · rw [List.mem_singleton.1 hentry]
      exact ⟨horigin, hreached.mono (List.Subset.refl _) hsub⟩

theorem Grows.trans (h : Grows store offered origin r r') (h' : Grows store offered origin r' r'') :
    Grows store offered origin r r'' := by
  induction h' with
  | refl => exact h
  | push _ horigin hkey hreached hfresh ih =>
    exact ih.push horigin hkey (hreached.mono (List.Subset.refl _)
      (List.drop_subset_drop_left _ h.length_le)) hfresh

theorem Grows.mono (h : Grows store offered origin r r') (hoffered : offered ⊆ offered') :
    Grows store offered' origin r r' := by
  induction h with
  | refl => exact .refl
  | push _ horigin hkey hreached hfresh ih =>
    exact ih.push horigin hkey (hreached.mono hoffered (List.Subset.refl _)) hfresh

theorem Grows.sound (h : Grows store offered origin r r') (hr : Sound store r) :
    Sound store r' := by
  induction h with
  | refl => exact hr
  | push _ _ hkey _ _ ih => exact ih.push hkey

theorem Grows.subset (h : Grows store offered origin r r') : r.entries ⊆ r'.entries := by
  rw [h.entries_eq]
  exact List.subset_append_left _ _

/-- A slot that agrees with a key is never hidden by later ones. -/
theorem Grows.contains (h : Grows store offered origin r r') (hr : Sound store r)
    {key : Identifier} (hkey : r.contains key) : r'.contains key := by
  obtain ⟨entry, hentry, hagrees⟩ := (hr.filed.contains_iff key).1 hkey
  exact ((h.sound hr).filed.contains_iff key).2 ⟨entry, h.subset hentry, hagrees⟩

/-- The slots from a certain position on agree with none before them. -/
def FreshFrom (n : Nat) (r : Roster) : Prop :=
  ∀ (i j : Nat) (e e' : Identifier × Slot), i < j → n ≤ j → r.entries[i]? = some e →
    r.entries[j]? = some e' → e.1.agrees e'.1 = false

/-- What proxies add agrees with nothing that was there before. -/
theorem Grows.fresh (h : Grows store offered .proxy r r') (hr : Sound store r) :
    FreshFrom r.size r' := by
  induction h with
  | refl =>
    intro i j e e' _ hj _ he'
    obtain ⟨hlt, -⟩ := List.getElem?_eq_some_iff.1 he'
    exact absurd hlt (Nat.not_lt.2 hj)
  | @push r' key slot hgrows _ _ _ hfresh ih =>
    intro i j e e' hij hj he he'
    rw [IdentifierMap.entries_push] at he he'
    have hi : i < r'.entries.length := by
      obtain ⟨hlt, -⟩ := List.getElem?_eq_some_iff.1 he'
      rw [List.length_append, List.length_singleton] at hlt
      omega
    rw [List.getElem?_append_left hi] at he
    -- Either both slots were there before, or the second is the new one.
    by_cases hlast : j < r'.entries.length
    · rw [List.getElem?_append_left hlast] at he'
      exact ih i j e e' hij hj he he'
    · rw [List.getElem?_append_right (Nat.not_lt.1 hlast)] at he'
      have hmem := List.mem_singleton.1 (List.mem_of_getElem? he')
      rw [hmem]
      exact ((hgrows.sound hr).filed.contains_eq_false_iff key).1 (hfresh rfl) e
        (List.mem_of_getElem? he)

/-- A member that was there before does not come again. -/
theorem FreshFrom.not_lists {base : Roster} {new : List (Identifier × Slot)}
    (h : FreshFrom base.entries.length r) (hr : Sound store r)
    (heq : r.entries = base.entries ++ new) {entry : Identifier × Slot} (hentry : entry ∈ new) :
    ¬base.lists entry.2.member := by
  intro hlists
  obtain ⟨old, hold, hmember⟩ := lists_iff.1 hlists
  obtain ⟨i, hi⟩ := List.mem_iff_getElem?.1 hold
  obtain ⟨k, hk⟩ := List.mem_iff_getElem?.1 hentry
  have hlt : i < base.entries.length := (List.getElem?_eq_some_iff.1 hi).1
  have hold' : r.entries[i]? = some old := by
    rw [heq, List.getElem?_append_left hlt]
    exact hi
  have hentry' : r.entries[base.entries.length + k]? = some entry := by
    rw [heq, List.getElem?_append_right (Nat.le_add_right _ _), Nat.add_sub_cancel_left]
    exact hk
  have hdisagree := h i _ old entry (by omega) (Nat.le_add_right _ _) hold' hentry'
  have hkey : old.1 = entry.1 := by
    have hkeyed := hr.keyed old (List.mem_of_getElem? hold')
    rw [hmember, hr.keyed entry (List.mem_of_getElem? hentry')] at hkeyed
    exact (Option.some.inj hkeyed).symm
  rw [hkey, Identifier.agrees_refl] at hdisagree
  cases hdisagree

end Grows

/-! ## What each step adds -/

section Steps

variable {offered : List MemberId} {origin : Origin} {r r' : Roster} {slot : Slot} {m : MemberId}

/-- An offer is pushed under its identifier if the roster admits it, and changes nothing otherwise.
-/
theorem offer?_eq_some (h : offer? store r slot = some r') :
    ∃ key, store.identifier? slot.member = some key ∧
      r' = if r.admits slot key then r.push key slot else r := by
  obtain ⟨key, hkey, h⟩ := Option.bind_eq_some_iff.1 h
  exact ⟨key, hkey, (Option.some.inj h).symm⟩

theorem added_subset_of_offer? {c : Roster} (h : offer? store c slot = some r')
    (hlength : r.entries.length ≤ c.entries.length) : added r c ⊆ added r r' := by
  obtain ⟨key, -, rfl⟩ := offer?_eq_some h
  split
  · rw [added_push hlength]
    exact List.subset_append_left _ _
  · exact List.Subset.refl _

theorem subset_of_offer? (h : offer? store r slot = some r') : r.entries ⊆ r'.entries :=
  added_subset_of_offer? (r := .empty) h (Nat.zero_le _)

/-- Offering a slot that is reached continues a growth. -/
theorem Grows.offer? {c : Roster} (h : Grows store offered origin r c)
    (hoffer : Roster.offer? store c slot = some r') (horigin : slot.origin = origin)
    (hreached : Reached store offered (added r c) slot) : Grows store offered origin r r' := by
  obtain ⟨key, hkey, rfl⟩ := offer?_eq_some hoffer
  split
  · next hadmits =>
    refine h.push horigin hkey hreached fun hproxy => ?_
    unfold admits at hadmits
    rw [Bool.and_eq_true, horigin, hproxy] at hadmits
    simpa using hadmits.2
  · exact h

/-- A method that the type itself lists or reaches is there once it was offered. -/
theorem lists_of_offer? (h : offer? store r slot = some r') (horigin : slot.origin = .own) :
    r'.lists slot.member := by
  obtain ⟨key, -, rfl⟩ := offer?_eq_some h
  unfold admits
  rw [horigin]
  by_cases hlists : r.lists slot.member
  · simp only [hlists, Bool.not_true, Bool.false_and, Bool.false_eq_true, if_false]
  · have hnew : (key, slot) ∈ (r.push key slot).entries :=
      List.mem_append_right _ (List.mem_singleton_self _)
    simp only [hlists, Bool.not_false, decide_true, Bool.true_or, Bool.true_and, if_true]
    exact lists_iff.2 ⟨_, hnew, rfl⟩

/-- A member is pushed, and its accessors are offered after it. -/
theorem add?_eq_some (h : add? store origin r m = some r') :
    ∃ key d, store.identifier? m = some key ∧ store.member? m = some d ∧
      d.accessors.foldlM (fun r a => offer? store r ⟨.method a, origin, some m⟩)
        (r.push key ⟨m, origin, none⟩) = some r' := by
  obtain ⟨key, hkey, h⟩ := Option.bind_eq_some_iff.1 h
  obtain ⟨d, hd, h⟩ := Option.bind_eq_some_iff.1 h
  exact ⟨key, d, hkey, hd, h⟩

/-- Offering the accessors of a member that was just added continues a growth. -/
theorem Grows.accessors {c : Roster} {d : MemberDecl} {accessors : List MethodId}
    (h : Grows store offered origin r c) (hd : store.member? m = some d)
    (haccessors : accessors ⊆ d.accessors)
    (hm : ∃ entry ∈ added r c, entry.2 = ⟨m, origin, none⟩)
    (hoffer : accessors.foldlM (fun r a => Roster.offer? store r ⟨.method a, origin, some m⟩) c =
      some r') :
    Grows store offered origin r r' ∧ ∃ entry ∈ added r r', entry.2 = ⟨m, origin, none⟩ := by
  refine option_foldlM_induct (P := fun c => Grows store offered origin r c ∧
    ∃ entry ∈ added r c, entry.2 = ⟨m, origin, none⟩) hoffer ⟨h, hm⟩ ?_
  rintro a ha c' c'' ⟨hgrows, entry, hentry, heq⟩ hstep
  have hgrows' : Grows store offered origin r c'' :=
    hgrows.offer? hstep rfl ⟨⟨entry, hentry, heq⟩, d, hd, a, haccessors ha, rfl⟩
  exact ⟨hgrows', entry, added_subset_of_offer? hstep hgrows.length_le hentry, heq⟩

/-- Adding a member is a growth that lists the member. -/
theorem grows_of_add? (h : add? store origin r m = some r') (hm : m ∈ offered)
    (hfresh : origin = .proxy → ∀ key, store.identifier? m = some key → r.contains key = false) :
    Grows store offered origin r r' ∧ r'.lists m := by
  obtain ⟨key, d, hkey, hd, h⟩ := add?_eq_some h
  have hpush : Grows store offered origin r (r.push key ⟨m, origin, none⟩) :=
    Grows.refl.push rfl hkey hm fun horigin => hfresh horigin key hkey
  have hnew : (key, ⟨m, origin, none⟩) ∈ added r (r.push key ⟨m, origin, none⟩) := by
    rw [added_push (Nat.le_refl _)]
    exact List.mem_append_right _ (List.mem_singleton_self _)
  obtain ⟨hgrows, entry, hentry, heq⟩ :=
    hpush.accessors hd (List.Subset.refl _) ⟨_, hnew, rfl⟩ h
  exact ⟨hgrows, lists_iff.2 ⟨entry, List.mem_of_mem_drop hentry, by rw [heq]⟩⟩

/-- A member that the type itself lists brings all of its accessors with it. -/
theorem lists_accessors_of_add? (h : add? store .own r m = some r') {d : MemberDecl}
    (hd : store.member? m = some d) : ∀ a ∈ d.accessors, r'.lists (.method a) := by
  obtain ⟨key, d', -, hd', h⟩ := add?_eq_some h
  obtain rfl : d = d' := Option.some.inj (hd.symm.trans hd')
  refine (option_foldlM_forall h (P := fun _ => True) (Q := fun a c => c.lists (.method a))
    trivial ?_).2
  intro a _ c c' _ hoffer
  exact ⟨trivial, lists_of_offer? hoffer rfl, fun _ _ => lists_mono (subset_of_offer? hoffer)⟩

end Steps

/-! ## What a type lists itself -/

section Own

variable {t : TypeDecl} {r : Roster}

/-- A run of additions to the empty roster is a growth, by induction on the members. -/
theorem grows_of_members {members : List MemberId}
    (h : members.foldlM (add? store .own) .empty = some r) :
    Grows store members .own .empty r := by
  refine option_foldlM_induct (P := Grows store _ .own .empty) h .refl ?_
  intro m hm c c' hgrows hadd
  exact hgrows.trans (grows_of_add? hadd hm nofun).1

/-- The roster of the type's own members has grown from what the type lists. -/
theorem grows_of_ofType? (h : ofType? store t = some r) :
    Grows store (t.dataMembers ++ t.methods.map .method) .own .empty r := by
  obtain ⟨base, hbase, h⟩ := Option.bind_eq_some_iff.1 h
  have hdata : Grows store (t.dataMembers ++ t.methods.map .method) .own .empty base :=
    (grows_of_members hbase).mono (List.subset_append_left _ _)
  refine option_foldlM_induct (P := Grows store _ .own .empty) h hdata ?_
  intro a ha c c' hgrows hoffer
  exact hgrows.offer? hoffer rfl (List.mem_append_right _ (List.mem_map_of_mem ha))

theorem mem_withAccessors {o m : MemberId} : m ∈ store.withAccessors o ↔
    m = o ∨ ∃ d, store.member? o = some d ∧ ∃ a ∈ d.accessors, m = .method a := by
  unfold Store.withAccessors
  cases store.member? o with
  | none => simp
  | some d => simp [eq_comm]

theorem not_accessor_of_method {id : MethodId} {d : MemberDecl}
    (hd : store.member? (.method id) = some d) : d.accessors = [] := by
  obtain ⟨d', -, rfl⟩ := Option.map_eq_some_iff.1 hd
  rfl

/-- Every member that is added is listed with its accessors. -/
theorem lists_withAccessors {members : List MemberId} {base : Roster}
    (h : members.foldlM (add? store .own) .empty = some base) :
    ∀ o ∈ members, ∀ m ∈ store.withAccessors o, base.lists m := by
  refine (option_foldlM_forall h (P := fun _ => True)
    (Q := fun o c => ∀ m ∈ store.withAccessors o, c.lists m) trivial ?_).2
  intro o ho c c' _ hadd
  obtain ⟨hgrows, hlists⟩ := grows_of_add? hadd ho nofun
  refine ⟨trivial, fun m hm => ?_, fun _ _ hkept m hm => lists_mono hgrows.subset (hkept m hm)⟩
  rcases mem_withAccessors.1 hm with rfl | ⟨d, hd, a, ha, rfl⟩
  · exact hlists
  · exact lists_accessors_of_add? hadd hd a ha

theorem lists_methods {methods : List MethodId} {base : Roster}
    (h : methods.foldlM (fun r id => offer? store r ⟨.method id, .own, none⟩) base = some r) :
    (∀ m, base.lists m → r.lists m) ∧ ∀ id ∈ methods, r.lists (.method id) := by
  refine option_foldlM_forall h (P := fun c => ∀ m, base.lists m → c.lists m)
    (Q := fun id c => c.lists (.method id)) (fun _ hm => hm) ?_
  intro id _ c c' hbase hoffer
  have hsub := subset_of_offer? hoffer
  exact ⟨fun m hm => lists_mono hsub (hbase m hm), lists_of_offer? hoffer rfl,
    fun _ _ => lists_mono hsub⟩

/-- The roster of a type has the members that it lists, their accessors, and nothing else. -/
theorem lists_of_ofType? (h : ofType? store t = some r) (m : MemberId) :
    r.lists m ↔ m ∈ store.ownMembers t := by
  have hreached : ∀ entry ∈ r.entries, entry.2.origin = .own ∧
      Reached store (t.dataMembers ++ t.methods.map .method) r.entries entry.2 :=
    (grows_of_ofType? h).of_added
  unfold Store.ownMembers
  rw [List.mem_append, List.mem_flatMap]
  constructor
  · intro hlists
    obtain ⟨entry, hentry, rfl⟩ := lists_iff.1 hlists
    obtain ⟨horigin, hslot⟩ := hreached entry hentry
    unfold Reached at hslot
    cases haccessor : entry.2.accessorOf with
    | none =>
      rw [haccessor] at hslot
      rcases List.mem_append.1 hslot with hdata | hmethod
      · exact .inl ⟨_, hdata, mem_withAccessors.2 (.inl rfl)⟩
      · exact .inr hmethod
    | some o =>
      rw [haccessor] at hslot
      -- The owner of an accessor is listed itself, and not as a method: those have no accessors.
      obtain ⟨⟨owner, howner, heq⟩, d, hd, a, ha, hmember⟩ := hslot
      have ho := (hreached owner howner).2
      rw [heq] at ho
      rcases List.mem_append.1 (show o ∈ _ from ho) with hdata | hmethod
      · exact .inl ⟨o, hdata, mem_withAccessors.2 (.inr ⟨d, hd, a, ha, hmember⟩)⟩
      · obtain ⟨id, -, rfl⟩ := List.mem_map.1 hmethod
        rw [not_accessor_of_method hd] at ha
        exact absurd ha List.not_mem_nil
  · obtain ⟨base, hbase, hrest⟩ := Option.bind_eq_some_iff.1 h
    obtain ⟨hkept, hmethods⟩ := lists_methods hrest
    rintro (⟨o, ho, hm⟩ | hm)
    · exact hkept m (lists_withAccessors hbase o ho m hm)
    · obtain ⟨id, hid, rfl⟩ := List.mem_map.1 hm
      exact hmethods id hid

end Own

/-! ## What proxies contribute -/

section Contributed

variable {r r' : Roster}

/-- The table of a proxy has its members under their identifiers. -/
def Tabulated (store : Store) (p : Proxy) : Prop :=
  ∀ entry ∈ p.members.entries, store.identifier? entry.2 = some entry.1

/-- Whatever a proxy offers agrees with some slot afterwards. -/
theorem grows_of_contributeMember? {entry : Identifier × MemberId} {offered : List MemberId}
    (h : contributeMember? store r entry = some r') (hr : Sound store r)
    (hoffered : entry.2 ∈ offered) (hkey : store.identifier? entry.2 = some entry.1) :
    Grows store offered .proxy r r' ∧ r'.contains entry.1 := by
  unfold contributeMember? at h
  split at h
  · next hthere =>
    cases h
    refine ⟨.refl, ?_⟩
    rcases Bool.or_eq_true_iff.1 hthere with hcontains | hlists
    · exact hcontains
    -- A method that is there agrees with itself, so that the second test adds nothing.
    · exact hr.contains_of_lists ((Bool.and_eq_true_iff.1 hlists).2) hkey
  · next hnew =>
    have hfresh : r.contains entry.1 = false := by
      rw [Bool.or_eq_true_iff, not_or] at hnew
      exact Bool.not_eq_true _ ▸ hnew.1
    obtain ⟨hgrows, hlists⟩ := grows_of_add? h hoffered fun _ key hkey' => by
      rw [← Option.some.inj (hkey.symm.trans hkey')]
      exact hfresh
    exact ⟨hgrows, (hgrows.sound hr).contains_of_lists hlists hkey⟩

/-- A proxy adds what it offers, and each of its identifiers is in the roster afterwards. -/
theorem grows_of_contribute? {p : Proxy} (h : contribute? store r p = some r')
    (hr : Sound store r) (hp : Tabulated store p) :
    Grows store p.members.values .proxy r r' ∧
      ∀ entry ∈ p.members.entries, r'.contains entry.1 := by
  refine option_foldlM_forall h (P := Grows store p.members.values .proxy r)
    (Q := fun entry c => c.contains entry.1) .refl ?_
  intro entry hentry c c' hgrows hstep
  have hc := hgrows.sound hr
  have hoffered : entry.2 ∈ p.members.values := List.mem_map_of_mem hentry
  obtain ⟨hgrows', hcontains⟩ := grows_of_contributeMember? hstep hc hoffered (hp entry hentry)
  exact ⟨hgrows.trans hgrows', hcontains, fun _ _ hkept => hgrows'.contains hc hkept⟩

/-- Proxies contribute one after another. -/
theorem contributions {proxies : List Proxy} (h : proxies.foldlM (contribute? store) r = some r')
    (hr : Sound store r) (hproxies : ∀ p ∈ proxies, Tabulated store p) :
    Grows store (proxies.flatMap fun p => p.members.values) .proxy r r' ∧
    (∃ chunks, r'.entries = r.entries ++ chunks.flatten ∧
      List.Forall₂ (fun p chunk => ∀ entry ∈ chunk,
        entry.2.origin = .proxy ∧ Reached store p.members.values chunk entry.2) proxies chunks) ∧
    ∀ p ∈ proxies, ∀ entry ∈ p.members.entries, r'.contains entry.1 := by
  induction proxies generalizing r with
  | nil =>
    cases h
    exact ⟨.refl, ⟨[], (List.append_nil _).symm, .nil⟩, fun _ hp => absurd hp List.not_mem_nil⟩
  | cons p rest ih =>
    rw [List.foldlM_cons] at h
    obtain ⟨c, hstep, h⟩ := Option.bind_eq_some_iff.1 h
    obtain ⟨hgrows, hcontains⟩ := grows_of_contribute? hstep hr (hproxies p List.mem_cons_self)
    obtain ⟨hrest, ⟨chunks, heq, hchunks⟩, hrestContains⟩ :=
      ih h (hgrows.sound hr) fun q hq => hproxies q (List.mem_cons_of_mem _ hq)
    rw [List.flatMap_cons]
    refine ⟨(hgrows.mono (List.subset_append_left _ _)).trans
      (hrest.mono (List.subset_append_right _ _)),
      ⟨added r c :: chunks, ?_, .cons hgrows.of_added hchunks⟩, ?_⟩
    · rw [heq, hgrows.entries_eq, List.flatten_cons, List.append_assoc]
    · intro q hq entry hentry
      rcases List.mem_cons.1 hq with rfl | hq
      · exact hrest.contains (hgrows.sound hr) (hcontains entry hentry)
      · exact hrestContains q hq entry hentry

/-- What every member that proxies contribute preserves holds in the end; such a member agrees with
no slot when its turn comes. -/
theorem contribute_induct {P : Roster → Prop} {proxies : List Proxy}
    (h : proxies.foldlM (contribute? store) r = some r') (hr : Sound store r)
    (hproxies : ∀ p ∈ proxies, Tabulated store p) (hP : P r)
    (step : ∀ c m c' key, Sound store c → P c → store.identifier? m = some key →
      c.contains key = false → add? store .proxy c m = some c' → P c') : P r' := by
  have hinvariant : Sound store r' ∧ P r' := by
    refine option_foldlM_induct (P := fun c => Sound store c ∧ P c) h ⟨hr, hP⟩ ?_
    rintro p hp c c' hc hcontribute
    refine option_foldlM_induct (P := fun c => Sound store c ∧ P c) hcontribute hc ?_
    rintro entry hentry b b' ⟨hb, hPb⟩ hmember
    have hkey := hproxies p hp entry hentry
    have hoffered : entry.2 ∈ p.members.values := List.mem_map_of_mem hentry
    refine ⟨(grows_of_contributeMember? hmember hb hoffered hkey).1.sound hb, ?_⟩
    unfold contributeMember? at hmember
    split at hmember
    · cases hmember
      exact hPb
    · next hnew =>
      rw [Bool.or_eq_true_iff, not_or, Bool.not_eq_true] at hnew
      exact step b entry.2 b' entry.1 hb hPb hkey hnew.1 hmember
  exact hinvariant.2

/-- The roster of a type with its proxies starts with that of the type alone. -/
theorem build?_eq_some {t : TypeDecl} {proxies : List Proxy}
    (h : build? store t proxies = some r) (hproxies : ∀ p ∈ proxies, Tabulated store p) :
    ∃ base, ofType? store t = some base ∧ Sound store base ∧ Sound store r ∧
      FreshFrom base.size r ∧
      (∃ chunks, r.entries = base.entries ++ chunks.flatten ∧
        List.Forall₂ (fun p chunk => ∀ entry ∈ chunk,
          entry.2.origin = .proxy ∧ Reached store p.members.values chunk entry.2) proxies chunks) ∧
      ∀ p ∈ proxies, ∀ entry ∈ p.members.entries, r.contains entry.1 := by
  obtain ⟨base, hbase, h⟩ := Option.bind_eq_some_iff.1 h
  have hsound := (grows_of_ofType? hbase).sound sound_empty
  obtain ⟨hgrows, hchunks, hcontains⟩ := contributions h hsound hproxies
  exact ⟨base, hbase, hsound, hgrows.sound hsound, hgrows.fresh hsound, hchunks, hcontains⟩

theorem sound_of_build? {t : TypeDecl} {proxies : List Proxy}
    (h : build? store t proxies = some r) (hproxies : ∀ p ∈ proxies, Tabulated store p) :
    Sound store r := by
  obtain ⟨-, -, -, hsound, -⟩ := build?_eq_some h hproxies
  exact hsound

end Contributed

end Roster

end TypeModel
