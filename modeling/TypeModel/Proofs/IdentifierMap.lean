import Mathlib.Data.List.Induction
import TypeModel.IdentifierMap
import TypeModel.Proofs.Traversal

/-!
# Lookup in maps keyed by identifier

A lookup looks at the entries of one shape only. As long as every entry is filed in the bucket of
its shape (`Filed`), this loses nothing: a lookup finds something exactly if some entry agrees with
the key (`Filed.contains_iff`), and it finds the value of such an entry (`Filed.get?_eq_some`).
Pushing an entry and replacing all values keep entries filed.
-/

namespace TypeModel.IdentifierMap

variable {α β : Type}

/-- The identifiers of the entries, in order. -/
def keys (m : IdentifierMap α) : List Identifier :=
  m.entries.map Prod.fst

/-- The positions of the entries with their identifiers. -/
def slots (m : IdentifierMap α) : List (Nat × Identifier) :=
  m.keys.zipIdx.map Prod.swap

/-- The candidates for a key are the slots of the entries of its shape. -/
def Filed (m : IdentifierMap α) : Prop :=
  ∀ key : Identifier, m.candidates key = m.slots.filter fun slot => slot.2.shape = key.shape

theorem slots_push (m : IdentifierMap α) (key : Identifier) (value : α) :
    (m.push key value).slots = m.slots ++ [(m.size, key)] := by
  unfold slots keys size
  rw [entries_push, List.map_append, List.zipIdx_append, List.map_append, Nat.zero_add,
    List.length_map]
  rfl

theorem mem_slots {m : IdentifierMap α} {i : Nat} {key : Identifier} :
    (i, key) ∈ m.slots ↔ ∃ value, m.entries[i]? = some (key, value) := by
  have hkeys : (i, key) ∈ m.slots ↔ m.keys[i]? = some key := by
    unfold slots
    rw [List.mem_map]
    constructor
    · rintro ⟨⟨k, j⟩, hmem, heq⟩
      cases heq
      exact List.mem_zipIdx_iff_getElem?.1 hmem
    · intro h
      exact ⟨(key, i), List.mem_zipIdx_iff_getElem?.2 h, rfl⟩
  rw [hkeys, keys, List.getElem?_map, Option.map_eq_some_iff]
  constructor
  · rintro ⟨⟨k, value⟩, h, rfl⟩
    exact ⟨value, h⟩
  · rintro ⟨value, h⟩
    exact ⟨(key, value), h, rfl⟩

theorem filed_empty : (empty : IdentifierMap α).Filed :=
  fun _ => rfl

/-- The slot of a new entry gets into the bucket of its shape, so that a map stays filed. -/
theorem Filed.push {m : IdentifierMap α} (h : m.Filed) (key : Identifier) (value : α) :
    (m.push key value).Filed := by
  intro probe
  rw [candidates_push, slots_push, List.filter_append, h probe]
  by_cases hshape : key.shape = probe.shape
  · simp [hshape]
  · simp [hshape]

/-! ## Maps made by pushes -/

/-- The map made by pushing entries one after another. -/
def ofList (entries : List (Identifier × α)) : IdentifierMap α :=
  entries.foldl (fun m e => m.push e.1 e.2) empty

theorem ofList_append_singleton (entries : List (Identifier × α)) (e : Identifier × α) :
    ofList (entries ++ [e]) = (ofList entries).push e.1 e.2 :=
  List.foldl_append

/-- A map made by pushes has just the entries pushed, in order. -/
theorem entries_ofList (entries : List (Identifier × α)) : (ofList entries).entries = entries := by
  induction entries using List.reverseRecOn with
  | nil => rfl
  | append_singleton entries e ih => rw [ofList_append_singleton, entries_push, ih]

/-- Every map made by pushes is filed. -/
theorem filed_ofList (entries : List (Identifier × α)) : (ofList entries).Filed := by
  induction entries using List.reverseRecOn with
  | nil => exact filed_empty
  | append_singleton entries e ih =>
    rw [ofList_append_singleton]
    exact ih.push e.1 e.2

/-! ## What a lookup finds -/

section Lookup

variable {m : IdentifierMap α}

/-- The candidates for a key are the entries of its shape. -/
theorem Filed.mem_candidates (h : m.Filed) {key : Identifier} {i : Nat} {k : Identifier} :
    (i, k) ∈ m.candidates key ↔ (∃ value, m.entries[i]? = some (k, value)) ∧
      k.shape = key.shape := by
  rw [h key, List.mem_filter, mem_slots, decide_eq_true_eq]

/-- A lookup stops at an entry that agrees with the key. -/
theorem Filed.position?_eq_some (h : m.Filed) {key : Identifier} {i : Nat}
    (hi : m.position? key = some i) :
    ∃ entry, m.entries[i]? = some entry ∧ entry.1.agrees key := by
  obtain ⟨⟨i', k⟩, hslot, rfl⟩ := Option.map_eq_some_iff.1 hi
  rcases Option.or_eq_some_iff.1 hslot with hslot | ⟨-, hslot⟩
  · obtain ⟨⟨value, hentry⟩, -⟩ := h.mem_candidates.1 (List.mem_of_find?_eq_some hslot)
    have hk : k = key := by simpa using List.find?_some hslot
    refine ⟨(k, value), hentry, ?_⟩
    rw [hk]
    exact Identifier.agrees_refl key
  · obtain ⟨⟨value, hentry⟩, -⟩ := h.mem_candidates.1 (List.mem_of_find?_eq_some hslot)
    have hagrees : k.agrees key = true := by simpa using List.find?_some hslot
    exact ⟨(k, value), hentry, hagrees⟩

/-- A lookup that finds nothing has missed no entry that agrees. -/
theorem Filed.position?_eq_none (h : m.Filed) {key : Identifier} (hnone : m.position? key = none)
    {entry : Identifier × α} (hentry : entry ∈ m.entries) : entry.1.agrees key = false := by
  obtain ⟨i, hi⟩ := List.mem_iff_getElem?.1 hentry
  unfold position? at hnone
  rw [Option.map_eq_none_iff, Option.or_eq_none_iff, List.find?_eq_none,
    List.find?_eq_none] at hnone
  by_contra hagrees
  have hagrees : entry.1.agrees key = true := by simpa using hagrees
  have hcandidate : (i, entry.1) ∈ m.candidates key :=
    h.mem_candidates.2 ⟨⟨entry.2, hi⟩, Identifier.shape_eq_of_agrees hagrees⟩
  exact hnone.2 _ hcandidate hagrees

/-- The shortcut by shape loses nothing. -/
theorem Filed.contains_iff (h : m.Filed) (key : Identifier) :
    m.contains key ↔ ∃ entry ∈ m.entries, entry.1.agrees key := by
  unfold contains
  constructor
  · intro hsome
    obtain ⟨i, hi⟩ := Option.isSome_iff_exists.1 hsome
    obtain ⟨entry, hentry, hagrees⟩ := h.position?_eq_some hi
    exact ⟨entry, List.mem_of_getElem? hentry, hagrees⟩
  · rintro ⟨entry, hentry, hagrees⟩
    rw [Option.isSome_iff_ne_none]
    intro hnone
    rw [h.position?_eq_none hnone hentry] at hagrees
    cases hagrees

theorem Filed.contains_eq_false_iff (h : m.Filed) (key : Identifier) :
    m.contains key = false ↔ ∀ entry ∈ m.entries, entry.1.agrees key = false := by
  rw [← Bool.not_eq_true, h.contains_iff]
  simp

/-- What a lookup finds is the value of an entry that agrees with the key. -/
theorem Filed.get?_eq_some (h : m.Filed) {key : Identifier} {value : α}
    (hget : m.get? key = some value) :
    ∃ entry ∈ m.entries, entry.1.agrees key ∧ entry.2 = value := by
  obtain ⟨i, hi, hget⟩ := Option.bind_eq_some_iff.1 hget
  obtain ⟨entry, hentry, hget⟩ := Option.bind_eq_some_iff.1 hget
  obtain ⟨entry', hentry', hagrees⟩ := h.position?_eq_some hi
  rw [hentry] at hentry'
  cases hentry'
  exact ⟨entry, List.mem_of_getElem? hentry, hagrees, Option.some.inj hget⟩

/-- A lookup finds a value of the map, filed or not. -/
theorem mem_values_of_get? {key : Identifier} {value : α} (h : m.get? key = some value) :
    value ∈ m.values := by
  obtain ⟨i, -, h⟩ := Option.bind_eq_some_iff.1 h
  obtain ⟨entry, hentry, h⟩ := Option.bind_eq_some_iff.1 h
  cases h
  exact List.mem_map_of_mem (List.mem_of_getElem? hentry)

theorem Filed.exists_get? (h : m.Filed) {key : Identifier} (hkey : m.contains key) :
    ∃ value, m.get? key = some value := by
  obtain ⟨i, hi⟩ := Option.isSome_iff_exists.1 hkey
  obtain ⟨entry, hentry, -⟩ := h.position?_eq_some hi
  exact ⟨entry.2, Option.bind_eq_some_iff.2
    ⟨i, hi, Option.bind_eq_some_iff.2 ⟨entry, hentry, rfl⟩⟩⟩

end Lookup

/-! ## Replacing all values -/

/-- The second map arises from the first by replacing each value by one related to it, under the
same identifier. -/
structure Replaces (R : α → β → Prop) (m : IdentifierMap α) (m' : IdentifierMap β) : Prop where
  buckets_eq : m'.buckets = m.buckets
  entries : List.Forall₂ (fun e e' => e'.1 = e.1 ∧ R e.2 e'.2) m.entries m'.entries

section Replaces

variable {γ ε : Type} {m : IdentifierMap α} {m' : IdentifierMap β} {R : α → β → Prop}

/-- Where all values can be worked out, they come under the same identifiers. -/
theorem replaces_of_option_mapM {f : α → Option β}
    (h : m.mapM (fun _ value => f value) = some m') :
    Replaces (fun a b => f a = some b) m m' := by
  obtain ⟨entries, hentries, h⟩ := Option.bind_eq_some_iff.1 h
  cases h
  refine ⟨rfl, (option_mapM_eq_some.1 hentries).imp fun e e' he => ?_⟩
  obtain ⟨value, hvalue, he⟩ := Option.bind_eq_some_iff.1 he
  cases he
  exact ⟨rfl, hvalue⟩

/-- Where no value is an error, they come under the same identifiers. -/
theorem replaces_of_except_mapM {f : α → Except ε β}
    (h : m.mapM (fun _ value => f value) = .ok m') :
    Replaces (fun a b => f a = .ok b) m m' := by
  obtain ⟨entries, hentries, h⟩ := except_bind_eq_ok.1 h
  cases h
  refine ⟨rfl, (except_mapM_eq_ok.1 hentries).imp fun e e' he => ?_⟩
  obtain ⟨value, hvalue, he⟩ := except_bind_eq_ok.1 he
  cases he
  exact ⟨rfl, hvalue⟩

/-- Whether entries are filed depends on their identifiers only. -/
theorem Filed.replaces (h : m.Filed) (hreplaces : Replaces R m m') : m'.Filed := by
  intro key
  have hcandidates : m'.candidates key = m.candidates key := by
    unfold candidates
    rw [hreplaces.buckets_eq]
  have hslots : m'.slots = m.slots := by
    unfold slots keys
    rw [map_eq_of_forall₂ hreplaces.entries fun e e' he => he.1]
  rw [hcandidates, hslots, h key]

theorem Replaces.trans {m'' : IdentifierMap γ} {S : β → γ → Prop} (h : Replaces R m m')
    (h' : Replaces S m' m'') : Replaces (fun a c => ∃ b, R a b ∧ S b c) m m'' := by
  refine ⟨h'.buckets_eq.trans h.buckets_eq, ?_⟩
  have hcomp : ∀ {es : List (Identifier × α)} {es' : List (Identifier × β)}
      {es'' : List (Identifier × γ)},
      List.Forall₂ (fun e e' => e'.1 = e.1 ∧ R e.2 e'.2) es es' →
      List.Forall₂ (fun e e' => e'.1 = e.1 ∧ S e.2 e'.2) es' es'' →
      List.Forall₂ (fun e e' => e'.1 = e.1 ∧ ∃ b, R e.2 b ∧ S b e'.2) es es'' := by
    intro es es' es'' hR hS
    induction hR generalizing es'' with
    | nil =>
      cases hS
      exact .nil
    | cons hhead _ ih =>
      cases hS with
      | cons hhead' htail' =>
        exact .cons ⟨hhead'.1.trans hhead.1, _, hhead.2, hhead'.2⟩ (ih htail')
  exact hcomp h.entries h'.entries

end Replaces

end TypeModel.IdentifierMap
