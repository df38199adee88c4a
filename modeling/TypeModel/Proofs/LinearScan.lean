import TypeModel.Proofs.IdentifierMap

/-!
# A lookup is a linear scan

A map looks for a key among the entries of one shape only, by positions that were noted when the
entries were pushed. It finds what two scans over all entries would: the first for an entry
identical to the key and, if there is none, the second for an entry that agrees with it
(`IdentifierMap.Filed.position?_eq`). Agreement is not transitive, so no argument by classes of keys
is open; instead both relations determine the shape, and the slots of a shape stand in the order of
the entries. `IdentifierMap.lookup_is_linear_scan` says what follows for the lookups in a map that
pushes made, and for what one more push changes.
-/

namespace TypeModel.IdentifierMap

variable {α : Type}

/-- The position is the first whose entry has the property. -/
def FirstAt (P : Identifier → Prop) (entries : List (Identifier × α)) (i : Nat) : Prop :=
  ∃ e, entries[i]? = some e ∧ P e.1 ∧ ∀ j < i, ∀ e', entries[j]? = some e' → ¬P e'.1

/-! ## Scanning slots and scanning entries -/

section Scan

variable {m : IdentifierMap α} {key : Identifier}

/-- Positions found in a numbered list are those found in the list. -/
theorem find?_zipIdx (keys : List Identifier) (p : Identifier → Bool) (n : Nat) :
    ((keys.zipIdx n).find? fun x => p x.1).map Prod.snd = (keys.findIdx? p).map (· + n) := by
  induction keys generalizing n with
  | nil => rfl
  | cons k rest ih =>
    rw [List.zipIdx_cons, List.findIdx?_cons]
    by_cases hk : p k
    · simp [hk]
    · have hshift : (fun i => i + (n + 1)) = (fun i => i + n) ∘ (fun i => i + 1) := by
        funext i
        simp only [Function.comp_apply]
        omega
      rw [List.find?_cons_of_neg (by simpa using hk), ih (n + 1), if_neg hk, Option.map_map, hshift]

/-- The slots stand in the order of the entries. -/
theorem find?_slots (m : IdentifierMap α) (p : Identifier → Bool) :
    (m.slots.find? fun slot => p slot.2).map Prod.fst = m.entries.findIdx? fun e => p e.1 := by
  have hzip := find?_zipIdx m.keys p 0
  have hkeys : m.keys.findIdx? p = m.entries.findIdx? fun e => p e.1 := by
    unfold keys
    rw [List.findIdx?_map]
    rfl
  have hzero : (m.keys.findIdx? p).map (· + 0) = m.keys.findIdx? p := Option.map_id'
  unfold slots
  rw [List.find?_map, Option.map_map, ← hkeys, ← hzero, ← hzip]
  rfl

/-- A property that determines the shape is found among the candidates if it is found at all. -/
theorem Filed.find?_candidates (h : m.Filed) (p : Identifier → Bool)
    (hshape : ∀ k, p k = true → k.shape = key.shape) :
    ((m.candidates key).find? fun slot => p slot.2).map Prod.fst =
      m.entries.findIdx? fun e => p e.1 := by
  have hsame : (fun slot : Nat × Identifier =>
      decide (decide (slot.2.shape = key.shape) = true ∧ p slot.2 = true)) =
      fun slot => p slot.2 := by
    funext slot
    cases hp : p slot.2 with
    | false => simp
    | true => simp [hshape slot.2 hp]
  rw [h key, List.find?_filter, hsame, find?_slots]

/-- The candidates lose nothing of what either scan would find. -/
theorem Filed.position?_eq (h : m.Filed) (key : Identifier) :
    m.position? key = (m.entries.findIdx? fun e => decide (e.1 = key)).or
      (m.entries.findIdx? fun e => e.1.agrees key) := by
  have hidentical := h.find?_candidates (fun k => decide (k = key)) fun k hk =>
    congrArg Identifier.shape (of_decide_eq_true hk)
  have hagrees := h.find?_candidates (fun k => k.agrees key) fun k hk =>
    Identifier.shape_eq_of_agrees hk
  unfold position?
  rw [Option.map_or, hidentical, hagrees]

end Scan

/-! ## What the scans find -/

section Found

variable (entries : List (Identifier × α)) (p : Identifier → Bool)

theorem findIdx?_eq_some_iff_firstAt (i : Nat) :
    (entries.findIdx? fun e => p e.1) = some i ↔ FirstAt (fun k => p k = true) entries i := by
  rw [List.findIdx?_eq_some_iff_getElem]
  constructor
  · rintro ⟨hi, hp, hbefore⟩
    refine ⟨entries[i], List.getElem?_eq_getElem hi, hp, ?_⟩
    intro j hj e' he'
    obtain ⟨hlt, rfl⟩ := List.getElem?_eq_some_iff.1 he'
    exact hbefore j hj
  · rintro ⟨e, he, hp, hbefore⟩
    obtain ⟨hi, rfl⟩ := List.getElem?_eq_some_iff.1 he
    refine ⟨hi, hp, ?_⟩
    intro j hj
    exact hbefore j hj entries[j] (List.getElem?_eq_getElem (by omega))

theorem findIdx?_eq_none_iff_forall :
    (entries.findIdx? fun e => p e.1) = none ↔ ∀ e ∈ entries, p e.1 = false :=
  List.findIdx?_eq_none_iff

end Found

section Lookup

variable {m : IdentifierMap α} {key : Identifier}

/-- A lookup finds the first identical entry, or if there is none the first that agrees. -/
theorem Filed.position?_eq_some_iff (h : m.Filed) {i : Nat} :
    m.position? key = some i ↔ FirstAt (fun k => k = key) m.entries i ∨
      (∀ e ∈ m.entries, e.1 ≠ key) ∧ FirstAt (fun k => k.agrees key = true) m.entries i := by
  have hidentical := findIdx?_eq_some_iff_firstAt m.entries (fun k => decide (k = key)) i
  have hnone := findIdx?_eq_none_iff_forall m.entries fun k => decide (k = key)
  have hagrees := findIdx?_eq_some_iff_firstAt m.entries (fun k => k.agrees key) i
  simp only [decide_eq_true_eq] at hidentical
  simp only [decide_eq_false_iff_not] at hnone
  rw [h.position?_eq key, Option.or_eq_some_iff, hidentical, hnone, hagrees]

/-- A lookup finds nothing exactly if no entry agrees with the key. -/
theorem Filed.position?_eq_none_iff (h : m.Filed) :
    m.position? key = none ↔ ∀ e ∈ m.entries, e.1.agrees key = false := by
  constructor
  · intro hnone e he
    exact h.position?_eq_none hnone he
  · intro hall
    cases hi : m.position? key with
    | none => rfl
    | some i =>
      obtain ⟨e, he, hagrees⟩ := h.position?_eq_some hi
      rw [hall e (List.mem_of_getElem? he)] at hagrees
      cases hagrees

/-- The value is that of the entry at the position found. -/
theorem Filed.get?_of_position? (h : m.Filed) {i : Nat} (hi : m.position? key = some i) :
    ∃ e, m.entries[i]? = some e ∧ m.get? key = some e.2 := by
  obtain ⟨e, he, -⟩ := h.position?_eq_some hi
  exact ⟨e, he, Option.bind_eq_some_iff.2 ⟨i, hi, Option.bind_eq_some_iff.2 ⟨e, he, rfl⟩⟩⟩

end Lookup

/-! ## One more push -/

section Push

variable {m : IdentifierMap α} {key probe : Identifier} {value : α}

theorem Filed.lt_size_of_position? (h : m.Filed) {i : Nat} (hi : m.position? probe = some i) :
    i < m.size := by
  obtain ⟨e, he, -⟩ := h.position?_eq_some hi
  exact (List.getElem?_eq_some_iff.1 he).1

/-- The new entry is found if it is the first one identical to the key, or the first one that
agrees with it; otherwise a lookup finds what it found before. -/
theorem Filed.position?_push (h : m.Filed) (key : Identifier) (value : α) (probe : Identifier) :
    (m.push key value).position? probe =
      if (∀ e ∈ m.entries, e.1 ≠ probe) ∧
        (key = probe ∨ m.position? probe = none ∧ key.agrees probe = true)
      then some m.size else m.position? probe := by
  have hnone := findIdx?_eq_none_iff_forall m.entries fun k => decide (k = probe)
  simp only [decide_eq_false_iff_not] at hnone
  rw [(h.push key value).position?_eq probe, h.position?_eq probe, entries_push,
    List.findIdx?_append, List.findIdx?_append]
  simp only [ne_eq, ← hnone]
  -- Only whether each of the two scans over the old entries finds something matters from here on.
  generalize (m.entries.findIdx? fun e => decide (e.1 = probe)) = identical
  generalize (m.entries.findIdx? fun e => e.1.agrees probe) = agreeing
  have hsize : m.entries.length = m.size := rfl
  cases identical with
  | some i => simp
  | none =>
    cases agreeing with
    | some i => by_cases hkey : key = probe <;> simp [hkey, hsize]
    | none =>
      by_cases hkey : key = probe
      · simp [hkey, hsize]
      · by_cases hagrees : key.agrees probe = true <;> simp [hkey, hagrees, hsize]

theorem Filed.get?_push_of_position? (h : m.Filed)
    (heq : (m.push key value).position? probe = m.position? probe) :
    (m.push key value).get? probe = m.get? probe := by
  cases hi : m.position? probe with
  | none =>
    unfold get?
    rw [heq, hi]
    rfl
  | some i =>
    obtain ⟨e, he, hget⟩ := h.get?_of_position? hi
    obtain ⟨e', he', hget'⟩ := (h.push key value).get?_of_position? (heq.trans hi)
    have hlt : i < m.entries.length := h.lt_size_of_position? hi
    rw [entries_push, List.getElem?_append_left hlt, he] at he'
    rw [hget, hget', Option.some.inj he']

end Push

/-! ## Maps made by pushes -/

/-- Whatever is pushed, a lookup finds the first entry identical to the key or, if there is none,
the first that agrees with it. One more push changes nothing for a key to which an entry is
identical; it can change what is found for another only to the new entry, either from nothing or
because the new entry is identical to the key. -/
theorem lookup_is_linear_scan (entries : List (Identifier × α)) :
    let m := ofList entries
    m.entries = entries ∧ m.values = entries.map Prod.snd ∧
    (∀ key i, m.position? key = some i ↔ FirstAt (fun k => k = key) entries i ∨
      (∀ e ∈ entries, e.1 ≠ key) ∧ FirstAt (fun k => k.agrees key = true) entries i) ∧
    (∀ key, m.position? key = none ↔ ∀ e ∈ entries, e.1.agrees key = false) ∧
    (∀ key, m.contains key = true ↔ ∃ e ∈ entries, e.1.agrees key = true) ∧
    (∀ key, m.get? key = (m.position? key).bind fun i => entries[i]?.map Prod.snd) ∧
    (∀ key i, m.position? key = some i → ∃ e, entries[i]? = some e ∧ m.get? key = some e.2) ∧
    ∀ key value probe, let m' := m.push key value
      ((∃ e ∈ entries, e.1 = probe) →
        m'.position? probe = m.position? probe ∧ m'.get? probe = m.get? probe) ∧
      (m'.position? probe = m.position? probe ∧ m'.get? probe = m.get? probe ∨
        m'.position? probe = some entries.length ∧ m'.get? probe = some value ∧
          (m.position? probe = none ∧ key.agrees probe = true ∨ key = probe)) := by
  intro m
  have hm : m.Filed := filed_ofList entries
  have hentries : m.entries = entries := entries_ofList entries
  have hfound : ∀ key i, m.position? key = some i →
      ∃ e, entries[i]? = some e ∧ m.get? key = some e.2 := by
    intro key i hi
    rw [← hentries]
    exact hm.get?_of_position? hi
  refine ⟨hentries, congrArg (List.map Prod.snd) hentries, ?_, ?_, ?_, ?_, hfound, ?_⟩
  · intro key i
    rw [hm.position?_eq_some_iff, hentries]
  · intro key
    rw [hm.position?_eq_none_iff, hentries]
  · intro key
    rw [hm.contains_iff, hentries]
  · intro key
    cases hi : m.position? key with
    | none =>
      unfold get?
      rw [hi]
      rfl
    | some i =>
      obtain ⟨e, he, hget⟩ := hfound key i hi
      rw [hget, Option.bind_some, he, Option.map_some]
  · intro key value probe m'
    have hposition := hm.position?_push key value probe
    rw [hentries] at hposition
    have hkept : m'.position? probe = m.position? probe →
        m'.position? probe = m.position? probe ∧ m'.get? probe = m.get? probe :=
      fun heq => ⟨heq, hm.get?_push_of_position? heq⟩
    constructor
    · rintro ⟨e, he, hidentical⟩
      apply hkept
      rw [if_neg fun hnew => hnew.1 e he hidentical] at hposition
      exact hposition
    · split at hposition
      · next hnew =>
        right
        have hsize : m.size = entries.length := congrArg List.length hentries
        rw [hsize] at hposition
        obtain ⟨e, he, hget⟩ := (hm.push key value).get?_of_position? hposition
        rw [entries_push, hentries, List.getElem?_append_right (Nat.le_refl _), Nat.sub_self] at he
        obtain rfl : (key, value) = e := Option.some.inj he
        exact ⟨hposition, hget, hnew.2.symm⟩
      · exact .inl (hkept hposition)

/-- An entry that stands first and agrees with a key gives way to one that is identical to it. -/
theorem identical_entry_is_preferred :
    let run (s : Signature) : Identifier := ⟨.method, "Run", .void, some [s]⟩
    let generic := run (.param .method 0 "T")
    let int := run (.plain "System.Int32")
    let text := run (.plain "System.String")
    let m := ofList [(generic, "generic"), (int, "int")]
    m.position? int = some 1 ∧ m.position? text = some 0 ∧
      (m.push text "text").position? text = some 2 ∧
      (m.push text "text").get? int = m.get? int := by
  intro run generic int text m
  obtain ⟨-, -, hposition, -, -, -, -, hpush⟩ :=
    lookup_is_linear_scan [(generic, "generic"), (int, "int")]
  have hint : FirstAt (fun k => k = int) [(generic, "generic"), (int, "int")] 1 :=
    ⟨(int, "int"), rfl, rfl, by decide⟩
  have htext : FirstAt (fun k => k.agrees text = true) [(generic, "generic"), (int, "int")] 0 :=
    ⟨(generic, "generic"), rfl, rfl, by decide⟩
  refine ⟨(hposition int 1).2 (.inl hint), (hposition text 0).2 (.inr ⟨by decide, htext⟩), ?_, ?_⟩
  · obtain ⟨hkept, -⟩ | ⟨hnew, -, -⟩ := (hpush text "text" text).2
    · exact absurd hkept (by decide)
    · exact hnew
  · exact ((hpush text "text" int).1 ⟨(int, "int"), .tail _ (.head _), rfl⟩).2

end TypeModel.IdentifierMap
