/-!
# Dictionaries

A dictionary has one value under each of its keys and no order that a lookup could show. What an
operation does to it is said by the lookups after it (`Dictionary.get?_insert`,
`Dictionary.get?_insertIfNew`, `Dictionary.get?_erase`).
-/

namespace TypeModel

/-- Values under keys, at most one under each. -/
structure Dictionary (κ α : Type) where
  entries : List (κ × α)
  nodup : (entries.map Prod.fst).Nodup
  deriving DecidableEq

namespace Dictionary

variable {κ α : Type}

instance : EmptyCollection (Dictionary κ α) := ⟨⟨[], List.nodup_nil⟩⟩

instance : Inhabited (Dictionary κ α) := ⟨∅⟩

variable [DecidableEq κ]

/-- The value under a key. -/
def get? (d : Dictionary κ α) (key : κ) : Option α :=
  (d.entries.find? fun e => e.1 = key).map Prod.snd

/-- Takes a key out, with its value. -/
def erase (d : Dictionary κ α) (key : κ) : Dictionary κ α where
  entries := d.entries.eraseP fun e => e.1 = key
  nodup := d.nodup.sublist (d.entries.eraseP_sublist.map Prod.fst)

section Entries

variable {entries : List (κ × α)} {e : κ × α} {key probe : κ}

/-- Since one entry of the key was there at most, none is left when the first is gone. -/
theorem ne_of_mem_eraseP (hnodup : (entries.map Prod.fst).Nodup)
    (he : e ∈ entries.eraseP fun e => e.1 = key) : e.1 ≠ key := by
  induction entries with
  | nil => cases he
  | cons first rest ih =>
    obtain ⟨hfirst, hrest⟩ := List.nodup_cons.1 hnodup
    by_cases hkey : first.1 = key
    · rw [List.eraseP_cons_of_pos (by simpa using hkey)] at he
      intro heq
      exact hfirst (hkey.trans heq.symm ▸ List.mem_map_of_mem he)
    · rw [List.eraseP_cons_of_neg (by simpa using hkey)] at he
      rcases List.mem_cons.1 he with rfl | he
      · exact hkey
      · exact ih hrest he

/-- The entries of other keys are found as before. -/
theorem find?_eraseP_of_ne (hne : key ≠ probe) :
    (entries.eraseP fun e => e.1 = key).find? (fun e => e.1 = probe) =
      entries.find? fun e => e.1 = probe := by
  induction entries with
  | nil => rfl
  | cons first rest ih =>
    by_cases hkey : first.1 = key
    · rw [List.eraseP_cons_of_pos (by simpa using hkey),
        List.find?_cons_of_neg (by simpa [hkey] using hne)]
    · rw [List.eraseP_cons_of_neg (by simpa using hkey), List.find?_cons, List.find?_cons, ih]

end Entries

/-- Puts a value under a key, in the place of the one that was there. -/
def insert (d : Dictionary κ α) (key : κ) (value : α) : Dictionary κ α where
  entries := (key, value) :: (d.erase key).entries
  nodup := by
    refine List.nodup_cons.2 ⟨fun hmem => ?_, (d.erase key).nodup⟩
    obtain ⟨e, he, heq⟩ := List.mem_map.1 hmem
    exact ne_of_mem_eraseP d.nodup he heq

/-- Puts a value under a key that has none. -/
def insertIfNew (d : Dictionary κ α) (key : κ) (value : α) : Dictionary κ α :=
  if (d.get? key).isSome then d else d.insert key value

/-! ## What a lookup finds -/

variable (d : Dictionary κ α) (key probe : κ) (value : α)

theorem get?_erase : (d.erase key).get? probe = if key = probe then none else d.get? probe := by
  unfold get?
  split
  · next heq =>
    have hnone : (d.erase key).entries.find? (fun e => e.1 = probe) = none :=
      List.find?_eq_none.2 fun e he => by simpa [heq] using ne_of_mem_eraseP d.nodup he
    rw [hnone]
    rfl
  · next hne => exact congrArg (Option.map Prod.snd) (find?_eraseP_of_ne hne)

theorem get?_insert :
    (d.insert key value).get? probe = if key = probe then some value else d.get? probe := by
  split
  · next heq => simp [get?, insert, heq]
  · next hne =>
    have herased := get?_erase d key probe
    rw [if_neg hne] at herased
    rw [← herased, get?, get?, insert, List.find?_cons_of_neg (by simpa using hne)]

theorem get?_insertIfNew : (d.insertIfNew key value).get? probe =
    (d.get? probe).or (if key = probe then some value else none) := by
  unfold insertIfNew
  by_cases hkey : key = probe
  · subst hkey
    rw [if_pos rfl]
    cases hold : d.get? key with
    | some old => simp [hold]
    | none => simp [get?_insert]
  · rw [if_neg hkey, Option.or_none]
    split
    · rfl
    · rw [get?_insert, if_neg hkey]

/-- Putting one value under several keys. -/
theorem get?_foldl_insert (keys : List κ) :
    (keys.foldl (fun d k => d.insert k value) d).get? probe =
      if probe ∈ keys then some value else d.get? probe := by
  induction keys generalizing d with
  | nil => rfl
  | cons key rest ih =>
    rw [List.foldl_cons, ih, get?_insert]
    by_cases hrest : probe ∈ rest
    · simp [hrest]
    · simp [hrest, eq_comm]

theorem get?_foldl_insertIfNew (keys : List κ) :
    (keys.foldl (fun d k => d.insertIfNew k value) d).get? probe =
      (d.get? probe).or (if probe ∈ keys then some value else none) := by
  induction keys generalizing d with
  | nil => simp
  | cons key rest ih =>
    rw [List.foldl_cons, ih, get?_insertIfNew, Option.or_assoc]
    congr 1
    by_cases hkey : key = probe
    · simp [hkey]
    · simp [hkey, eq_comm (a := probe) (b := key)]

end Dictionary

end TypeModel
