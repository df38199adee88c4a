import TypeModel.Catalog.Memo

/-!
# What a memo remembers

Entering a question changes no remembered answer, and filling a cell changes the answer to its own
question and to no other. A question keeps its one cell for good.
-/

namespace TypeModel.Memo

variable {κ α : Type} [DecidableEq κ]

theorem find?_nil (key : κ) : (⟨[]⟩ : Memo κ α).find? key = none := rfl

theorem find?_cons (cell : κ × Option (Answer α)) (rest : List (κ × Option (Answer α))) (key : κ) :
    (⟨cell :: rest⟩ : Memo κ α).find? key =
      if cell.1 = key then cell.2 else (⟨rest⟩ : Memo κ α).find? key := by
  unfold find?
  by_cases h : cell.1 = key
  · rw [if_pos h, List.find?_cons_of_pos (by simpa using h)]
    rfl
  · rw [if_neg h, List.find?_cons_of_neg (by simpa using h)]

variable (m : Memo κ α) (key : κ)

/-- What has an answer has been asked for. -/
theorem mem_asked_of_find? {answer : Answer α} (h : m.find? key = some answer) :
    key ∈ m.asked := by
  obtain ⟨cells⟩ := m
  induction cells with
  | nil => cases h
  | cons cell rest ih =>
    rw [find?_cons] at h
    split at h
    · next heq => exact List.mem_cons.2 (.inl heq.symm)
    · exact List.mem_cons_of_mem _ (ih h)

/-! ## Entering a question -/

theorem mem_asked_enter (key' : κ) :
    key' ∈ (m.enter key).asked ↔ key' ∈ m.asked ∨ key' = key := by
  unfold enter
  split
  · next h =>
    refine ⟨.inl, ?_⟩
    rintro (h' | rfl)
    · exact h'
    · exact h
  · simp [asked]

/-- No cell is entered twice. -/
theorem nodup_asked_enter (h : m.asked.Nodup) : (m.enter key).asked.Nodup := by
  unfold enter
  split
  · exact h
  · next hnew =>
    have hasked : (⟨m.cells ++ [(key, none)]⟩ : Memo κ α).asked = m.asked ++ [key] :=
      List.map_append
    rw [hasked]
    refine List.nodup_append.2 ⟨h, by simp, fun a ha b hb heq => hnew ?_⟩
    rw [← List.mem_singleton.1 hb, ← heq]
    exact ha

/-- The cell that a question may get is empty. -/
@[simp] theorem find?_enter (key' : κ) : (m.enter key).find? key' = m.find? key' := by
  unfold enter
  split
  · rfl
  · obtain ⟨cells⟩ := m
    induction cells with
    | nil =>
      show (⟨[(key, none)]⟩ : Memo κ α).find? key' = none
      rw [find?_cons, find?_nil]
      exact ite_self _
    | cons cell rest ih =>
      show (⟨cell :: (rest ++ [(key, none)])⟩ : Memo κ α).find? key' = _
      rw [find?_cons, find?_cons]
      split
      · rfl
      · next hne hnew _ => exact ih fun h => hnew (List.mem_cons_of_mem _ h)

/-! ## Filling a cell -/

section Fill

variable (answer : Answer α)

@[simp] theorem asked_fill : (m.fill key answer).asked = m.asked := by
  unfold fill asked
  rw [List.map_map]
  refine List.map_congr_left fun cell _ => ?_
  by_cases h : cell.1 = key
  · simp [h]
  · simp [h]

theorem fill_cons (cell : κ × Option (Answer α)) (rest : List (κ × Option (Answer α))) :
    (⟨cell :: rest⟩ : Memo κ α).fill key answer =
      ⟨(if cell.1 = key then (key, some answer) else cell) ::
        ((⟨rest⟩ : Memo κ α).fill key answer).cells⟩ := rfl

theorem find?_fill_of_ne {key' : κ} (h : key' ≠ key) :
    (m.fill key answer).find? key' = m.find? key' := by
  obtain ⟨cells⟩ := m
  induction cells with
  | nil => rfl
  | cons cell rest ih =>
    rw [fill_cons, find?_cons, find?_cons]
    by_cases hk : cell.1 = key
    · have hne : cell.1 ≠ key' := fun heq => h (heq.symm.trans hk)
      rw [if_pos hk, if_neg (Ne.symm h), if_neg hne]
      exact ih
    · rw [if_neg hk]
      split
      · rfl
      · exact ih

theorem find?_fill_self (h : key ∈ m.asked) :
    (m.fill key answer).find? key = some answer := by
  obtain ⟨cells⟩ := m
  induction cells with
  | nil => exact absurd h List.not_mem_nil
  | cons cell rest ih =>
    rw [fill_cons, find?_cons]
    by_cases hk : cell.1 = key
    · rw [if_pos hk, if_pos rfl]
    · rw [if_neg hk, if_neg hk]
      exact ih ((List.mem_cons.1 h).resolve_left (Ne.symm hk))

/-- An answer found after a cell was filled is the new one or an old one of another cell. -/
theorem mem_of_find?_fill {key' : κ} {answer' : Answer α}
    (h : (m.fill key answer).find? key' = some answer') :
    key' = key ∧ answer' = answer ∨ key' ≠ key ∧ m.find? key' = some answer' := by
  by_cases hk : key' = key
  · subst hk
    have hmem : key' ∈ m.asked := by
      rw [← asked_fill m key' answer]
      exact mem_asked_of_find? _ _ h
    rw [find?_fill_self m key' answer hmem] at h
    exact .inl ⟨rfl, (Option.some.inj h).symm⟩
  · rw [find?_fill_of_ne m key answer hk] at h
    exact .inr ⟨hk, h⟩

end Fill

/-! ## Memos of a function -/

/-- Every remembered answer is the value of the function. -/
def Holds (m : Memo κ α) (f : κ → Answer α) : Prop :=
  ∀ key answer, m.find? key = some answer → answer = f key

variable {m key} {f f' : κ → Answer α}

theorem holds_empty : ({} : Memo κ α).Holds f := nofun

/-- A cell that is entered has no answer yet. -/
theorem Holds.enter (h : m.Holds f) (key : κ) : (m.enter key).Holds f := by
  intro key' answer hfind
  rw [find?_enter] at hfind
  exact h key' answer hfind

/-- One answer may be replaced if the function changes with it. -/
theorem Holds.fill (h : m.Holds f) (hf : ∀ key', key' ≠ key → f' key' = f key') :
    (m.fill key (f' key)).Holds f' := by
  intro key' answer hfind
  rcases mem_of_find?_fill m key (f' key) hfind with ⟨rfl, rfl⟩ | ⟨hne, hfind⟩
  · rfl
  · rw [hf key' hne]
    exact h key' answer hfind

end TypeModel.Memo
