import Mathlib.Data.List.Induction
import Mathlib.Data.List.Nodup
import TypeModel.Metadata

/-!
# First occurrences

A list that takes in elements one after another, each unless it holds it already, ends as the list
of first occurrences (`foldl_appendNew_nil`). It has no repetitions, and its elements come in the
order in which they first occurred (`pairwise_eraseDups`).
-/

namespace TypeModel

/-! ## Appending what is new -/

section AppendNew

variable {α : Type} [DecidableEq α]

theorem mem_appendNew {xs : List α} {x y : α} : y ∈ appendNew xs x ↔ y ∈ xs ∨ y = x := by
  unfold appendNew
  split
  · next h =>
    refine ⟨.inl, ?_⟩
    rintro (hy | rfl)
    · exact hy
    · exact h
  · rw [List.mem_append, List.mem_singleton]

/-- An element that is there already adds nothing. -/
theorem appendNew_of_mem {xs : List α} {x : α} (h : x ∈ xs) : appendNew xs x = xs := by
  unfold appendNew
  rw [if_pos h]

theorem appendNew_of_not_mem {xs : List α} {x : α} (h : x ∉ xs) :
    appendNew xs x = xs ++ [x] := by
  unfold appendNew
  rw [if_neg h]

theorem appendNew_appendNew (xs : List α) (x : α) :
    appendNew (appendNew xs x) x = appendNew xs x :=
  appendNew_of_mem (mem_appendNew.2 (.inr rfl))

theorem mem_foldl_appendNew {xs acc : List α} {y : α} :
    y ∈ xs.foldl appendNew acc ↔ y ∈ acc ∨ y ∈ xs := by
  induction xs generalizing acc with
  | nil => simp
  | cons x xs ih => rw [List.foldl_cons, ih, mem_appendNew, List.mem_cons, or_assoc]

/-- No repetition comes about. -/
theorem nodup_foldl_appendNew {xs acc : List α} (h : acc.Nodup) :
    (xs.foldl appendNew acc).Nodup := by
  induction xs generalizing acc with
  | nil => exact h
  | cons x xs ih =>
    refine ih ?_
    by_cases hx : x ∈ acc
    · rw [appendNew_of_mem hx]
      exact h
    · rw [appendNew_of_not_mem hx]
      exact List.nodup_append_comm.1 (List.nodup_cons.2 ⟨hx, h⟩)

end AppendNew

/-! ## First occurrences -/

section FirstOccurrences

variable {α : Type} [DecidableEq α]

/-- A further element is a first occurrence if it is new. -/
theorem eraseDups_concat (xs : List α) (x : α) :
    (xs ++ [x]).eraseDups = appendNew xs.eraseDups x := by
  have hlast : [x].removeAll xs = if x ∈ xs then [] else [x] := by
    by_cases h : x ∈ xs <;> simp [List.removeAll, h]
  rw [List.eraseDups_append, hlast]
  by_cases h : x ∈ xs
  · rw [if_pos h, appendNew_of_mem (List.mem_eraseDups.2 h), List.eraseDups_nil, List.append_nil]
  · rw [if_neg h, appendNew_of_not_mem (mt List.mem_eraseDups.1 h)]
    rfl

/-- Taking in the first occurrences of a list amounts to taking in the list. -/
theorem foldl_appendNew_eraseDups (xs ys : List α) :
    ys.eraseDups.foldl appendNew xs.eraseDups = (xs ++ ys).eraseDups := by
  induction ys using List.reverseRecOn with
  | nil => rw [List.append_nil]; rfl
  | append_singleton ys y ih =>
    rw [← List.append_assoc, eraseDups_concat, eraseDups_concat, ← ih]
    by_cases h : y ∈ ys
    · have hthere : y ∈ ys.eraseDups.foldl appendNew xs.eraseDups :=
        mem_foldl_appendNew.2 (.inr (List.mem_eraseDups.2 h))
      rw [appendNew_of_mem (List.mem_eraseDups.2 h), appendNew_of_mem hthere]
    · rw [appendNew_of_not_mem (mt List.mem_eraseDups.1 h), List.foldl_append]
      rfl

/-- What an empty list takes in are the first occurrences. -/
theorem foldl_appendNew_nil (xs : List α) : xs.foldl appendNew [] = xs.eraseDups := by
  induction xs using List.reverseRecOn with
  | nil => rfl
  | append_singleton xs x ih => rw [List.foldl_append, ih, eraseDups_concat]; rfl

theorem nodup_eraseDups (xs : List α) : xs.eraseDups.Nodup := by
  rw [← foldl_appendNew_nil]
  exact nodup_foldl_appendNew List.nodup_nil

/-- Elements that all occurred before add nothing. -/
theorem eraseDups_append_of_subset {xs ys : List α} (h : ∀ y ∈ ys, y ∈ xs) :
    (xs ++ ys).eraseDups = xs.eraseDups := by
  have hnone : ys.removeAll xs = [] := by
    rw [List.removeAll, List.filter_eq_nil_iff]
    intro y hy
    simp [h y hy]
  rw [List.eraseDups_append, hnone, List.eraseDups_nil, List.append_nil]

end FirstOccurrences

/-! ## The order of first occurrences -/

section Order

variable {α β : Type}

/-- The first element stands somewhere in the list, and up to there the second one does not. -/
def Precedes (xs : List α) (a b : α) : Prop :=
  ∃ front rest, xs = front ++ a :: rest ∧ b ∉ a :: front

/-- Elements that are left out do not matter to the order of those that are kept. -/
theorem Precedes.of_filter {xs : List α} {p : α → Bool} {a b : α} (hb : p b = true)
    (h : Precedes (xs.filter p) a b) : Precedes xs a b := by
  obtain ⟨front, rest, heq, hnot⟩ := h
  obtain ⟨before, others, rfl, rfl, hothers⟩ := List.filter_eq_append_iff.1 heq
  obtain ⟨skipped, rest', rfl, hskipped, -, -⟩ := List.filter_eq_cons_iff.1 hothers
  refine ⟨before ++ skipped, rest', by simp, ?_⟩
  simp only [List.mem_cons, List.mem_append, List.mem_filter, not_or] at hnot ⊢
  exact ⟨hnot.1, fun hmem => hnot.2 ⟨hmem, hb⟩, fun hmem => hskipped b hmem hb⟩

/-- A third element in front does not matter. -/
theorem Precedes.cons {xs : List α} {a b c : α} (hne : b ≠ c) (h : Precedes xs a b) :
    Precedes (c :: xs) a b := by
  obtain ⟨front, rest, rfl, hnot⟩ := h
  refine ⟨c :: front, rest, rfl, ?_⟩
  simp only [List.mem_cons, not_or] at hnot ⊢
  exact ⟨hnot.1, hne, hnot.2⟩

/-- A renaming that keeps elements apart keeps their order. -/
theorem Precedes.map {xs : List α} {a b : α} {f : α → β} (hf : Function.Injective f)
    (h : Precedes xs a b) : Precedes (xs.map f) (f a) (f b) := by
  obtain ⟨front, rest, rfl, hnot⟩ := h
  refine ⟨front.map f, rest.map f, by simp, ?_⟩
  rw [← List.map_cons, List.mem_map_of_injective hf]
  exact hnot

theorem not_precedes_self {xs : List α} {a : α} : ¬Precedes xs a a := by
  rintro ⟨front, rest, -, hnot⟩
  exact hnot List.mem_cons_self

/-- Distinct elements come in the order of their first occurrences. -/
theorem pairwise_eraseDups [DecidableEq α] (xs : List α) : xs.eraseDups.Pairwise (Precedes xs) := by
  match xs with
  | [] => simp
  | a :: as =>
    have hkept : ∀ b ∈ (as.filter fun x => !x == a).eraseDups, b ≠ a := by
      intro b hb
      simpa using (List.mem_filter.1 (List.mem_eraseDups.1 hb)).2
    rw [List.eraseDups_cons, List.pairwise_cons]
    refine ⟨fun b hb => ⟨[], as, rfl, by simpa using hkept b hb⟩, ?_⟩
    refine (pairwise_eraseDups (as.filter fun x => !x == a)).imp_of_mem fun _ hc h => ?_
    exact (h.of_filter (by simpa using hkept _ hc)).cons (hkept _ hc)
termination_by xs.length
decreasing_by exact Nat.lt_succ_of_le (List.length_filter_le _ _)

end Order

end TypeModel
