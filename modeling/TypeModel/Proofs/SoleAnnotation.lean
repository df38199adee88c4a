import Mathlib.Data.List.Nodup
import TypeModel.Proofs.Metadata

/-!
# Annotations that may occur once

Metadata comes from annotations, or from an update of such metadata by other such metadata
(`Metadata.Collected`). Inside it the annotations of a kind are distinct, so that what matters for a
kind that may occur once is how many distinct annotations there are: none (`Absent`), one (`Sole`)
or several (`Several`). The arguments of the sole annotation and its string are found, or an error
of the owner is, according to this alone.
-/

namespace TypeModel

/-- A list without repetitions whose elements are all the same one. -/
theorem eq_singleton_of_nodup {α : Type} {xs : List α} {a : α} (hnodup : xs.Nodup)
    (h : ∀ b, b ∈ xs ↔ b = a) : xs = [a] :=
  List.perm_singleton.1 <|
    (List.perm_ext_iff_of_nodup hnodup (List.nodup_singleton a)).2 fun b => by
      rw [h, List.mem_singleton]

namespace Metadata

/-- Metadata as it comes about: collected from annotations, or updated by other metadata. -/
inductive Collected : Metadata → Prop where
  | ofAnnotations (owner : String) (annotations : List Annotation) :
      Collected (.ofAnnotations owner annotations)
  | update {m other : Metadata} (base : Collected m) (taken : Collected other) (replace : Bool) :
      Collected (m.update other replace)

theorem Collected.grouped {m : Metadata} (h : m.Collected) : m.Grouped := by
  induction h with
  | ofAnnotations owner annotations => exact grouped_ofAnnotations owner annotations
  | update _ _ replace ih _ => exact ih.update _ replace

/-- The annotations of a kind are distinct. -/
theorem Collected.nodup_get {m : Metadata} (h : m.Collected) (kind : String) :
    (m.get kind).Nodup := by
  induction h with
  | ofAnnotations owner annotations =>
    rw [get_ofAnnotations]
    exact nodup_foldl_appendNew List.nodup_nil
  | update base taken replace ih _ =>
    rw [base.grouped.get_update taken.grouped]
    cases replace with
    | true => exact nodup_foldl_appendNew List.nodup_nil
    | false => exact nodup_foldl_appendNew ih

/-! ## How many distinct annotations of a kind there are -/

/-- There is no annotation of the kind. -/
def Absent (m : Metadata) (kind : String) : Prop :=
  ∀ a, a ∉ m.get kind

/-- There is one distinct annotation of the kind. -/
def Sole (m : Metadata) (kind : String) (a : Annotation) : Prop :=
  ∀ b, b ∈ m.get kind ↔ b = a

/-- There are two distinct annotations of the kind, or more. -/
def Several (m : Metadata) (kind : String) : Prop :=
  ∃ a ∈ m.get kind, ∃ b ∈ m.get kind, a ≠ b

theorem absent_or_sole_or_several (m : Metadata) (kind : String) :
    m.Absent kind ∨ (∃ a, m.Sole kind a) ∨ m.Several kind := by
  by_cases hpresent : ∃ a, a ∈ m.get kind
  · obtain ⟨a, ha⟩ := hpresent
    by_cases hsole : ∀ b ∈ m.get kind, b = a
    · exact .inr (.inl ⟨a, fun b => ⟨hsole b, fun h => h ▸ ha⟩⟩)
    · obtain ⟨b, hb⟩ := not_forall.1 hsole
      obtain ⟨hb, hne⟩ := Classical.not_imp.1 hb
      exact .inr (.inr ⟨b, hb, a, ha, hne⟩)
  · exact .inl (not_exists.1 hpresent)

theorem sole_ofAnnotations_singleton (owner : String) (a : Annotation) :
    (ofAnnotations owner [a]).Sole a.kind a := by
  intro b
  rw [mem_get_ofAnnotations, List.mem_singleton]
  exact and_iff_left_of_imp fun h => congrArg Annotation.kind h

/-! ## The arguments of the sole annotation -/

/-- Without an annotation of the kind there are no arguments, which is not an error. -/
theorem Absent.soleArgs {m : Metadata} {kind : String} (h : m.Absent kind) :
    m.soleArgs kind = .ok none := by
  rw [Metadata.soleArgs, List.eq_nil_iff_forall_not_mem.2 h]

theorem Sole.soleArgs {m : Metadata} {kind : String} {a : Annotation} (hm : m.Collected)
    (h : m.Sole kind a) : m.soleArgs kind = .ok (some a.args) := by
  rw [Metadata.soleArgs, eq_singleton_of_nodup (hm.nodup_get kind) h]

/-- An error of the owner tells how many distinct annotations there are. -/
theorem Several.soleArgs {m : Metadata} {kind : String} (h : m.Several kind) :
    m.soleArgs kind = .error (.configuration m.owner (.repeated kind (m.get kind).length)) := by
  obtain ⟨a, ha, b, hb, hne⟩ := h
  unfold Metadata.soleArgs
  split
  · next hget => exact absurd (hget ▸ ha) List.not_mem_nil
  · next c hget =>
    rw [hget, List.mem_singleton] at ha hb
    exact absurd (ha.trans hb.symm) hne
  · rfl

/-! ## The string of the sole annotation -/

/-- A kind that needs a string can not be read: there are several distinct annotations of it, or one
that has no string among its arguments. -/
def Broken (m : Metadata) (kind : String) : Prop :=
  m.Several kind ∨ ∃ a, m.Sole kind a ∧ ∀ s, .str s ∉ a.args

/-- No text is found among arguments that are not strings. -/
theorem findSome?_asStr?_eq_none_iff {args : List Argument} :
    args.findSome? Argument.asStr? = none ↔ ∀ s, .str s ∉ args := by
  rw [List.findSome?_eq_none_iff]
  constructor
  · intro h s hs
    exact nomatch h _ hs
  · intro h a ha
    cases a with
    | str s => exact absurd ha (h s)
    | int | bool | type | enum | array => rfl

/-- The string is found, or there is none to find, unless the kind is broken. -/
theorem Collected.soleString_isOk {m : Metadata} {kind : String} (hm : m.Collected)
    (h : ¬m.Broken kind) : ∃ value, m.soleString kind = .ok value := by
  unfold soleString
  rcases m.absent_or_sole_or_several kind with habsent | ⟨a, hsole⟩ | hseveral
  · exact ⟨none, by rw [habsent.soleArgs]; rfl⟩
  · rw [hsole.soleArgs hm]
    cases hfound : a.args.findSome? Argument.asStr? with
    | none => exact absurd (.inr ⟨a, hsole, findSome?_asStr?_eq_none_iff.1 hfound⟩) h
    | some value => exact ⟨some value, by simp only [bind, Except.bind, hfound]; rfl⟩
  · exact absurd (.inl hseveral) h

/-- Reading a broken kind is an error of the owner. -/
theorem Collected.soleString_of_broken {m : Metadata} {kind : String} (hm : m.Collected)
    (h : m.Broken kind) :
    ∃ conflict, m.soleString kind = .error (.configuration m.owner conflict) := by
  unfold soleString
  rcases h with hseveral | ⟨a, hsole, hnone⟩
  · exact ⟨_, by rw [hseveral.soleArgs]; rfl⟩
  · rw [hsole.soleArgs hm]
    refine ⟨.missingString kind, ?_⟩
    simp only [bind, Except.bind, findSome?_asStr?_eq_none_iff.2 hnone]
    rfl

end Metadata

end TypeModel
