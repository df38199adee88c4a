import Mathlib.Data.List.Infix
import TypeModel.HiddenName
import TypeModel.Store.Names

/-!
# Hidden names under qualification

Whether a member is scaffolding is asked of its qualified name, while a compiler chose the short
one. A fragment that marks scaffolding is found in the longer name as well. The opening that marks
it is not: in a qualified name it can only be that of the type (`isScaffolding_memberName_iff`).
-/

namespace TypeModel

/-! ## Parts of a qualified text -/

section Joined

variable {α : Type} {l xs ys : List α} {c : α}

/-- What is free of the separator cannot reach beyond it. -/
theorem prefix_append_cons_iff (h : c ∉ l) : l <+: xs ++ c :: ys ↔ l <+: xs := by
  refine ⟨fun hl => ?_, fun hl => hl.trans (List.prefix_append xs _)⟩
  rcases List.prefix_or_prefix_of_prefix hl (List.prefix_append xs (c :: ys)) with hl' | ⟨rest, rfl⟩
  · exact hl'
  · rw [List.prefix_append_right_inj, List.prefix_cons_iff] at hl
    rcases hl with rfl | ⟨rest, rfl, -⟩
    · rw [List.append_nil]
    · simp at h

/-- A part of a joined text lies on one side of the separator or reaches across it. -/
theorem infix_append_cons_iff : l <:+: xs ++ c :: ys ↔ l <:+: xs ∨ l <:+: ys ∨
    ∃ before after, l = before ++ c :: after ∧ before <:+ xs ∧ after <+: ys := by
  constructor
  · intro hl
    rcases List.infix_append_iff.1 hl with hl | hl | ⟨before, rest, rfl, hbefore, hrest⟩
    · exact .inl hl
    · rcases List.infix_cons_iff.1 hl with hl | hl
      · rcases List.prefix_cons_iff.1 hl with rfl | ⟨after, rfl, hafter⟩
        · exact .inl (List.nil_infix)
        · exact .inr (.inr ⟨[], after, rfl, List.nil_suffix, hafter⟩)
      · exact .inr (.inl hl)
    · rcases List.prefix_cons_iff.1 hrest with rfl | ⟨after, rfl, hafter⟩
      · rw [List.append_nil]
        exact .inl hbefore.isInfix
      · exact .inr (.inr ⟨before, after, rfl, hbefore, hafter⟩)
  · rintro (hl | hl | ⟨before, after, rfl, hbefore, hafter⟩)
    · exact hl.trans (List.prefix_append xs _).isInfix
    · exact hl.trans ((List.suffix_cons c ys).trans (List.suffix_append xs _)).isInfix
    · have hrest : c :: after <+: c :: ys := (List.prefix_cons_inj c).2 hafter
      exact List.infix_append_iff.2 (.inr (.inr ⟨before, _, rfl, hbefore, hrest⟩))

end Joined

/-! ## Scaffolding -/

namespace HiddenName

theorem isScaffolding_iff {name : List Char} : isScaffolding name = true ↔
    "CS$<".toList <+: name ∨ ∃ fragment ∈ fragments, fragment <:+: name := by
  simp only [isScaffolding, Bool.or_eq_true, List.isPrefixOf_iff_prefix, List.any_eq_true,
    occursIn_iff]

/-- No fragment goes on behind a dot as a name with the opening of scaffolding goes on. -/
theorem not_prefix_of_fragment {fragment before after name : List Char}
    (hfragment : fragment ∈ fragments) (heq : fragment = before ++ '.' :: after)
    (hname : "CS$<".toList <+: name) : ¬after <+: name := by
  have hnone : ∀ fragment ∈ fragments, ∀ rest ∈ fragment.tails, rest.head? = some '.' →
      ¬rest.tail <+: "CS$<".toList ∧ ¬"CS$<".toList <+: rest.tail := by decide
  have htails : '.' :: after ∈ fragment.tails := by
    rw [heq, List.mem_tails]
    exact List.suffix_append before _
  obtain ⟨hnot, hnot'⟩ := hnone fragment hfragment _ htails rfl
  intro hafter
  rcases List.prefix_or_prefix_of_prefix hafter hname with h | h
  · exact hnot h
  · exact hnot' h

/-- No fragment reaches across the dot in front of a name that is scaffolding. -/
theorem exists_fragment_joined_iff {typeName name : List Char} (h : isScaffolding name = true) :
    (∃ fragment ∈ fragments, fragment <:+: typeName ++ '.' :: name) ↔
      (∃ fragment ∈ fragments, fragment <:+: typeName) ∨
        ∃ fragment ∈ fragments, fragment <:+: name := by
  constructor
  · rintro ⟨fragment, hfragment, hinfix⟩
    rcases infix_append_cons_iff.1 hinfix with hleft | hright | ⟨before, after, heq, -, hafter⟩
    · exact .inl ⟨fragment, hfragment, hleft⟩
    · exact .inr ⟨fragment, hfragment, hright⟩
    · rcases isScaffolding_iff.1 h with hopening | hmarked
      · exact absurd hafter (not_prefix_of_fragment hfragment heq hopening)
      · exact .inr hmarked
  · rintro (⟨fragment, hfragment, hleft⟩ | ⟨fragment, hfragment, hright⟩)
    · exact ⟨fragment, hfragment, infix_append_cons_iff.2 (.inl hleft)⟩
    · exact ⟨fragment, hfragment, infix_append_cons_iff.2 (.inr (.inl hright))⟩

end HiddenName

theorem isHiddenName_iff {name : String} : isHiddenName name = true ↔
    HiddenName.staysVisible name.toList = false ∧ HiddenName.isScaffolding name.toList = true := by
  rw [isHiddenName, Bool.and_eq_true, Bool.not_eq_true']

/-- A name that is scaffolding by a fragment is so under qualification too; one that is so only by
the way it begins is not, unless the name of its type is. -/
theorem isScaffolding_memberName_iff {typeName name : String}
    (h : HiddenName.isScaffolding name.toList = true) :
    HiddenName.isScaffolding (Store.memberName typeName name).toList = true ↔
      (∃ fragment ∈ HiddenName.fragments, fragment <:+: name.toList) ∨
        HiddenName.isScaffolding typeName.toList = true := by
  have hjoined : (Store.memberName typeName name).toList =
      typeName.toList ++ '.' :: name.toList := by
    simp [Store.memberName]
  have hdot : '.' ∉ "CS$<".toList := by decide
  rw [hjoined, HiddenName.isScaffolding_iff, prefix_append_cons_iff hdot,
    HiddenName.exists_fragment_joined_iff h, HiddenName.isScaffolding_iff, ← or_assoc, or_comm]

end TypeModel
