import TypeModel.Proofs.FirstOccurrences

/-!
# The groups of metadata

Groups stand in ascending order of their kinds, which an insertion keeps (`Ordered.place`). So the
group of a kind is the only one of it, and an insertion into ordered groups changes the annotations
of one kind and of no other (`get_place`). The annotations of a kind are those inserted, in order,
each once (`get_ofAnnotations`), and a kind is present if an annotation of it was inserted
(`has_insertAll`).
-/

namespace TypeModel

namespace Metadata

/-! ## Reading one kind -/

theorem get_nil (owner kind : String) : get ⟨owner, []⟩ kind = [] := rfl

theorem get_cons (owner kind : String) (g : AnnotationGroup) (rest : List AnnotationGroup) :
    get ⟨owner, g :: rest⟩ kind =
      if g.kind = kind then g.annotations else get ⟨owner, rest⟩ kind := by
  unfold get
  by_cases h : g.kind = kind
  · rw [if_pos h, List.find?_cons_of_pos (by simpa using h)]
  · rw [if_neg h, List.find?_cons_of_neg (by simpa using h)]

theorem get_eq_nil {owner kind : String} {groups : List AnnotationGroup}
    (h : ∀ g ∈ groups, g.kind ≠ kind) : get ⟨owner, groups⟩ kind = [] := by
  induction groups with
  | nil => rfl
  | cons g rest ih =>
    rw [get_cons, if_neg (h g List.mem_cons_self)]
    exact ih fun g' hg' => h g' (List.mem_cons_of_mem _ hg')

/-! ## Insertion into ordered groups -/

/-- The groups stand in ascending order of their kinds. -/
def Ordered (groups : List AnnotationGroup) : Prop :=
  groups.Pairwise fun g h => g.kind < h.kind

/-- Placing an annotation makes no group of a kind other than its own. -/
theorem kind_of_mem_place {a : Annotation} {groups : List AnnotationGroup} {g : AnnotationGroup}
    (h : g ∈ AnnotationGroup.place a groups) :
    g.kind = a.kind ∨ ∃ g' ∈ groups, g'.kind = g.kind := by
  induction groups with
  | nil =>
    rw [AnnotationGroup.place, List.mem_singleton] at h
    exact .inl (by rw [h])
  | cons g₀ rest ih =>
    rw [AnnotationGroup.place] at h
    split at h
    · rcases List.mem_cons.1 h with rfl | h
      · exact .inr ⟨g₀, List.mem_cons_self, rfl⟩
      · exact .inr ⟨g, List.mem_cons_of_mem _ h, rfl⟩
    · split at h
      · rcases List.mem_cons.1 h with rfl | h
        · exact .inl rfl
        · exact .inr ⟨g, h, rfl⟩
      · rcases List.mem_cons.1 h with rfl | h
        · exact .inr ⟨g, List.mem_cons_self, rfl⟩
        · rcases ih h with h | ⟨g', hg', heq⟩
          · exact .inl h
          · exact .inr ⟨g', List.mem_cons_of_mem _ hg', heq⟩

/-- Groups stay in ascending order of their kinds when an annotation is placed. -/
theorem Ordered.place {groups : List AnnotationGroup} (h : Ordered groups) (a : Annotation) :
    Ordered (AnnotationGroup.place a groups) := by
  induction groups with
  | nil => exact List.pairwise_singleton _ _
  | cons g rest ih =>
    obtain ⟨hg, hrest⟩ := List.pairwise_cons.1 h
    rw [AnnotationGroup.place]
    split
    · exact List.pairwise_cons.2 ⟨hg, hrest⟩
    · next hne =>
      split
      · next hlt =>
        refine List.pairwise_cons.2 ⟨fun g' hg' => ?_, h⟩
        rcases List.mem_cons.1 hg' with rfl | hg'
        · exact hlt
        · exact String.lt_trans hlt (hg g' hg')
      · next hnlt =>
        refine List.pairwise_cons.2 ⟨fun g' hg' => ?_, ih hrest⟩
        rcases kind_of_mem_place hg' with heq | ⟨g₁, hg₁, heq⟩
        · rw [heq]
          exact Std.lt_of_le_of_ne (String.not_lt.1 hnlt) (Ne.symm hne)
        · rw [← heq]
          exact hg g₁ hg₁

/-- An annotation that is placed joins its own kind unless it is there, and no other kind changes.
-/
theorem get_place {groups : List AnnotationGroup} (h : Ordered groups) (owner kind : String)
    (a : Annotation) : get ⟨owner, AnnotationGroup.place a groups⟩ kind =
      if a.kind = kind then appendNew (get ⟨owner, groups⟩ kind) a
      else get ⟨owner, groups⟩ kind := by
  induction groups with
  | nil =>
    rw [AnnotationGroup.place, get_cons, get_nil]
    rfl
  | cons g rest ih =>
    obtain ⟨hg, hrest⟩ := List.pairwise_cons.1 h
    rw [AnnotationGroup.place]
    split
    · next heq =>
      rw [get_cons, get_cons, heq]
      by_cases hk : g.kind = kind
      · simp only [if_pos hk]
      · simp only [if_neg hk]
    · next hne =>
      split
      · next hlt =>
        rw [get_cons]
        by_cases hk : a.kind = kind
        · -- The new kind comes before all others, so none of the groups is of it.
          have hnone : get ⟨owner, g :: rest⟩ kind = [] := by
            refine get_eq_nil fun g' hg' => ?_
            rw [← hk]
            rcases List.mem_cons.1 hg' with rfl | hg'
            · exact Ne.symm hne
            · intro heq
              have := String.lt_trans hlt (hg g' hg')
              rw [heq] at this
              exact String.lt_irrefl _ this
          rw [if_pos hk, if_pos hk, hnone]
          rfl
        · rw [if_neg hk, if_neg hk]
      · rw [get_cons, get_cons, ih hrest]
        by_cases hk : g.kind = kind
        · have hak : a.kind ≠ kind := fun hak => hne (hak.trans hk.symm)
          simp only [if_pos hk, if_neg hak]
        · simp only [if_neg hk]

/-! ## Inserting many -/

/-- Ordered metadata gains the annotations of a kind among those inserted that it lacks. -/
theorem get_insertAll {m : Metadata} (h : Ordered m.groups) (annotations : List Annotation)
    (kind : String) : (m.insertAll annotations).get kind =
      (annotations.filter fun a => a.kind == kind).foldl appendNew (m.get kind) := by
  induction annotations generalizing m with
  | nil => rfl
  | cons a rest ih =>
    show ((m.insert a).insertAll rest).get kind = _
    have hget : (m.insert a).get kind =
        if a.kind = kind then appendNew (m.get kind) a else m.get kind := get_place h m.owner kind a
    rw [ih (h.place a), hget]
    by_cases hk : a.kind = kind
    · rw [if_pos hk, List.filter_cons_of_pos (by simpa using hk), List.foldl_cons]
    · rw [if_neg hk, List.filter_cons_of_neg (by simpa using hk)]

theorem ordered_nil : Ordered [] := List.Pairwise.nil

/-- A kind holds the annotations of that kind, each where it first occurs. -/
theorem get_ofAnnotations (owner : String) (annotations : List Annotation) (kind : String) :
    (ofAnnotations owner annotations).get kind =
      (annotations.filter fun a => a.kind == kind).foldl appendNew [] :=
  get_insertAll ordered_nil annotations kind

/-- Only the annotations of a kind are read under it. -/
theorem mem_get_ofAnnotations (owner : String) {kind : String} {annotations : List Annotation}
    {a : Annotation} :
    a ∈ (ofAnnotations owner annotations).get kind ↔ a ∈ annotations ∧ a.kind = kind := by
  rw [get_ofAnnotations, mem_foldl_appendNew, List.mem_filter, beq_iff_eq]
  exact or_iff_right List.not_mem_nil

/-! ## Which kinds are present -/

theorem has_eq_true {m : Metadata} {kind : String} :
    m.has kind = true ↔ ∃ g ∈ m.groups, g.kind = kind := by
  unfold has
  rw [List.any_eq_true]
  simp only [beq_iff_eq]

theorem has_insert (m : Metadata) (a : Annotation) (kind : String) :
    (m.insert a).has kind = true ↔ m.has kind = true ∨ a.kind = kind := by
  have hplace : ∀ groups : List AnnotationGroup,
      (∃ g ∈ AnnotationGroup.place a groups, g.kind = kind) ↔
        (∃ g ∈ groups, g.kind = kind) ∨ a.kind = kind := by
    intro groups
    induction groups with
    | nil => simp [AnnotationGroup.place]
    | cons g rest ih =>
      rw [AnnotationGroup.place]
      split
      · next heq =>
        simp only [List.mem_cons, exists_eq_or_imp]
        rw [heq]
        simp only [or_comm, or_self_left]
      · split
        · rw [or_comm]
          simp only [List.mem_cons, exists_eq_or_imp]
        · simp only [List.mem_cons, exists_eq_or_imp, ih, or_assoc]
  rw [has_eq_true, has_eq_true]
  exact hplace m.groups

/-- Of the kinds, insertion adds those of the annotations inserted. -/
theorem has_insertAll (m : Metadata) (annotations : List Annotation) (kind : String) :
    (m.insertAll annotations).has kind = true ↔
      m.has kind = true ∨ ∃ a ∈ annotations, a.kind = kind := by
  induction annotations generalizing m with
  | nil => simp [insertAll]
  | cons a rest ih =>
    show ((m.insert a).insertAll rest).has kind = true ↔ _
    rw [ih, has_insert]
    simp only [List.mem_cons, exists_eq_or_imp, or_assoc]

theorem has_ofAnnotations (owner kind : String) (annotations : List Annotation) :
    (ofAnnotations owner annotations).has kind = true ↔ ∃ a ∈ annotations, a.kind = kind := by
  refine (has_insertAll { owner } annotations kind).trans (or_iff_right ?_)
  exact Bool.false_ne_true

/-- After an update the kinds are those that were kept and those that were taken in. -/
theorem has_update (m other : Metadata) (replace : Bool) (kind : String) :
    (m.update other replace).has kind = true ↔
      (replace = false ∧ m.has kind = true) ∨ ∃ a ∈ other.annotations, a.kind = kind := by
  unfold update
  rw [has_insertAll]
  cases replace with
  | true => simp [has]
  | false => simp

theorem mem_annotations_insert (m : Metadata) (a b : Annotation) :
    b ∈ (m.insert a).annotations ↔ b ∈ m.annotations ∨ b = a := by
  have hplace : ∀ groups : List AnnotationGroup,
      b ∈ (AnnotationGroup.place a groups).flatMap AnnotationGroup.annotations ↔
        b ∈ groups.flatMap AnnotationGroup.annotations ∨ b = a := by
    intro groups
    induction groups with
    | nil => simp [AnnotationGroup.place]
    | cons g rest ih =>
      rw [AnnotationGroup.place]
      split
      · simp only [List.flatMap_cons, List.mem_append, mem_appendNew, or_assoc, or_comm]
      · split
        · simp only [List.flatMap_cons, List.mem_append, List.mem_singleton, or_comm]
        · simp only [List.flatMap_cons, List.mem_append, ih, or_assoc]
  exact hplace m.groups

theorem mem_annotations_ofAnnotations {owner : String} {annotations : List Annotation}
    {b : Annotation} : b ∈ (ofAnnotations owner annotations).annotations ↔ b ∈ annotations := by
  have hmain : ∀ m : Metadata,
      b ∈ (m.insertAll annotations).annotations ↔ b ∈ m.annotations ∨ b ∈ annotations := by
    induction annotations with
    | nil => simp [insertAll]
    | cons a rest ih =>
      intro m
      show b ∈ ((m.insert a).insertAll rest).annotations ↔ _
      rw [ih, mem_annotations_insert, List.mem_cons, or_assoc]
  exact (hmain { owner }).trans (or_iff_right List.not_mem_nil)

/-! ## Groups and the annotations in them -/

theorem foldl_appendNew_ne_nil {acc annotations : List Annotation} :
    annotations.foldl appendNew acc ≠ [] ↔ acc ≠ [] ∨ annotations ≠ [] := by
  have hmem : ∀ xs : List Annotation, xs ≠ [] ↔ ∃ a, a ∈ xs := fun xs =>
    ⟨List.exists_mem_of_ne_nil xs, fun ⟨_, ha⟩ => List.ne_nil_of_mem ha⟩
  simp only [hmem, mem_foldl_appendNew, exists_or]

/-- Groups stand in ascending order of their kinds, and none is empty or has annotations of another
kind. -/
structure Grouped (m : Metadata) : Prop where
  ordered : Ordered m.groups
  sound : ∀ g ∈ m.groups, g.annotations ≠ [] ∧ ∀ a ∈ g.annotations, a.kind = g.kind

/-- Insertion keeps the groups ordered, nonempty and of one kind each. -/
theorem Grouped.insert {m : Metadata} (h : m.Grouped) (a : Annotation) : (m.insert a).Grouped := by
  have hplace : ∀ groups : List AnnotationGroup,
      (∀ g ∈ groups, g.annotations ≠ [] ∧ ∀ b ∈ g.annotations, b.kind = g.kind) →
      ∀ g ∈ AnnotationGroup.place a groups,
        g.annotations ≠ [] ∧ ∀ b ∈ g.annotations, b.kind = g.kind := by
    intro groups
    induction groups with
    | nil => simp [AnnotationGroup.place]
    | cons g rest ih =>
      intro hsound
      obtain ⟨hg, hrest⟩ := List.forall_mem_cons.1 hsound
      rw [AnnotationGroup.place]
      split
      · next heq =>
        refine List.forall_mem_cons.2 ⟨⟨?_, fun b hb => ?_⟩, hrest⟩
        · exact List.ne_nil_of_mem (mem_appendNew.2 (.inr rfl))
        · rcases mem_appendNew.1 hb with hb | rfl
          · exact hg.2 b hb
          · exact heq
      · split
        · refine List.forall_mem_cons.2 ⟨⟨List.cons_ne_nil _ _, fun b hb => ?_⟩, hsound⟩
          rw [List.mem_singleton.1 hb]
        · exact List.forall_mem_cons.2 ⟨hg, ih hrest⟩
  exact ⟨h.ordered.place a, hplace m.groups h.sound⟩

theorem Grouped.insertAll {m : Metadata} (h : m.Grouped) (annotations : List Annotation) :
    (m.insertAll annotations).Grouped := by
  induction annotations generalizing m with
  | nil => exact h
  | cons a rest ih => exact ih (h.insert a)

theorem grouped_nil (owner : String) : Grouped ⟨owner, []⟩ :=
  ⟨ordered_nil, nofun⟩

theorem grouped_ofAnnotations (owner : String) (annotations : List Annotation) :
    (ofAnnotations owner annotations).Grouped :=
  (grouped_nil owner).insertAll annotations

theorem Grouped.update {m : Metadata} (h : m.Grouped) (other : Metadata) (replace : Bool) :
    (m.update other replace).Grouped := by
  cases replace with
  | true => exact (grouped_nil m.owner).insertAll other.annotations
  | false => exact h.insertAll other.annotations

/-- The annotations of a kind all stand in its group. -/
theorem Grouped.filter_annotations {m : Metadata} (h : m.Grouped) (kind : String) :
    (m.annotations.filter fun a => a.kind == kind) = m.get kind := by
  obtain ⟨owner, groups⟩ := m
  obtain ⟨hordered, hsound⟩ := h
  induction groups with
  | nil => rfl
  | cons g rest ih =>
    obtain ⟨hlt, hordered⟩ := List.pairwise_cons.1 hordered
    obtain ⟨⟨-, hg⟩, hsound⟩ := List.forall_mem_cons.1 hsound
    have hrest : ((rest.flatMap AnnotationGroup.annotations).filter fun a => a.kind == kind) =
        get ⟨owner, rest⟩ kind := ih hordered hsound
    unfold annotations
    rw [List.flatMap_cons, List.filter_append, hrest, get_cons]
    by_cases hk : g.kind = kind
    · have hnone : get ⟨owner, rest⟩ kind = [] := get_eq_nil fun g' hg' heq => by
        have hself := hlt g' hg'
        rw [heq, hk] at hself
        exact String.lt_irrefl _ hself
      rw [if_pos hk, hnone, List.append_nil, List.filter_eq_self.2]
      intro a ha
      rw [hg a ha, hk, beq_self_eq_true]
    · rw [if_neg hk, List.filter_eq_nil_iff.2, List.nil_append]
      intro a ha
      rw [hg a ha]
      simpa using hk

/-- A kind is present exactly when something is read under it. -/
theorem Grouped.has_iff {m : Metadata} (h : m.Grouped) (kind : String) :
    m.has kind = true ↔ m.get kind ≠ [] := by
  rw [has_eq_true]
  constructor
  · intro hpresent
    obtain ⟨g, hg, hkind⟩ := hpresent
    obtain ⟨hne, hsame⟩ := h.sound g hg
    obtain ⟨a, ha⟩ := List.exists_mem_of_ne_nil _ hne
    apply List.ne_nil_of_mem (a := a)
    rw [← h.filter_annotations, List.mem_filter, hsame a ha, hkind, beq_self_eq_true]
    exact ⟨List.mem_flatMap.2 ⟨g, hg, ha⟩, rfl⟩
  · intro hne
    obtain ⟨a, ha⟩ := List.exists_mem_of_ne_nil _ hne
    rw [← h.filter_annotations, List.mem_filter, beq_iff_eq] at ha
    obtain ⟨hmem, hkind⟩ := ha
    obtain ⟨g, hg, hag⟩ := List.mem_flatMap.1 hmem
    exact ⟨g, hg, ((h.sound g hg).2 a hag).symm.trans hkind⟩

/-- An update adds to the annotations of a kind those of that kind which the other metadata has. -/
theorem Grouped.get_update {m other : Metadata} (h : m.Grouped) (hother : other.Grouped)
    (replace : Bool) (kind : String) : (m.update other replace).get kind =
      (other.get kind).foldl appendNew (if replace then [] else m.get kind) := by
  unfold Metadata.update
  cases replace with
  | true =>
    rw [if_pos rfl, if_pos rfl, get_insertAll ordered_nil, hother.filter_annotations]
    rfl
  | false =>
    rw [if_neg Bool.false_ne_true, if_neg Bool.false_ne_true, get_insertAll h.ordered,
      hother.filter_annotations]

end Metadata

end TypeModel
