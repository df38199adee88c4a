import Mathlib.Data.List.Induction
import Mathlib.Data.List.Sort
import TypeModel.Proofs.SoleAnnotation

/-!
# The history of metadata

Metadata is collected once and then takes in more, with or without dropping what was there. What it
holds after any number of such steps depends on one list only: the annotations that came since the
last step that replaced, one step after another (`Metadata.history`). Each step keeps this
(`Presents.takeIn`), so that a run does (`Presents.takeAll`). Besides, metadata is its owner and
what it has of each kind (`Grouped.eq_of_get`), so that equal histories give equal metadata, and a
step repeated changes nothing.
-/

namespace TypeModel

namespace Metadata

/-! ## The kinds present -/

namespace Grouped

variable {m : Metadata}

theorem kinds_ascending (h : m.Grouped) : m.kinds.Pairwise (· < ·) :=
  List.pairwise_map.2 h.ordered

theorem mem_kinds (h : m.Grouped) (kind : String) : kind ∈ m.kinds ↔ m.get kind ≠ [] := by
  rw [← h.has_iff, has_eq_true, kinds, List.mem_map]

/-- The group of a kind has its annotations. -/
theorem get_kind (h : m.Grouped) {g : AnnotationGroup} (hg : g ∈ m.groups) :
    m.get g.kind = g.annotations := by
  obtain ⟨owner, groups⟩ := m
  obtain ⟨hordered, -⟩ := h
  induction groups with
  | nil => exact absurd hg List.not_mem_nil
  | cons g₀ rest ih =>
    obtain ⟨hlt, hordered⟩ := List.pairwise_cons.1 hordered
    rw [get_cons]
    rcases List.mem_cons.1 hg with rfl | hg
    · rw [if_pos rfl]
    · have hne : g₀.kind ≠ g.kind := fun heq =>
        String.lt_irrefl g.kind (heq ▸ hlt g hg)
      rw [if_neg hne]
      exact ih hg hordered

/-- The groups are determined by the kinds and what is read under each. -/
theorem groups_eq (h : m.Grouped) :
    m.groups = m.kinds.map fun kind => ⟨kind, m.get kind⟩ := by
  rw [kinds, List.map_map]
  refine (List.map_id _).symm.trans (List.map_congr_left fun g hg => ?_)
  rw [Function.comp_apply, h.get_kind hg, id_eq]

/-- Metadata is its owner and what it has of each kind. -/
theorem eq_of_get {other : Metadata} (h : m.Grouped) (hother : other.Grouped)
    (howner : m.owner = other.owner) (hget : ∀ kind, m.get kind = other.get kind) : m = other := by
  have hkinds : m.kinds = other.kinds := by
    refine h.kinds_ascending.eq_of_mem_iff hother.kinds_ascending fun kind => ?_
    rw [h.mem_kinds, hother.mem_kinds, hget]
  have hgroups : m.groups = other.groups := by
    rw [h.groups_eq, hother.groups_eq, hkinds]
    simp only [hget]
  cases m
  cases other
  exact congrArg₂ Metadata.mk howner hgroups

/-- No group is empty, so there are annotations unless there are no groups. -/
theorem size_eq_zero_iff (h : m.Grouped) : m.size = 0 ↔ m.isEmpty = true := by
  rw [size, List.length_eq_zero_iff, annotations, List.flatMap_eq_nil_iff, isEmpty,
    List.isEmpty_iff]
  constructor
  · intro hnone
    refine List.eq_nil_iff_forall_not_mem.2 fun g hg => ?_
    exact (h.sound g hg).1 (hnone g hg)
  · intro hnil g hg
    rw [hnil] at hg
    exact absurd hg List.not_mem_nil

end Grouped

/-- All annotations are distinct, also across kinds. -/
theorem Collected.nodup_annotations {m : Metadata} (h : m.Collected) : m.annotations.Nodup := by
  refine List.nodup_iff_count_le_one.2 fun a => ?_
  have hcount : m.annotations.count a = (m.get a.kind).count a := by
    rw [← h.grouped.filter_annotations]
    exact (List.count_filter (p := fun b : Annotation => b.kind == a.kind)
      (beq_self_eq_true a.kind)).symm
  rw [hcount]
  exact List.nodup_iff_count_le_one.1 (h.nodup_get a.kind) a

/-! ## What metadata presents -/

/-- The metadata has, of each kind, the annotations of that kind in a list, in order and each at its
first occurrence. -/
structure Presents (m : Metadata) (annotations : List Annotation) : Prop where
  collected : m.Collected
  get_eq : ∀ kind, m.get kind = (annotations.filter fun a => a.kind == kind).eraseDups

theorem presents_ofAnnotations (owner : String) (annotations : List Annotation) :
    (ofAnnotations owner annotations).Presents annotations where
  collected := .ofAnnotations owner annotations
  get_eq kind := by rw [get_ofAnnotations, foldl_appendNew_nil]

/-- An update presents what it takes in, behind what it keeps. -/
theorem Presents.update {m other : Metadata} {xs ys : List Annotation} (h : m.Presents xs)
    (hother : other.Presents ys) (replace : Bool) :
    (m.update other replace).Presents ((if replace then [] else xs) ++ ys) where
  collected := h.collected.update hother.collected replace
  get_eq kind := by
    rw [h.collected.grouped.get_update hother.collected.grouped, h.get_eq, hother.get_eq,
      List.filter_append, ← foldl_appendNew_eraseDups]
    cases replace <;> rfl

namespace Presents

variable {m other : Metadata} {xs ys : List Annotation}

theorem has_iff (h : m.Presents xs) (kind : String) :
    m.has kind = true ↔ ∃ a ∈ xs, a.kind = kind := by
  rw [h.collected.grouped.has_iff, h.get_eq, Ne, List.eq_nil_iff_forall_not_mem]
  simp

theorem mem_annotations (h : m.Presents xs) (a : Annotation) : a ∈ m.annotations ↔ a ∈ xs := by
  have hfilter : a ∈ m.annotations ↔ a ∈ m.get a.kind := by
    rw [← h.collected.grouped.filter_annotations, List.mem_filter, beq_self_eq_true,
      and_iff_left rfl]
  rw [hfilter, h.get_eq, List.mem_eraseDups, List.mem_filter, beq_self_eq_true, and_iff_left rfl]

/-- The size counts the distinct annotations of the list. -/
theorem size_eq (h : m.Presents xs) : m.size = xs.eraseDups.length := by
  refine List.Perm.length_eq ?_
  refine (List.perm_ext_iff_of_nodup h.collected.nodup_annotations (nodup_eraseDups xs)).2 ?_
  intro a
  rw [h.mem_annotations, List.mem_eraseDups]

/-- Metadata of one owner that presents one list is the same. -/
theorem eq (h : m.Presents xs) (hother : other.Presents xs) (howner : m.owner = other.owner) :
    m = other :=
  h.collected.grouped.eq_of_get hother.collected.grouped howner fun kind => by
    rw [h.get_eq, hother.get_eq]

/-- What metadata presents already adds nothing to it. -/
theorem append_of_subset (h : m.Presents xs) (hsubset : ∀ y ∈ ys, y ∈ xs) :
    m.Presents (xs ++ ys) where
  collected := h.collected
  get_eq kind := by
    rw [h.get_eq, List.filter_append]
    refine (eraseDups_append_of_subset fun y hy => ?_).symm
    obtain ⟨hy, hkind⟩ := List.mem_filter.1 hy
    exact List.mem_filter.2 ⟨hsubset y hy, hkind⟩

end Presents

/-! ## Taking in more -/

/-- Annotations collected elsewhere, for metadata to take in. -/
structure Intake where
  owner : String
  annotations : List Annotation
  /-- What was there before is dropped. -/
  replaces : Bool

def takeIn (m : Metadata) (s : Intake) : Metadata :=
  m.update (ofAnnotations s.owner s.annotations) s.replaces

def takeAll (m : Metadata) (steps : List Intake) : Metadata :=
  steps.foldl takeIn m

/-- What came since the last step that replaced, or from the beginning if none did. -/
def history (annotations : List Annotation) (steps : List Intake) : List Annotation :=
  steps.foldl (fun seen s => (if s.replaces then [] else seen) ++ s.annotations) annotations

/-- Without a replacement the history is everything that came in. -/
theorem history_of_keeping {steps : List Intake} (annotations : List Annotation)
    (h : ∀ s ∈ steps, s.replaces = false) :
    history annotations steps = annotations ++ steps.flatMap Intake.annotations := by
  induction steps generalizing annotations with
  | nil => simp [history]
  | cons s rest ih =>
    obtain ⟨hs, hrest⟩ := List.forall_mem_cons.1 h
    have hstep : history annotations (s :: rest) = history (annotations ++ s.annotations) rest := by
      simp [history, hs]
    rw [hstep, ih _ hrest, List.flatMap_cons, List.append_assoc]

/-- Only what came in since the last replacement is in the history. -/
theorem history_of_replacing {before after : List Intake} {s : Intake}
    (annotations : List Annotation) (hs : s.replaces = true)
    (hafter : ∀ later ∈ after, later.replaces = false) :
    history annotations (before ++ s :: after) = (s :: after).flatMap Intake.annotations := by
  have hstart : history annotations (before ++ s :: after) = history s.annotations after := by
    simp [history, hs]
  rw [hstart, history_of_keeping _ hafter, List.flatMap_cons]

variable {m : Metadata} {xs : List Annotation}

@[simp] theorem owner_takeIn (m : Metadata) (s : Intake) : (m.takeIn s).owner = m.owner :=
  owner_update m _ s.replaces

@[simp] theorem owner_takeAll (m : Metadata) (steps : List Intake) :
    (m.takeAll steps).owner = m.owner := by
  induction steps generalizing m with
  | nil => rfl
  | cons s rest ih => exact (ih (m.takeIn s)).trans (owner_takeIn m s)

/-- An intake presents its own annotations behind what it keeps. -/
theorem Presents.takeIn (h : m.Presents xs) (s : Intake) :
    (m.takeIn s).Presents ((if s.replaces then [] else xs) ++ s.annotations) :=
  h.update (presents_ofAnnotations s.owner s.annotations) s.replaces

/-- A run of intakes presents the history, by induction on the run. -/
theorem Presents.takeAll (h : m.Presents xs) (steps : List Intake) :
    (m.takeAll steps).Presents (history xs steps) := by
  induction steps generalizing m xs with
  | nil => exact h
  | cons s rest ih => exact ih (h.takeIn s)

/-- A step taken twice is as good as taken once. -/
theorem Presents.takeIn_takeIn (h : m.Presents xs) (s : Intake) :
    (m.takeIn s).takeIn s = m.takeIn s := by
  have honce := h.takeIn s
  have htwice := honce.takeIn s
  refine htwice.eq ?_ (owner_takeIn _ s)
  cases hs : s.replaces with
  | true => rwa [hs] at honce
  | false =>
    rw [hs] at honce
    exact honce.append_of_subset fun a ha => List.mem_append_right _ ha

/-! ## The index of a history -/

/-- Metadata as an index of a list by kind: of each kind the annotations of the list, in order and
each at its first occurrence, under the kinds that occur, in ascending order. -/
structure Indexes (m : Metadata) (annotations : List Annotation) : Prop where
  get_eq : ∀ kind, m.get kind = (annotations.filter fun a => a.kind == kind).eraseDups
  has_iff : ∀ kind, m.has kind = true ↔ m.get kind ≠ []
  mem_kinds : ∀ kind, kind ∈ m.kinds ↔ m.get kind ≠ []
  kinds_ascending : m.kinds.Pairwise (· < ·)
  size_eq : m.size = annotations.eraseDups.length
  size_eq_zero_iff : m.size = 0 ↔ m.isEmpty = true

/-- Metadata that presents a list answers every query as the list does. -/
theorem Presents.indexes (h : m.Presents xs) : m.Indexes xs where
  get_eq := h.get_eq
  has_iff := h.collected.grouped.has_iff
  mem_kinds := h.collected.grouped.mem_kinds
  kinds_ascending := h.collected.grouped.kinds_ascending
  size_eq := h.size_eq
  size_eq_zero_iff := h.collected.grouped.size_eq_zero_iff

/-- Metadata indexes what came since the last step that replaced, and keeps its owner. It does not
matter whether annotations are collected at once or some of them are taken in later, or whether a
step is repeated. -/
theorem indexes_history (owner : String) (annotations : List Annotation) (steps : List Intake) :
    ((ofAnnotations owner annotations).takeAll steps).Indexes (history annotations steps) ∧
    ((∀ s ∈ steps, s.replaces = false) →
      history annotations steps = annotations ++ steps.flatMap Intake.annotations) ∧
    (∀ before s after, steps = before ++ s :: after → s.replaces = true →
      (∀ later ∈ after, later.replaces = false) →
      history annotations steps = (s :: after).flatMap Intake.annotations) ∧
    ((ofAnnotations owner annotations).takeAll steps).owner = owner ∧
    (∀ other more, ofAnnotations owner (annotations ++ more) =
      (ofAnnotations owner annotations).update (ofAnnotations other more) false) ∧
    ∀ s, (((ofAnnotations owner annotations).takeAll steps).takeIn s).takeIn s =
      ((ofAnnotations owner annotations).takeAll steps).takeIn s := by
  have hstart := presents_ofAnnotations owner annotations
  have hrun := hstart.takeAll steps
  refine ⟨hrun.indexes, history_of_keeping annotations, ?_, ?_, ?_, hrun.takeIn_takeIn⟩
  · intro before s after hsteps hs hafter
    rw [hsteps]
    exact history_of_replacing annotations hs hafter
  · rw [owner_takeAll, owner_ofAnnotations]
  · intro other more
    have hlater := hstart.update (presents_ofAnnotations other more) false
    refine (presents_ofAnnotations owner (annotations ++ more)).eq hlater ?_
    rw [owner_update, owner_ofAnnotations, owner_ofAnnotations]

/-- An annotation with a number. -/
def numbered (kind : String) (n : Int64) : Annotation :=
  { kind, args := [.int n] }

/-- A step that adds, one that starts anew, and one that repeats part of what the second brought. -/
def intakes : List Intake :=
  [{ owner := "First", annotations := [numbered "A" 3], replaces := false },
    { owner := "Second", annotations := [numbered "B" 4, numbered "A" 1], replaces := true },
    { owner := "Third", annotations := [numbered "A" 1, numbered "A" 2], replaces := false }]

/-- The annotations from before a replacement are gone, and a repeated one counts once. -/
theorem intakes_since_the_second_are_indexed :
    ∃ m, m = (ofAnnotations "Main" [numbered "B" 1, numbered "A" 2]).takeAll intakes ∧
      m.Indexes [numbered "B" 4, numbered "A" 1, numbered "A" 1, numbered "A" 2] ∧
      m.kinds = ["A", "B"] ∧ m.get "A" = [numbered "A" 1, numbered "A" 2] ∧ m.size = 3 := by
  obtain ⟨hindexes, -, hreplacing, -, -, -⟩ :=
    indexes_history "Main" [numbered "B" 1, numbered "A" 2] intakes
  have hhistory := hreplacing [_] _ [_] rfl rfl (by simp)
  rw [hhistory] at hindexes
  exact ⟨_, rfl, hindexes, by decide, by decide, by decide⟩

end Metadata

end TypeModel
