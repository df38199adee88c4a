import Mathlib.Data.List.Forall2
import TypeModel.Answer

/-!
# Traversals that may stop

Records are built by traversals that stop at the first failure. A traversal succeeds exactly when
each of its steps does (`option_mapM_eq_some`, `except_mapM_eq_ok`), its failure is that of the
first step that fails (`except_mapM_eq_error`), and what every step of a fold preserves holds of
its result (`option_foldlM_induct`).
-/

namespace TypeModel

section Bind

variable {ε α β : Type}

theorem except_ok_bind (a : α) (f : α → Except ε β) : Except.ok a >>= f = f a := rfl

theorem except_bind_eq_ok {x : Except ε α} {f : α → Except ε β} {b : β} :
    x >>= f = .ok b ↔ ∃ a, x = .ok a ∧ f a = .ok b := by
  cases x with
  | error e => exact ⟨nofun, nofun⟩
  | ok a => exact ⟨fun h => ⟨a, rfl, h⟩, fun ⟨_, h, hf⟩ => by cases h; exact hf⟩

theorem except_bind_eq_error {x : Except ε α} {f : α → Except ε β} {e : ε} :
    x >>= f = .error e ↔ x = .error e ∨ ∃ a, x = .ok a ∧ f a = .error e := by
  cases x with
  | error e' =>
    refine ⟨fun h => .inl (by cases h; rfl), ?_⟩
    rintro (h | ⟨_, h, _⟩)
    · cases h; rfl
    · cases h
  | ok a =>
    refine ⟨fun h => .inr ⟨a, rfl, h⟩, ?_⟩
    rintro (h | ⟨_, h, hf⟩)
    · cases h
    · cases h; exact hf

theorem except_map_eq_ok {x : Except ε α} {f : α → β} {b : β} :
    x.map f = .ok b ↔ ∃ a, x = .ok a ∧ f a = b := by
  cases x with
  | error e => exact ⟨nofun, nofun⟩
  | ok a =>
    refine ⟨fun h => ⟨a, rfl, Except.ok.inj h⟩, ?_⟩
    rintro ⟨_, h, rfl⟩
    cases h
    rfl

theorem except_map_eq_error {x : Except ε α} {f : α → β} {e : ε} :
    x.map f = .error e ↔ x = .error e := by
  cases x with
  | error e' =>
    exact ⟨fun h => congrArg Except.error (Except.error.inj h),
      fun h => congrArg Except.error (Except.error.inj h)⟩
  | ok a => exact ⟨nofun, nofun⟩

theorem inRange_eq_ok {o : Option α} {a : α} : Answer.inRange o = .ok a ↔ o = some a := by
  cases o with
  | none => exact ⟨nofun, nofun⟩
  | some b =>
    exact ⟨fun h => congrArg some (Except.ok.inj h),
      fun h => congrArg Except.ok (Option.some.inj h)⟩

theorem judged_eq_ok {x : Except ModelError α} {a : α} :
    Answer.judged x = .ok a ↔ x = .ok a := by
  cases x with
  | error e => exact ⟨nofun, nofun⟩
  | ok b =>
    exact ⟨fun h => congrArg Except.ok (Except.ok.inj h),
      fun h => congrArg Except.ok (Except.ok.inj h)⟩

end Bind

section MapM

variable {ε α β : Type}

/-- A traversal succeeds with the list of what each step gave. -/
theorem option_mapM_eq_some {f : α → Option β} {xs : List α} {ys : List β} :
    xs.mapM f = some ys ↔ List.Forall₂ (fun x y => f x = some y) xs ys := by
  induction xs generalizing ys with
  | nil =>
    rw [List.mapM_nil, List.forall₂_nil_left_iff]
    exact ⟨fun h => (Option.some.inj h).symm, fun h => by rw [h]; rfl⟩
  | cons x xs ih =>
    rw [List.mapM_cons, List.forall₂_cons_left_iff]
    constructor
    · intro h
      obtain ⟨y, hy, h⟩ := Option.bind_eq_some_iff.1 h
      obtain ⟨ys', hys, h⟩ := Option.bind_eq_some_iff.1 h
      exact ⟨y, ys', hy, ih.1 hys, (Option.some.inj h).symm⟩
    · rintro ⟨y, ys', hy, hys, rfl⟩
      exact Option.bind_eq_some_iff.2 ⟨y, hy, Option.bind_eq_some_iff.2 ⟨ys', ih.2 hys, rfl⟩⟩

theorem except_mapM_eq_ok {f : α → Except ε β} {xs : List α} {ys : List β} :
    xs.mapM f = .ok ys ↔ List.Forall₂ (fun x y => f x = .ok y) xs ys := by
  induction xs generalizing ys with
  | nil =>
    rw [List.mapM_nil, List.forall₂_nil_left_iff]
    exact ⟨fun h => (Except.ok.inj h).symm, fun h => by rw [h]; rfl⟩
  | cons x xs ih =>
    rw [List.mapM_cons, List.forall₂_cons_left_iff]
    constructor
    · intro h
      obtain ⟨y, hy, h⟩ := except_bind_eq_ok.1 h
      obtain ⟨ys', hys, h⟩ := except_bind_eq_ok.1 h
      exact ⟨y, ys', hy, ih.1 hys, (Except.ok.inj h).symm⟩
    · rintro ⟨y, ys', hy, hys, rfl⟩
      exact except_bind_eq_ok.2 ⟨y, hy, except_bind_eq_ok.2 ⟨ys', ih.2 hys, rfl⟩⟩

theorem except_mapM_congr {f g : α → Except ε β} {xs : List α} (h : ∀ x ∈ xs, f x = g x) :
    xs.mapM f = xs.mapM g := by
  induction xs with
  | nil => rfl
  | cons x xs ih =>
    rw [List.mapM_cons, List.mapM_cons, h x List.mem_cons_self,
      ih fun y hy => h y (List.mem_cons_of_mem _ hy)]

/-- A traversal fails with the failure of its first step that fails. -/
theorem except_mapM_eq_error {f : α → Except ε β} {xs : List α} {e : ε} :
    xs.mapM f = .error e ↔ ∃ before x after, xs = before ++ x :: after ∧
      (∀ b ∈ before, ∃ y, f b = .ok y) ∧ f x = .error e := by
  induction xs with
  | nil =>
    refine ⟨nofun, ?_⟩
    rintro ⟨before, x, after, h, -⟩
    cases before <;> cases h
  | cons x xs ih =>
    rw [List.mapM_cons, except_bind_eq_error]
    constructor
    · rintro (h | ⟨y, hy, h⟩)
      · exact ⟨[], x, xs, rfl, fun b hb => absurd hb List.not_mem_nil, h⟩
      · rcases except_bind_eq_error.1 h with h | ⟨ys, -, h⟩
        · obtain ⟨before, z, after, rfl, hb, hz⟩ := ih.1 h
          refine ⟨x :: before, z, after, rfl, fun b hmem => ?_, hz⟩
          rcases List.mem_cons.1 hmem with rfl | hmem
          · exact ⟨y, hy⟩
          · exact hb b hmem
        · cases h
    · rintro ⟨before, z, after, heq, hb, hz⟩
      cases before with
      | nil => cases heq; exact .inl hz
      | cons b before =>
        cases heq
        obtain ⟨y, hy⟩ := hb x List.mem_cons_self
        have hrest := ih.2 ⟨before, z, after, rfl, fun b h => hb b (List.mem_cons_of_mem _ h), hz⟩
        exact .inr ⟨y, hy, except_bind_eq_error.2 (.inl hrest)⟩

/-- A traversal succeeds exactly when each of its steps does. -/
theorem except_mapM_isOk_iff {f : α → Except ε β} {xs : List α} :
    (∃ ys, xs.mapM f = .ok ys) ↔ ∀ x ∈ xs, ∃ y, f x = .ok y := by
  constructor
  · rintro ⟨ys, h⟩ x hx
    obtain ⟨i, hi, rfl⟩ := List.getElem_of_mem hx
    have hall := except_mapM_eq_ok.1 h
    exact ⟨_, hall.get hi (by rw [← hall.length_eq]; exact hi)⟩
  · intro h
    cases hm : xs.mapM f with
    | ok ys => exact ⟨ys, rfl⟩
    | error e =>
      obtain ⟨before, x, after, rfl, -, hx⟩ := except_mapM_eq_error.1 hm
      obtain ⟨y, hy⟩ := h x (List.mem_append_right _ List.mem_cons_self)
      rw [hx] at hy
      cases hy

/-- Over an ascending list, a traversal fails with the failure of the least step that fails. -/
theorem except_mapM_eq_error_iff_least {f : α → Except ε β} {xs : List α} {e : ε}
    {lt : α → α → Prop} (hsorted : xs.Pairwise lt) (hasymm : ∀ x y, lt x y → ¬lt y x) :
    xs.mapM f = .error e ↔
      ∃ x ∈ xs, f x = .error e ∧ ∀ x' ∈ xs, lt x' x → ∃ y, f x' = .ok y := by
  rw [except_mapM_eq_error]
  constructor
  · rintro ⟨before, x, after, rfl, hbefore, hx⟩
    obtain ⟨-, hrest, -⟩ := List.pairwise_append.1 hsorted
    have hafter := (List.pairwise_cons.1 hrest).1
    refine ⟨x, List.mem_append_right _ List.mem_cons_self, hx, fun x' hmem hlt => ?_⟩
    rcases List.mem_append.1 hmem with hmem | hmem
    · exact hbefore x' hmem
    · rcases List.mem_cons.1 hmem with rfl | hmem
      · exact absurd hlt (hasymm x' x' hlt)
      · exact absurd (hafter x' hmem) (hasymm x' x hlt)
  · rintro ⟨x, hmem, hx, hleast⟩
    obtain ⟨before, after, rfl⟩ := List.append_of_mem hmem
    obtain ⟨-, -, hlt⟩ := List.pairwise_append.1 hsorted
    refine ⟨before, x, after, rfl, fun x' hx' => ?_, hx⟩
    exact hleast x' (List.mem_append_left _ hx') (hlt x' hx' x List.mem_cons_self)

/-- The values of a traversal are those of its steps. -/
theorem mem_of_except_mapM {f : α → Except ε β} {xs : List α} {ys : List β}
    (h : xs.mapM f = .ok ys) (y : β) : y ∈ ys ↔ ∃ x ∈ xs, f x = .ok y := by
  have hall := except_mapM_eq_ok.1 h
  clear h
  induction hall with
  | nil => exact ⟨fun h => absurd h List.not_mem_nil, fun ⟨_, h, _⟩ => absurd h List.not_mem_nil⟩
  | cons hx _ ih =>
    simp only [List.mem_cons, ih, exists_eq_or_imp, hx, Except.ok.injEq, eq_comm (a := y)]

/-- What steps leave readable in their values can be read off all values. -/
theorem map_of_except_mapM {f : α → Except ε β} {g : β → α} {xs : List α} {ys : List β}
    (hg : ∀ x y, f x = .ok y → g y = x) (h : xs.mapM f = .ok ys) : ys.map g = xs := by
  have hall := except_mapM_eq_ok.1 h
  clear h
  induction hall with
  | nil => rfl
  | cons hy _ ih => rw [List.map_cons, hg _ _ hy, ih]

theorem except_mapM_eq_map {f : α → Except ε β} {g : α → β} {xs : List α}
    (h : ∀ x ∈ xs, f x = .ok (g x)) : xs.mapM f = .ok (xs.map g) := by
  induction xs with
  | nil => rfl
  | cons x rest ih =>
    rw [List.mapM_cons, h x List.mem_cons_self, ih fun y hy => h y (List.mem_cons_of_mem _ hy)]
    rfl

/-- A traversal whose steps all succeed succeeds. -/
theorem option_mapM_exists {f : α → Option β} {xs : List α} (h : ∀ x ∈ xs, ∃ y, f x = some y) :
    ∃ ys, xs.mapM f = some ys := by
  induction xs with
  | nil => exact ⟨[], rfl⟩
  | cons x xs ih =>
    obtain ⟨y, hy⟩ := h x List.mem_cons_self
    obtain ⟨ys, hys⟩ := ih fun z hz => h z (List.mem_cons_of_mem _ hz)
    exact ⟨y :: ys, by rw [List.mapM_cons, hy, hys]; rfl⟩

end MapM

section Related

variable {α β : Type} {R : α → β → Prop}

theorem exists_of_mem_right {xs : List α} {ys : List β} (h : List.Forall₂ R xs ys) {y : β}
    (hy : y ∈ ys) : ∃ x ∈ xs, R x y := by
  induction h with
  | nil => exact absurd hy List.not_mem_nil
  | @cons x _ _ _ hhead _ ih =>
    rcases List.mem_cons.1 hy with rfl | hy
    · exact ⟨x, List.mem_cons_self, hhead⟩
    · obtain ⟨x', hx', hR⟩ := ih hy
      exact ⟨x', List.mem_cons_of_mem _ hx', hR⟩

theorem exists_of_mem_left {xs : List α} {ys : List β} (h : List.Forall₂ R xs ys) {x : α}
    (hx : x ∈ xs) : ∃ y ∈ ys, R x y :=
  exists_of_mem_right h.flip hx

/-- What is known of the elements of the first list may be used to relate them to the second. -/
theorem forall₂_imp_of_mem {S : α → β → Prop} {xs : List α} {ys : List β}
    (h : List.Forall₂ R xs ys) (himp : ∀ x ∈ xs, ∀ y, R x y → S x y) : List.Forall₂ S xs ys :=
  ((List.forall₂_and_left xs ys).2 ⟨himp, h⟩).imp fun _ _ hxy => hxy.1 _ hxy.2

theorem map_eq_of_forall₂ {γ : Type} {f : α → γ} {g : β → γ} {xs : List α} {ys : List β}
    (h : List.Forall₂ R xs ys) (hR : ∀ x y, R x y → g y = f x) : ys.map g = xs.map f := by
  induction h with
  | nil => rfl
  | cons hhead _ ih => rw [List.map_cons, List.map_cons, hR _ _ hhead, ih]

/-- Relations between elements of a list carry over to a list with the same images. -/
theorem pairwise_of_map_eq {γ : Type} {f : α → γ} {g : β → γ} {xs : List α} {ys : List β}
    {S : γ → γ → Prop} (heq : ys.map g = xs.map f) (h : xs.Pairwise fun x x' => S (f x) (f x')) :
    ys.Pairwise fun y y' => S (g y) (g y') := by
  rw [← List.pairwise_map, heq, List.pairwise_map]
  exact h

/-- If images with a property differ pairwise, an element is told by its image. -/
theorem eq_of_pairwise_ne {γ : Type} {P : γ → Prop} {f : α → γ} {xs : List α}
    (h : xs.Pairwise fun x y => P (f x) → f x ≠ f y) {x y : α} (hx : x ∈ xs) (hy : y ∈ xs)
    (hP : P (f x)) (heq : f x = f y) : x = y := by
  have hpair := List.pairwise_iff_getElem.1 h
  obtain ⟨i, hi, rfl⟩ := List.getElem_of_mem hx
  obtain ⟨j, hj, rfl⟩ := List.getElem_of_mem hy
  rcases Nat.lt_trichotomy i j with hlt | rfl | hgt
  · exact absurd heq (hpair i j hi hj hlt hP)
  · rfl
  · exact absurd heq.symm (hpair j i hj hi hgt (heq ▸ hP))

theorem exists_of_getElem?_right {xs : List α} {ys : List β} (h : List.Forall₂ R xs ys) {i : Nat}
    {y : β} (hy : ys[i]? = some y) : ∃ x, xs[i]? = some x ∧ R x y := by
  induction h generalizing i with
  | nil => cases hy
  | @cons x _ _ _ hhead _ ih =>
    cases i with
    | zero =>
      cases hy
      exact ⟨x, rfl, hhead⟩
    | succ i => exact ih hy

/-- A list that is related to an append splits where the append does. -/
theorem split_of_forall₂_append {xs xs' : List α} {ys : List β}
    (h : List.Forall₂ R (xs ++ xs') ys) :
    ∃ ys₁ ys₂, ys = ys₁ ++ ys₂ ∧ List.Forall₂ R xs ys₁ ∧ List.Forall₂ R xs' ys₂ := by
  induction xs generalizing ys with
  | nil => exact ⟨[], ys, rfl, .nil, h⟩
  | cons x xs ih =>
    obtain ⟨y, rest, hy, hrest, rfl⟩ := List.forall₂_cons_left_iff.1 h
    obtain ⟨ys₁, ys₂, rfl, h₁, h₂⟩ := ih hrest
    exact ⟨y :: ys₁, ys₂, rfl, .cons hy h₁, h₂⟩

/-- A list that is related to a flattened one is cut into the same pieces. -/
theorem split_of_forall₂_flatten {xss : List (List α)} {ys : List β}
    (h : List.Forall₂ R xss.flatten ys) :
    ∃ yss, ys = yss.flatten ∧ List.Forall₂ (List.Forall₂ R) xss yss := by
  induction xss generalizing ys with
  | nil => exact ⟨[], List.forall₂_nil_left_iff.1 h, .nil⟩
  | cons xs xss ih =>
    obtain ⟨ys₁, ys₂, rfl, h₁, h₂⟩ := split_of_forall₂_append h
    obtain ⟨yss, rfl, hyss⟩ := ih h₂
    exact ⟨ys₁ :: yss, rfl, .cons h₁ hyss⟩

end Related

/-- What every step of a fold preserves holds of the result if it holds of the start. -/
theorem option_foldlM_induct {α β : Type} {f : β → α → Option β} {xs : List α} {b b' : β}
    {P : β → Prop} (h : xs.foldlM f b = some b') (hb : P b)
    (step : ∀ x ∈ xs, ∀ c c', P c → f c x = some c' → P c') : P b' := by
  induction xs generalizing b with
  | nil => cases h; exact hb
  | cons x xs ih =>
    rw [List.foldlM_cons] at h
    obtain ⟨c, hc, h⟩ := Option.bind_eq_some_iff.1 h
    exact ih h (step x List.mem_cons_self b c hb hc)
      fun y hy => step y (List.mem_cons_of_mem _ hy)

/-- What each step of a fold brings about holds of the result if later steps keep it. -/
theorem option_foldlM_forall {α β : Type} {f : β → α → Option β} {xs : List α} {b b' : β}
    {P : β → Prop} {Q : α → β → Prop} (h : xs.foldlM f b = some b') (hb : P b)
    (step : ∀ x ∈ xs, ∀ c c', P c → f c x = some c' →
      P c' ∧ Q x c' ∧ ∀ y ∈ xs, Q y c → Q y c') :
    P b' ∧ ∀ x ∈ xs, Q x b' := by
  suffices hmain : ∀ done rest c, done ++ rest = xs → P c → (∀ x ∈ done, Q x c) →
      rest.foldlM f c = some b' → P b' ∧ ∀ x ∈ xs, Q x b' from
    hmain [] xs b rfl hb (fun x hx => absurd hx List.not_mem_nil) h
  intro done rest
  induction rest generalizing done with
  | nil =>
    intro c heq hP hQ h
    cases h
    rw [← heq, List.append_nil]
    exact ⟨hP, hQ⟩
  | cons x rest ih =>
    intro c heq hP hQ h
    rw [List.foldlM_cons] at h
    obtain ⟨c', hc', h⟩ := Option.bind_eq_some_iff.1 h
    have hx : x ∈ xs := heq ▸ List.mem_append_right _ List.mem_cons_self
    obtain ⟨hP', hQx, hkeep⟩ := step x hx c c' hP hc'
    refine ih (done ++ [x]) c' (by rw [List.append_assoc]; exact heq) hP' (fun y hy => ?_) h
    rcases List.mem_append.1 hy with hy | hy
    · exact hkeep y (heq ▸ List.mem_append_left _ hy) (hQ y hy)
    · rw [List.mem_singleton.1 hy]
      exact hQx

/-- A fold succeeds if each of its steps does from wherever the steps before it may lead. -/
theorem option_foldlM_exists {α β : Type} {f : β → α → Option β} {xs : List α} {b : β}
    {P : β → Prop} (hb : P b) (step : ∀ x ∈ xs, ∀ c, P c → ∃ c', f c x = some c' ∧ P c') :
    ∃ b', xs.foldlM f b = some b' ∧ P b' := by
  induction xs generalizing b with
  | nil => exact ⟨b, rfl, hb⟩
  | cons x xs ih =>
    obtain ⟨c, hc, hP⟩ := step x List.mem_cons_self b hb
    obtain ⟨b', hb', hP'⟩ := ih hP fun y hy => step y (List.mem_cons_of_mem _ hy)
    exact ⟨b', by rw [List.foldlM_cons, hc]; exact hb', hP'⟩

/-! ## Searching lists -/

section Find

variable {α : Type} {p : α → Bool} {xs : List α}

theorem find?_eq_some_of_unique {x : α} (hx : x ∈ xs) (hp : p x = true)
    (hunique : ∀ y ∈ xs, p y = true → y = x) : xs.find? p = some x := by
  cases h : xs.find? p with
  | none => exact absurd hp (List.find?_eq_none.1 h x hx)
  | some y => rw [hunique y (List.mem_of_find?_eq_some h) (List.find?_some h)]

/-- When at most one element meets a condition, the direction of the search does not matter. -/
theorem find?_reverse_of_unique (hunique : ∀ x ∈ xs, ∀ y ∈ xs, p x = true → p y = true → x = y) :
    xs.reverse.find? p = xs.find? p := by
  cases h : xs.find? p with
  | none =>
    rw [List.find?_eq_none] at h ⊢
    exact fun x hx => h x (List.mem_reverse.1 hx)
  | some x =>
    have hx : x ∈ xs := List.mem_of_find?_eq_some h
    have hp : p x = true := List.find?_some h
    exact find?_eq_some_of_unique (List.mem_reverse.2 hx) hp
      fun y hy hpy => hunique y (List.mem_reverse.1 hy) x hx hpy hp

end Find

end TypeModel
