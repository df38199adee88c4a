import TypeModel.Proofs.IdentifierMap

/-!
# Computations that go alike

Two computations go alike if both fail, and for the same reason, or both succeed with values that
are related (`Alike`; without reasons it is `Option.Rel`). Sequences and traversals go alike if each
of their steps does, whatever related values the steps before it may have led to.
-/

namespace TypeModel

/-! ## Failures without a reason -/

section Option

variable {α α' β β' : Type} {R : α → α' → Prop} {S : β → β' → Prop}

theorem option_rel_refl {R : α → α → Prop} (hR : ∀ a, R a a) (o : Option α) :
    Option.Rel R o o := by
  cases o with
  | none => exact .none
  | some a => exact .some (hR a)

theorem option_rel_imp {R' : α → α' → Prop} {o : Option α} {o' : Option α'}
    (h : Option.Rel R o o') (himp : ∀ a a', R a a' → R' a a') : Option.Rel R' o o' := by
  cases h with
  | none => exact .none
  | some hab => exact .some (himp _ _ hab)

theorem option_rel_bind {o : Option α} {o' : Option α'} {f : α → Option β} {f' : α' → Option β'}
    (h : Option.Rel R o o') (hf : ∀ a a', R a a' → Option.Rel S (f a) (f' a')) :
    Option.Rel S (o.bind f) (o'.bind f') := by
  cases h with
  | none => exact .none
  | some hab => exact hf _ _ hab

theorem option_rel_bind_same {o : Option α} {f : α → Option β} {f' : α → Option β'}
    (hf : ∀ a, Option.Rel S (f a) (f' a)) : Option.Rel S (o.bind f) (o.bind f') := by
  cases o with
  | none => exact .none
  | some a => exact hf a

theorem option_rel_map {o : Option α} {o' : Option α'} {f : α → β} {f' : α' → β'}
    (h : Option.Rel R o o') (hf : ∀ a a', R a a' → S (f a) (f' a')) :
    Option.Rel S (o.map f) (o'.map f') := by
  cases h with
  | none => exact .none
  | some hab => exact .some (hf _ _ hab)

theorem option_rel_of_map {o : Option α} {o' : Option α'} {f : α → β} {f' : α' → β'}
    (h : Option.Rel S (o.map f) (o'.map f')) :
    Option.Rel (fun a a' => S (f a) (f' a')) o o' := by
  cases o <;> cases o' <;> cases h
  · exact .none
  · next hab => exact .some hab

/-- A traversal of related lists goes alike if each step does, and lists of related results come
out. -/
theorem option_rel_mapM {xs : List α} {xs' : List α'} {f : α → Option β} {f' : α' → Option β'}
    (h : List.Forall₂ R xs xs') (hf : ∀ a a', R a a' → Option.Rel S (f a) (f' a')) :
    Option.Rel (List.Forall₂ S) (xs.mapM f) (xs'.mapM f') := by
  induction h with
  | nil => exact .some .nil
  | cons hab _ ih =>
    rw [List.mapM_cons, List.mapM_cons]
    apply option_rel_bind (hf _ _ hab)
    intro b b' hb
    apply option_rel_bind ih
    intro bs bs' hbs
    exact .some (.cons hb hbs)

/-- Folds over related lists are equal if no step tells related elements apart. -/
theorem option_foldlM_eq {f : β → α → Option β} {f' : β → α' → Option β} {xs : List α}
    {xs' : List α'} (h : List.Forall₂ R xs xs') (hf : ∀ b a a', R a a' → f b a = f' b a') (b : β) :
    xs.foldlM f b = xs'.foldlM f' b := by
  induction h generalizing b with
  | nil => rfl
  | cons hab _ ih =>
    rw [List.foldlM_cons, List.foldlM_cons, hf b _ _ hab]
    exact Option.bind_congr fun c _ => ih c

end Option

/-! ## Failures with a reason -/

section Except

variable {ε α α' β β' : Type} {R : α → α' → Prop} {S : β → β' → Prop}

/-- Both computations fail for the same reason, or their values are related. -/
inductive Alike (R : α → α' → Prop) : Except ε α → Except ε α' → Prop where
  | ok {a : α} {a' : α'} (related : R a a') : Alike R (.ok a) (.ok a')
  | error (e : ε) : Alike R (.error e) (.error e)

namespace Alike

variable {x : Except ε α} {x' : Except ε α'}

theorem isOk_iff (h : Alike R x x') : (∃ a, x = .ok a) ↔ ∃ a', x' = .ok a' := by
  cases h with
  | ok hab => exact ⟨fun _ => ⟨_, rfl⟩, fun _ => ⟨_, rfl⟩⟩
  | error e => exact ⟨nofun, nofun⟩

theorem error_iff (h : Alike R x x') (e : ε) : x = .error e ↔ x' = .error e := by
  cases h with
  | ok hab => exact ⟨nofun, nofun⟩
  | error e' =>
    constructor
    · intro heq
      cases heq
      rfl
    · intro heq
      cases heq
      rfl

theorem related_of_ok {a : α} {a' : α'} (h : Alike R x x') (hx : x = .ok a) (hx' : x' = .ok a') :
    R a a' := by
  cases h with
  | ok hab =>
    cases hx
    cases hx'
    exact hab
  | error e => cases hx

/-- A sequence goes alike if its second part does after related results of its first. -/
theorem bind {f : α → Except ε β} {f' : α' → Except ε β'} (h : Alike R x x')
    (hf : ∀ a a', R a a' → Alike S (f a) (f' a')) : Alike S (x >>= f) (x' >>= f') := by
  cases h with
  | ok hab => exact hf _ _ hab
  | error e => exact .error e

theorem bind_same {f : α → Except ε β} {f' : α → Except ε β'}
    (hf : ∀ a, Alike S (f a) (f' a)) : Alike S (x >>= f) (x >>= f') := by
  cases x with
  | ok a => exact hf a
  | error e => exact .error e

/-- A traversal of related lists goes alike, up to the first failure and including it. -/
theorem mapM {xs : List α} {xs' : List α'} {f : α → Except ε β} {f' : α' → Except ε β'}
    (h : List.Forall₂ R xs xs') (hf : ∀ a a', R a a' → Alike S (f a) (f' a')) :
    Alike (List.Forall₂ S) (xs.mapM f) (xs'.mapM f') := by
  induction h with
  | nil => exact .ok .nil
  | cons hab _ ih =>
    rw [List.mapM_cons, List.mapM_cons]
    apply (hf _ _ hab).bind
    intro b b' hb
    apply ih.bind
    intro bs bs' hbs
    exact .ok (.cons hb hbs)

end Alike

/-- Handles that lead nowhere do so on both sides. -/
theorem alike_inRange {o : Option α} {o' : Option α'} (h : Option.Rel R o o') :
    Alike R (Answer.inRange o) (Answer.inRange o') := by
  cases h with
  | none => exact .error _
  | some hab => exact .ok hab

/-- What is rejected on one side is rejected on the other, for the same reason. -/
theorem alike_judged {x : Except ModelError α} {x' : Except ModelError α'} (h : Alike R x x') :
    Alike R (Answer.judged x) (Answer.judged x') := by
  cases h with
  | ok hab => exact .ok hab
  | error e => exact .error _

end Except

/-! ## Maps keyed by identifier -/

namespace IdentifierMap

variable {ε α α' β β' : Type} {R : α → α' → Prop} {S : β → β' → Prop} {m : IdentifierMap α}
  {m' : IdentifierMap α'}

theorem Replaces.refl {R : α → α → Prop} (hR : ∀ a, R a a) (m : IdentifierMap α) :
    Replaces R m m :=
  ⟨rfl, List.forall₂_same.2 fun e _ => ⟨rfl, hR e.2⟩⟩

/-- Values that are worked out alike from related values come under the same identifiers. -/
theorem Replaces.option_rel_mapM {f : α → Option β} {f' : α' → Option β'} (h : Replaces R m m')
    (hf : ∀ a a', R a a' → Option.Rel S (f a) (f' a')) :
    Option.Rel (Replaces S) (m.mapM fun _ a => f a) (m'.mapM fun _ a => f' a) := by
  refine option_rel_bind (TypeModel.option_rel_mapM (S := fun e e' => e'.1 = e.1 ∧ S e.2 e'.2)
    h.entries fun e e' he => ?_) fun es es' hes => .some ⟨h.buckets_eq, hes⟩
  exact option_rel_bind (hf _ _ he.2) fun b b' hb => .some ⟨he.1, hb⟩

/-- Values that are worked out alike from related values come under the same identifiers, or the
first failure is the same. -/
theorem Replaces.alike_mapM {f : α → Except ε β} {f' : α' → Except ε β'} (h : Replaces R m m')
    (hf : ∀ a a', R a a' → Alike S (f a) (f' a')) :
    Alike (Replaces S) (m.mapM fun _ a => f a) (m'.mapM fun _ a => f' a) := by
  refine (Alike.mapM (S := fun e e' => e'.1 = e.1 ∧ S e.2 e'.2) h.entries fun e e' he => ?_).bind
    fun es es' hes => .ok ⟨h.buckets_eq, hes⟩
  exact (hf _ _ he.2).bind fun b b' hb => .ok ⟨he.1, hb⟩

end IdentifierMap

end TypeModel
