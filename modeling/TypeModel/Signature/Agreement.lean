import TypeModel.Signature.Basic

/-!
# Agreement of signatures

Members of independently declared types are matched by signature, and a position that holds an
unbound generic parameter, directly or behind a managed reference, fits any type. Such a position
is a *hole*. Agreement is reflexive and symmetric, but not transitive: two different types both
agree with a hole.
-/

namespace TypeModel.Signature

/-- Whether the signature fits every other: a generic parameter, or a reference to one. -/
def isHole (s : Signature) : Bool :=
  s.dereferenced.isGenericParam

mutual

/-- Whether two signatures are the same up to what stands at a hole of either. -/
def agrees : Signature → Signature → Bool
  | .named f xs, b => b.isHole || match b with
    | .named g ys => f == g && agreesAll xs ys
    | _ => false
  | .param .., _ => true
  | .byRef s, b => s.isGenericParam || b.isHole || match b with
    | .byRef t => s.agrees t
    | _ => false
  | .pointer s, b => b.isHole || match b with
    | .pointer t => s.agrees t
    | _ => false
  | .array s, b => b.isHole || match b with
    | .array t => s.agrees t
    | _ => false

/-- Whether two lists are equally long and agree position by position. -/
def agreesAll : List Signature → List Signature → Bool
  | [], [] => true
  | x :: xs, y :: ys => x.agrees y && agreesAll xs ys
  | _, _ => false

end

/-! ## Agreement is reflexive and symmetric -/

/-- The list form agrees with itself as soon as each of its signatures does. -/
theorem agreesAll_refl_of {xs : List Signature} (h : ∀ x ∈ xs, x.agrees x = true) :
    agreesAll xs xs = true := by
  induction xs with
  | nil => rfl
  | cons x xs ih =>
    simp only [agreesAll, Bool.and_eq_true]
    exact ⟨h x List.mem_cons_self, ih fun y hy => h y (List.mem_cons_of_mem _ hy)⟩

theorem agrees_refl (s : Signature) : s.agrees s = true := by
  induction s with
  | named f xs ih => simp [agrees, agreesAll_refl_of ih]
  | param => rfl
  | byRef s ih => simp [agrees, ih]
  | pointer s ih => simp [agrees, ih]
  | array s ih => simp [agrees, ih]

theorem agreesAll_refl (xs : List Signature) : agreesAll xs xs = true :=
  agreesAll_refl_of fun x _ => agrees_refl x

theorem agrees_of_isHole {a : Signature} (h : a.isHole = true) (b : Signature) :
    a.agrees b = true := by
  cases a with
  | param => rfl
  | byRef s =>
    have hs : s.isGenericParam = true := h
    simp [agrees, hs]
  | named | pointer | array => exact absurd h Bool.false_ne_true

/-- The list form does not depend on the order of its operands if that of its members does not. -/
theorem agreesAll_comm_of {xs : List Signature} (h : ∀ x ∈ xs, ∀ b, x.agrees b = b.agrees x)
    (ys : List Signature) : agreesAll xs ys = agreesAll ys xs := by
  induction xs generalizing ys with
  | nil => cases ys <;> rfl
  | cons x xs ih =>
    cases ys with
    | nil => rfl
    | cons y ys =>
      simp only [agreesAll]
      rw [h x List.mem_cons_self y, ih (fun z hz => h z (List.mem_cons_of_mem _ hz)) ys]

theorem agrees_comm (a b : Signature) : a.agrees b = b.agrees a := by
  induction a generalizing b with
  | named f xs ih =>
    cases b with
    | named g ys =>
      simp only [agrees, isHole, dereferenced, isGenericParam, Bool.false_or]
      rw [agreesAll_comm_of ih ys, Bool.beq_comm]
    | _ => simp [agrees, isHole, dereferenced, isGenericParam]
  | param owner position name => cases b <;> simp [agrees, isHole, dereferenced, isGenericParam]
  | byRef s ih =>
    cases b with
    | byRef t =>
      simp only [agrees, isHole, dereferenced]
      rw [ih t]
      cases s.isGenericParam <;> cases t.isGenericParam <;> rfl
    | _ => simp [agrees, isHole, dereferenced, isGenericParam]
  | pointer s ih =>
    cases b with
    | pointer t =>
      simp only [agrees, isHole, dereferenced, isGenericParam, Bool.false_or]
      exact ih t
    | _ => simp [agrees, isHole, dereferenced, isGenericParam]
  | array s ih =>
    cases b with
    | array t =>
      simp only [agrees, isHole, dereferenced, isGenericParam, Bool.false_or]
      exact ih t
    | _ => simp [agrees, isHole, dereferenced, isGenericParam]

theorem agreesAll_comm (xs ys : List Signature) : agreesAll xs ys = agreesAll ys xs :=
  agreesAll_comm_of (fun x _ => agrees_comm x) ys

theorem length_eq_of_agreesAll {xs ys : List Signature} (h : agreesAll xs ys = true) :
    xs.length = ys.length := by
  induction xs generalizing ys with
  | nil => cases ys with
    | nil => rfl
    | cons => exact absurd h Bool.false_ne_true
  | cons x xs ih => cases ys with
    | nil => exact absurd h Bool.false_ne_true
    | cons y ys =>
      simp only [agreesAll, Bool.and_eq_true] at h
      simp only [List.length_cons, ih h.2]

end TypeModel.Signature
