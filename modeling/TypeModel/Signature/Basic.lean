/-!
# Type signatures

A signature is a type as a member declaration mentions it: a named type, possibly applied to
arguments, an unbound generic parameter, a managed reference, an unmanaged pointer or an array.
Signatures are compared structurally; the comparison that lets generic parameters stand for any
type is in `TypeModel.Signature.Agreement`.
-/

namespace TypeModel

/-- Which declaration introduces a generic parameter. -/
inductive GenericBinder where
  | type
  | method
  deriving DecidableEq, Repr, Inhabited

/-- A type as it appears in the signature of a member. -/
inductive Signature where
  /-- A named type applied to arguments; a plain type has none. -/
  | named (fullName : String) (args : List Signature)
  /-- An unbound generic parameter. -/
  | param (owner : GenericBinder) (position : Nat) (name : String)
  /-- A managed reference. -/
  | byRef (target : Signature)
  /-- An unmanaged pointer. -/
  | pointer (target : Signature)
  /-- A one-dimensional array. -/
  | array (element : Signature)
  deriving Repr, Inhabited

namespace Signature

abbrev plain (fullName : String) : Signature := .named fullName []

/-- The return type of a method that returns nothing. -/
abbrev void : Signature := plain "System.Void"

/-- Induction over signatures and, inside a named type, over its arguments. -/
@[elab_as_elim, induction_eliminator]
theorem induct {motive : Signature → Prop}
    (named : ∀ fullName args, (∀ a ∈ args, motive a) → motive (.named fullName args))
    (param : ∀ owner position name, motive (.param owner position name))
    (byRef : ∀ target, motive target → motive (.byRef target))
    (pointer : ∀ target, motive target → motive (.pointer target))
    (array : ∀ element, motive element → motive (.array element)) (s : Signature) : motive s :=
  Signature.rec (motive_1 := motive) (motive_2 := fun args => ∀ a ∈ args, motive a)
    named param byRef pointer array
    (fun _ h => absurd h List.not_mem_nil)
    (fun head tail hhead htail a ha => by
      rcases List.mem_cons.1 ha with rfl | ha
      · exact hhead
      · exact htail a ha) s

/-! ## Signatures have decidable equality -/

mutual

def decEq : (a b : Signature) → Decidable (a = b)
  | .named f xs, .named g ys =>
    if hname : f = g then
      match decEqList xs ys with
      | .isTrue hargs => .isTrue (by rw [hname, hargs])
      | .isFalse hargs => .isFalse fun h => hargs (Signature.named.inj h).2
    else .isFalse fun h => hname (Signature.named.inj h).1
  | .param o p n, .param o' p' n' =>
    if h : o = o' ∧ p = p' ∧ n = n' then .isTrue (by rw [h.1, h.2.1, h.2.2])
    else .isFalse fun heq => h (Signature.param.inj heq)
  | .byRef s, .byRef t => match decEq s t with
    | .isTrue h => .isTrue (by rw [h])
    | .isFalse h => .isFalse fun heq => h (Signature.byRef.inj heq)
  | .pointer s, .pointer t => match decEq s t with
    | .isTrue h => .isTrue (by rw [h])
    | .isFalse h => .isFalse fun heq => h (Signature.pointer.inj heq)
  | .array s, .array t => match decEq s t with
    | .isTrue h => .isTrue (by rw [h])
    | .isFalse h => .isFalse fun heq => h (Signature.array.inj heq)
  | .named .., .param .. | .named .., .byRef _ | .named .., .pointer _ | .named .., .array _
  | .param .., .named .. | .param .., .byRef _ | .param .., .pointer _ | .param .., .array _
  | .byRef _, .named .. | .byRef _, .param .. | .byRef _, .pointer _ | .byRef _, .array _
  | .pointer _, .named .. | .pointer _, .param .. | .pointer _, .byRef _ | .pointer _, .array _
  | .array _, .named .. | .array _, .param .. | .array _, .byRef _ | .array _, .pointer _ =>
    .isFalse nofun

def decEqList : (xs ys : List Signature) → Decidable (xs = ys)
  | [], [] => .isTrue rfl
  | [], _ :: _ => .isFalse nofun
  | _ :: _, [] => .isFalse nofun
  | x :: xs, y :: ys => match decEq x y with
    | .isFalse h => .isFalse fun heq => h (List.cons.inj heq).1
    | .isTrue hx => match decEqList xs ys with
      | .isTrue hxs => .isTrue (by rw [hx, hxs])
      | .isFalse h => .isFalse fun heq => h (List.cons.inj heq).2

end

instance : DecidableEq Signature := decEq

/-! ## Reading a signature -/

/-- The signature behind a managed reference, if it is one. -/
def dereferenced : Signature → Signature
  | .byRef target => target
  | s => s

def isGenericParam : Signature → Bool
  | .param .. => true
  | _ => false

mutual

/-- Whether an unmanaged pointer occurs anywhere in the signature. -/
def containsPointer : Signature → Bool
  | .named _ args => anyContainsPointer args
  | .param .. => false
  | .byRef target => target.containsPointer
  | .pointer _ => true
  | .array element => element.containsPointer

def anyContainsPointer : List Signature → Bool
  | [] => false
  | s :: rest => s.containsPointer || anyContainsPointer rest

end

theorem anyContainsPointer_eq_any (args : List Signature) :
    anyContainsPointer args = args.any containsPointer := by
  induction args with
  | nil => rfl
  | cons s rest ih => simp [anyContainsPointer, ih]

/-! ## Occurrence -/

/-- A signature occurs in another, or is that other. -/
inductive Occurs (inner : Signature) : Signature → Prop where
  | here : Occurs inner inner
  | arg {fullName : String} {args : List Signature} {a : Signature} (mem : a ∈ args)
      (occurs : Occurs inner a) : Occurs inner (.named fullName args)
  | byRef {s : Signature} (occurs : Occurs inner s) : Occurs inner (.byRef s)
  | pointer {s : Signature} (occurs : Occurs inner s) : Occurs inner (.pointer s)
  | array {s : Signature} (occurs : Occurs inner s) : Occurs inner (.array s)

theorem containsPointer_iff {s : Signature} :
    s.containsPointer = true ↔ ∃ target, Occurs (.pointer target) s := by
  induction s with
  | named fullName args ih =>
    rw [containsPointer, anyContainsPointer_eq_any, List.any_eq_true]
    constructor
    · rintro ⟨a, ha, hpointer⟩
      obtain ⟨target, hoccurs⟩ := (ih a ha).1 hpointer
      exact ⟨target, .arg ha hoccurs⟩
    · rintro ⟨target, hoccurs⟩
      cases hoccurs with
      | arg ha hoccurs => exact ⟨_, ha, (ih _ ha).2 ⟨target, hoccurs⟩⟩
  | param owner position name =>
    refine ⟨nofun, ?_⟩
    rintro ⟨target, hoccurs⟩
    cases hoccurs
  | byRef s ih =>
    refine ih.trans ⟨?_, ?_⟩
    · rintro ⟨target, hoccurs⟩
      exact ⟨target, .byRef hoccurs⟩
    · rintro ⟨target, hoccurs⟩
      cases hoccurs with
      | byRef hoccurs => exact ⟨target, hoccurs⟩
  | pointer s ih => exact ⟨fun _ => ⟨s, .here⟩, fun _ => rfl⟩
  | array s ih =>
    refine ih.trans ⟨?_, ?_⟩
    · rintro ⟨target, hoccurs⟩
      exact ⟨target, .array hoccurs⟩
    · rintro ⟨target, hoccurs⟩
      cases hoccurs with
      | array hoccurs => exact ⟨target, hoccurs⟩

/-! ## Printing -/

mutual

/-- The signature as a reader writes it: `List<Int>`, `T&`, `T*`, `T[]`. -/
def render : Signature → String
  | .named fullName [] => fullName
  | .named fullName (a :: args) =>
    fullName ++ "<" ++ ", ".intercalate (a.render :: renderAll args) ++ ">"
  | .param _ _ name => name
  | .byRef target => target.render ++ "&"
  | .pointer target => target.render ++ "*"
  | .array element => element.render ++ "[]"

def renderAll : List Signature → List String
  | [] => []
  | s :: rest => s.render :: renderAll rest

end

end Signature

end TypeModel
