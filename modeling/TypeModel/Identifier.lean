import TypeModel.Signature.Agreement
import TypeModel.Store.Names

/-!
# Member identifiers

Members of types that know nothing of each other are matched by what they look like: kind, name,
type and parameter types. Two identifiers are *identical* if all of that is the same, and they
*agree* if kind, name and number of parameters are the same and the types agree position by
position. What agreeing identifiers share exactly is their *shape*.
-/

namespace TypeModel

/-- What a member looks like from outside. -/
structure Identifier where
  kind : MemberKind
  name : String
  /-- The type of the value, or what a method returns. -/
  type : Signature
  /-- The parameter types of a method or of a property with accessors. -/
  params : Option (List Signature)
  deriving DecidableEq, Inhabited

/-- What agreeing identifiers have in common: kind, name and number of parameters. -/
structure Identifier.Shape where
  kind : MemberKind
  name : String
  arity : Option Nat
  deriving DecidableEq, Repr, Inhabited

namespace Identifier

def shape (a : Identifier) : Shape :=
  ⟨a.kind, a.name, a.params.map List.length⟩

/-- Whether two parameter lists are both absent, or both present and agree position by position. -/
def paramsAgree : Option (List Signature) → Option (List Signature) → Bool
  | none, none => true
  | some xs, some ys => Signature.agreesAll xs ys
  | _, _ => false

/-- Whether two identifiers are those of the same member up to generic parameters. -/
def agrees (a b : Identifier) : Bool :=
  a.kind = b.kind && a.name = b.name && a.type.agrees b.type && paramsAgree a.params b.params

theorem agrees_refl (a : Identifier) : a.agrees a = true := by
  rcases a with ⟨kind, name, type, _ | params⟩ <;>
    simp [agrees, paramsAgree, Signature.agrees_refl, Signature.agreesAll_refl]

theorem paramsAgree_comm (p q : Option (List Signature)) : paramsAgree p q = paramsAgree q p := by
  rcases p with _ | xs <;> rcases q with _ | ys
  · rfl
  · rfl
  · rfl
  · exact Signature.agreesAll_comm xs ys

theorem agrees_comm (a b : Identifier) : a.agrees b = b.agrees a := by
  unfold agrees
  rw [Signature.agrees_comm, paramsAgree_comm, decide_eq_decide.2 (eq_comm (a := a.kind)),
    decide_eq_decide.2 (eq_comm (a := a.name))]

theorem shape_eq_of_agrees {a b : Identifier} (h : a.agrees b = true) : a.shape = b.shape := by
  rcases a with ⟨kind, name, type, params⟩
  rcases b with ⟨kind', name', type', params'⟩
  simp only [agrees, Bool.and_eq_true, decide_eq_true_eq] at h
  obtain ⟨⟨⟨rfl, rfl⟩, -⟩, hparams⟩ := h
  rcases params with _ | xs <;> rcases params' with _ | ys
  · rfl
  · exact absurd hparams Bool.false_ne_true
  · exact absurd hparams Bool.false_ne_true
  · simp [shape, Signature.length_eq_of_agreesAll hparams]

/-- Whether the identifier is that of an instance constructor without parameters. -/
def isDefaultConstructor (a : Identifier) : Bool :=
  a.kind = .method && a.name = constructorName && a.params = some []

/-- An identifier as text: kind, name, parameter types if it has any, and type. -/
def render (a : Identifier) : String :=
  let params := match a.params with
    | none => ""
    | some params => "(" ++ ", ".intercalate (params.map Signature.render) ++ ")"
  a.kind.word ++ " " ++ a.name ++ params ++ ": " ++ a.type.render

end Identifier

namespace Store

def params? (s : Store) (m : MethodId) : Option (List Signature) :=
  (s.method? m).map MethodDecl.params

/-- The parameter types of a member. Those of a property are its getter's, or its setter's without
the last one, which takes the value; without accessors it has none, not even an empty list. -/
def memberParams? (s : Store) : MemberDecl → Option (Option (List Signature))
  | .method d => some (some d.params)
  | .property d =>
    match d.getter, d.setter with
    | some getter, _ => (s.params? getter).map some
    | none, some setter => (s.params? setter).map fun params => some params.dropLast
    | none, none => some none
  | _ => some none

def identifier? (s : Store) (m : MemberId) : Option Identifier := do
  let d ← s.member? m
  return { kind := m.kind, name := d.name, type := d.type, params := ← s.memberParams? d }

theorem identifier?_eq_some {s : Store} {m : MemberId} {key : Identifier}
    (h : s.identifier? m = some key) : ∃ d, s.member? m = some d ∧ key.kind = m.kind ∧
      key.name = d.name ∧ key.type = d.type ∧ s.memberParams? d = some key.params := by
  obtain ⟨d, hd, h⟩ := Option.bind_eq_some_iff.1 h
  obtain ⟨params, hparams, h⟩ := Option.bind_eq_some_iff.1 h
  cases h
  exact ⟨d, hd, rfl, rfl, rfl, hparams⟩

/-- The identifier of a declaration; modules and types are rejected. -/
def identify (s : Store) (id : DeclId) : Answer Identifier := do
  .inRange (s.identifier? (← s.asMember id))

end Store

end TypeModel
