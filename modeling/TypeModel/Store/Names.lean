import TypeModel.Answer
import TypeModel.Metadata
import TypeModel.Store.Basic

/-!
# Names of declarations

A member is known by two names. Its *qualified name* puts the full name of the declaring type in
front and serves messages and the search for hidden names. Its *declared name* is what emitted code
would call it without renaming: the short name, except that properties and events of an interface
carry the interface in front, so that two interfaces can declare the same member, and that a method
that implements another by explicit mention takes the qualified name of that other.
-/

namespace TypeModel.Store

/-- The full name of a type followed by the name of a member of it. -/
def memberName (typeName name : String) : String :=
  typeName ++ "." ++ name

def ownerOf? (s : Store) (m : MemberId) : Option TypeId :=
  (s.member? m).map MemberDecl.owner

theorem ownerOf?_of_member? {s : Store} {m : MemberId} {d : MemberDecl}
    (h : s.member? m = some d) : s.ownerOf? m = some d.owner :=
  congrArg (Option.map MemberDecl.owner) h

def qualifiedMemberName? (s : Store) (m : MemberId) : Option String := do
  let d ← s.member? m
  let t ← s.type? d.owner
  return memberName t.fullName d.name

def qualifiedName? (s : Store) : DeclId → Option String
  | .module id => (s.module? id).map ModuleDecl.name
  | .type id => (s.type? id).map TypeDecl.fullName
  | .member m => s.qualifiedMemberName? m

/-- The short name of a member, with the declaring type in front if that is an interface. -/
def interfaceQualified? (s : Store) (owner : TypeId) (name : String) : Option String := do
  let t ← s.type? owner
  return if t.kind = .interfaceType then memberName t.fullName name else name

def declaredMemberName? (s : Store) (m : MemberId) : Option String := do
  match ← s.member? m with
  | .field d => return d.name
  | .property d => s.interfaceQualified? d.owner d.name
  | .event d => s.interfaceQualified? d.owner d.name
  | .method d =>
    match d.overrides with
    | [] => return d.name
    | first :: _ => s.qualifiedMemberName? (.method first)

/-- The declared name of a declaration; modules and types go by their qualified names. -/
def declaredName? (s : Store) : DeclId → Option String
  | .member m => s.declaredMemberName? m
  | id => s.qualifiedName? id

/-- The metadata of a declaration, from the annotations attached to it. -/
def metadata? (s : Store) (id : DeclId) : Option Metadata := do
  let d ← s.decl? id
  return .ofAnnotations (← s.qualifiedName? id) d.annotations

/-- The handle as that of a member; modules and types are rejected. -/
def asMember (s : Store) (id : DeclId) : Answer MemberId :=
  match id with
  | .member m => .ok m
  | _ => do
    let name ← .inRange (s.qualifiedName? id)
    .reject (.unsupportedKind name id.kind.word "a field, property, event or method")

end TypeModel.Store
