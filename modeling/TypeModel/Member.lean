import TypeModel.Store.Names

/-!
# Members

The record of one member of a type: its declaration, the declaration that backs it, its names, its
merged metadata, whether it is ignored, and what only its kind has.
-/

namespace TypeModel

/-- What only methods have. -/
structure MethodDetails where
  /-- The declaration, which a synthesized static constructor lacks. -/
  id : Option MethodId
  isStatic : Bool
  /-- Whether the method is an instance constructor. -/
  isConstructor : Bool
  /-- The number of the method among the overloads that share its name. -/
  overloadIndex : Option Nat := none
  /-- The property or event that the method was reached through. -/
  accessorOf : Option MemberId := none
  deriving DecidableEq, Inhabited

/-- What only members of one kind have. -/
inductive MemberDetails where
  | field (id : FieldId) (type : Signature) (isStatic : Bool)
  | property (id : PropertyId) (type : Signature) (getter setter : Option MethodId)
  | event (id : EventId) (type : Signature) (adder remover : Option MethodId)
  | method (details : MethodDetails)
  deriving DecidableEq, Inhabited

namespace MemberDetails

def kind : MemberDetails → MemberKind
  | .field .. => .field
  | .property .. => .property
  | .event .. => .event
  | .method _ => .method

/-- What the details of a member are by its declaration. -/
def ofDecl (accessorOf : Option MemberId) : MemberId → MemberDecl → Option MemberDetails
  | .field id, .field d => some (.field id d.type d.modifiers.isStatic)
  | .property id, .property d => some (.property id d.type d.getter d.setter)
  | .event id, .event d => some (.event id d.type d.adder d.remover)
  | .method id, .method d =>
    some (.method {
      id := some id, isStatic := d.modifiers.isStatic, isConstructor := d.isConstructor,
      accessorOf })
  | _, _ => none

def isStaticMethod : MemberDetails → Bool
  | .method d => d.isStatic
  | _ => false

def isConstructor : MemberDetails → Bool
  | .method d => d.isConstructor
  | _ => false

/-- The number of the member among overloads of one name. -/
def overloadIndex : MemberDetails → Option Nat
  | .method d => d.overloadIndex
  | _ => none

/-- The property or event that the member was reached through. -/
def accessorOf : MemberDetails → Option MemberId
  | .method d => d.accessorOf
  | _ => none

/-- The details with a number among overloads, which only methods take. -/
def withOverloadIndex (details : MemberDetails) (index : Option Nat) : MemberDetails :=
  match details with
  | .method d => .method { d with overloadIndex := index }
  | other => other

end MemberDetails

structure Member where
  owner : TypeId
  /-- The declaration of the member, a proxy's for a contributed one. -/
  decl : DeclId
  /-- The declaration that supplies the implementation. -/
  backing : DeclId
  qualifiedName : String
  /-- The declared name. -/
  name : String
  /-- The name that emitted code uses. -/
  visibleName : String
  metadata : Metadata
  /-- Whether the member must not be emitted. -/
  ignored : Bool
  details : MemberDetails
  deriving DecidableEq, Inhabited

namespace Member

def kind (m : Member) : MemberKind :=
  m.details.kind

/-- Whether another declaration supplies the implementation. -/
def isSubstituted (m : Member) : Bool :=
  m.backing != m.decl

/-- Whether the member is a method without a declaration. -/
def isSynthesized (m : Member) : Bool :=
  match m.details with
  | .method d => d.id.isNone
  | _ => false

/-- How a message names the kind of member that it wanted. -/
def expectation : MemberKind → String
  | .field => "a field"
  | .property => "a property"
  | .event => "an event"
  | .method => "a method"

/-- The member, provided that it is of the given kind. -/
def narrow (m : Member) (kind : MemberKind) : Except ModelError Member :=
  if m.kind = kind then .ok m
  else .error (.unsupportedKind m.qualifiedName m.kind.word (expectation kind))

/-- A static constructor without a declaration, for which the handle of its type stands in. -/
def implicitStaticConstructor (owner : TypeId) (typeName : String) (ignored : Bool) : Member :=
  let qualifiedName := Store.memberName typeName staticConstructorName
  { owner
    decl := .type owner
    backing := .type owner
    qualifiedName
    name := staticConstructorName
    visibleName := staticConstructorName
    metadata := { owner := qualifiedName }
    ignored
    details := .method { id := none, isStatic := true, isConstructor := false } }

end Member

end TypeModel
