import TypeModel.Annotation.Basic
import TypeModel.Handle

/-!
# Declarations

What a metadata reader knows of a module, a type or a member. Declarations refer to each other by
handle; `TypeModel.Store` holds them and follows the handles.
-/

namespace TypeModel

/-- A module: one unit of compiled code. -/
structure ModuleDecl where
  name : String
  annotations : List Annotation := []
  deriving DecidableEq, Inhabited

/-- What sort of type a type declaration introduces. -/
inductive TypeKind where
  | classType
  | structType
  | interfaceType
  | enumType
  | delegateType
  deriving DecidableEq, Repr, Inhabited

/-- A type, with the handles of its members in the order in which they were declared. -/
structure TypeDecl where
  module : ModuleId
  /-- The namespace, empty for none. -/
  scope : String
  name : String
  /-- The name qualified by namespace and enclosing types. -/
  fullName : String
  kind : TypeKind
  /-- The type around this one. -/
  outer : Option TypeId := none
  fields : List FieldId := []
  properties : List PropertyId := []
  events : List EventId := []
  methods : List MethodId := []
  annotations : List Annotation := []
  deriving DecidableEq, Inhabited

structure Modifiers where
  isStatic : Bool := false
  isAbstract : Bool := false
  isVirtual : Bool := false
  isSpecialName : Bool := false
  isLiteral : Bool := false
  deriving DecidableEq, Repr, Inhabited

structure FieldDecl where
  owner : TypeId
  name : String
  type : Signature
  modifiers : Modifiers := {}
  /-- The value of a literal. -/
  constant : Option Int64 := none
  annotations : List Annotation := []
  deriving DecidableEq, Inhabited

structure PropertyDecl where
  owner : TypeId
  name : String
  type : Signature
  getter : Option MethodId := none
  setter : Option MethodId := none
  annotations : List Annotation := []
  deriving DecidableEq, Inhabited

structure EventDecl where
  owner : TypeId
  name : String
  type : Signature
  /-- The method that subscribes. -/
  adder : Option MethodId := none
  /-- The method that cancels a subscription. -/
  remover : Option MethodId := none
  annotations : List Annotation := []
  deriving DecidableEq, Inhabited

structure MethodDecl where
  owner : TypeId
  name : String
  returns : Signature := .void
  params : List Signature := []
  modifiers : Modifiers := {}
  /-- The methods that this one implements by explicit mention. -/
  overrides : List MethodId := []
  annotations : List Annotation := []
  deriving DecidableEq, Inhabited

def constructorName : String := ".ctor"

def staticConstructorName : String := ".cctor"

/-- Whether a method is an instance constructor, which its name alone decides. -/
def MethodDecl.isConstructor (d : MethodDecl) : Bool :=
  d.name = constructorName

/-! ## Members of every kind -/

inductive MemberDecl where
  | field (decl : FieldDecl)
  | property (decl : PropertyDecl)
  | event (decl : EventDecl)
  | method (decl : MethodDecl)
  deriving DecidableEq, Inhabited

namespace MemberDecl

def kind : MemberDecl → MemberKind
  | .field _ => .field
  | .property _ => .property
  | .event _ => .event
  | .method _ => .method

def owner : MemberDecl → TypeId
  | .field d => d.owner
  | .property d => d.owner
  | .event d => d.owner
  | .method d => d.owner

def name : MemberDecl → String
  | .field d => d.name
  | .property d => d.name
  | .event d => d.name
  | .method d => d.name

/-- The type of a field, a property or an event, and what a method returns. -/
def type : MemberDecl → Signature
  | .field d => d.type
  | .property d => d.type
  | .event d => d.type
  | .method d => d.returns

def annotations : MemberDecl → List Annotation
  | .field d => d.annotations
  | .property d => d.annotations
  | .event d => d.annotations
  | .method d => d.annotations

/-- The methods through which a property or an event is used, the reading or adding one first. -/
def accessors : MemberDecl → List MethodId
  | .property d => d.getter.toList ++ d.setter.toList
  | .event d => d.adder.toList ++ d.remover.toList
  | _ => []

/-- Whether an unmanaged pointer occurs in the type of a member or in a parameter of a method. -/
def mentionsPointer : MemberDecl → Bool
  | .method d => d.returns.containsPointer || d.params.any Signature.containsPointer
  | d => d.type.containsPointer

end MemberDecl

/-! ## The members that a type lists -/

namespace TypeDecl

/-- The listed fields, properties and events, in the order in which the type presents them. -/
def dataMembers (t : TypeDecl) : List MemberId :=
  t.fields.map .field ++ t.properties.map .property ++ t.events.map .event

/-- All listed members, in the order in which a proxy offers them to its targets. -/
def offeredMembers (t : TypeDecl) : List MemberId :=
  t.properties.map .property ++ t.events.map .event ++ t.fields.map .field ++
    t.methods.map .method

/-- The type with one more member at the end of the list for its kind. -/
def listMember (t : TypeDecl) : MemberId → TypeDecl
  | .field id => { t with fields := t.fields ++ [id] }
  | .property id => { t with properties := t.properties ++ [id] }
  | .event id => { t with events := t.events ++ [id] }
  | .method id => { t with methods := t.methods ++ [id] }

/-- The type with another list of members of one kind, given by their positions. -/
def withMembers (t : TypeDecl) (kind : MemberKind) (positions : List Nat) : TypeDecl :=
  match kind with
  | .field => { t with fields := positions.map Handle.mk }
  | .property => { t with properties := positions.map Handle.mk }
  | .event => { t with events := positions.map Handle.mk }
  | .method => { t with methods := positions.map Handle.mk }

end TypeDecl

inductive Decl where
  | module (decl : ModuleDecl)
  | type (decl : TypeDecl)
  | member (decl : MemberDecl)
  deriving DecidableEq, Inhabited

namespace Decl

def name : Decl → String
  | .module d => d.name
  | .type d => d.name
  | .member d => d.name

def annotations : Decl → List Annotation
  | .module d => d.annotations
  | .type d => d.annotations
  | .member d => d.annotations

end Decl

end TypeModel
