/-!
# Handles

A declaration is named by its kind and its position among the declarations of that kind, counted
from zero in the order of registration. A handle of one kind cannot stand where another kind is
wanted; `DeclId` and `MemberId` are the handles of any declaration and of any member.
-/

namespace TypeModel

inductive DeclKind where
  | module
  | type
  | field
  | property
  | event
  | method
  deriving DecidableEq, Repr, Inhabited

def DeclKind.word : DeclKind → String
  | .module => "module"
  | .type => "type"
  | .field => "field"
  | .property => "property"
  | .event => "event"
  | .method => "method"

/-- The position of a declaration among those of its kind. -/
structure Handle (kind : DeclKind) where
  index : Nat
  deriving DecidableEq, Repr, Inhabited

abbrev ModuleId := Handle .module
abbrev TypeId := Handle .type
abbrev FieldId := Handle .field
abbrev PropertyId := Handle .property
abbrev EventId := Handle .event
abbrev MethodId := Handle .method

/-- A handle as text: the kind and the position. -/
def Handle.render {kind : DeclKind} (h : Handle kind) : String :=
  kind.word ++ "#" ++ toString h.index

inductive MemberKind where
  | field
  | property
  | event
  | method
  deriving DecidableEq, Repr, Inhabited

def MemberKind.declKind : MemberKind → DeclKind
  | .field => .field
  | .property => .property
  | .event => .event
  | .method => .method

def MemberKind.word (kind : MemberKind) : String :=
  kind.declKind.word

inductive MemberId where
  | field (id : FieldId)
  | property (id : PropertyId)
  | event (id : EventId)
  | method (id : MethodId)
  deriving DecidableEq, Repr, Inhabited

def MemberId.kind : MemberId → MemberKind
  | .field _ => .field
  | .property _ => .property
  | .event _ => .event
  | .method _ => .method

inductive DeclId where
  | module (id : ModuleId)
  | type (id : TypeId)
  | member (id : MemberId)
  deriving DecidableEq, Repr, Inhabited

instance : Coe MemberId DeclId := ⟨.member⟩

namespace DeclId

def kind : DeclId → DeclKind
  | .module _ => .module
  | .type _ => .type
  | .member m => m.kind.declKind

/-- Whether the declaration is a field, a property, an event or a method. -/
def isMember : DeclId → Bool
  | .member _ => true
  | _ => false

/-- The handle as text: the kind and the position. -/
def render : DeclId → String
  | .module id => id.render
  | .type id => id.render
  | .member (.field id) => id.render
  | .member (.property id) => id.render
  | .member (.event id) => id.render
  | .member (.method id) => id.render

/-- The handle as a reader of a trace sees it, with its kind around it. -/
def inspect (d : DeclId) : String :=
  let heading := match d.kind with
    | .module => "Module"
    | .type => "Type"
    | .field => "Field"
    | .property => "Property"
    | .event => "Event"
    | .method => "Method"
  heading ++ "(" ++ d.render ++ ")"

end DeclId

end TypeModel
