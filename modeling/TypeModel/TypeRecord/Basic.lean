import TypeModel.TypeRecord.Literals
import TypeModel.TypeRecord.Overloads

/-!
# Type records

The record of a type is what the rest of a compiler asks about it: its members with substitutions
applied, the members that proxies contribute, merged metadata, overload groups, literals, and what
must not be emitted. A record never changes, except that the place of the static constructor can be
filled once if the type declares none.
-/

namespace TypeModel

structure TypeRecord where
  id : TypeId
  fullName : String
  visibleName : String
  kind : TypeKind
  /-- The proxies applied to the type, in order. -/
  proxies : List Proxy
  /-- The annotations of the type merged with those of its proxies. -/
  metadata : Metadata
  /-- All members under their identifiers, in the order of the roster. -/
  members : IdentifierMap Member
  /-- The static constructor, declared or attached. -/
  staticConstructor : Option Member
  groups : List OverloadGroup
  literals : List EnumLiteral
  /-- Whether the type is an enum type that is itself annotated as one of combined values. -/
  combinesFlags : Bool
  /-- Whether nothing of the type must be emitted. -/
  ignored : Bool
  deriving Inhabited

namespace TypeRecord

/-- The member whose identifier a lookup finds. -/
def member? (r : TypeRecord) (key : Identifier) : Option Member :=
  r.members.get? key

/-- The member made from a declaration; of several, the last. -/
def memberOfDecl? (r : TypeRecord) (decl : DeclId) : Option Member :=
  r.members.values.reverse.find? fun m => m.decl = decl

/-- The instance constructors, contributed ones included. -/
def constructors (r : TypeRecord) : List Member :=
  r.members.values.filter fun m => m.details.isConstructor

/-- The members that are emitted. -/
def emitted (r : TypeRecord) : List Member :=
  r.members.values.filter fun m => !m.ignored

/-- The overload group that a method belongs to, if it is overloaded. -/
def groupOf? (r : TypeRecord) (id : MethodId) : Option OverloadGroup :=
  r.groups.find? fun g => g.methods.contains id

def literalOfValue? (r : TypeRecord) (value : Int64) : Option EnumLiteral :=
  r.literals.find? fun e => e.value = value

def literalNamed? (r : TypeRecord) (name : String) : Option EnumLiteral :=
  r.literals.find? fun e => e.name = name

/-- Puts a synthesized static constructor into its place, which must be empty. -/
def fillStaticConstructor (r : TypeRecord) : Except ModelError (TypeRecord × Member) :=
  match r.staticConstructor with
  | some _ => .error (.configuration r.fullName .staticConstructorPresent)
  | none =>
    let m := Member.implicitStaticConstructor r.id r.fullName r.ignored
    .ok ({ r with staticConstructor := some m }, m)

end TypeRecord

end TypeModel
