import TypeModel.Declaration
import TypeModel.Dictionary

/-!
# The store of declarations

The store holds every declaration and hands out a handle for each. Handles of one kind count up from
zero, and nothing is ever removed. Registering a member needs the type that declares it to be there;
every other handle that a declaration mentions is taken as it comes. Types are also filed under
their full names, where a later type takes the place of an earlier one.
-/

namespace TypeModel

/-- All declarations, each kind in the order of registration, and an index of the types. -/
structure Store where
  modules : Array ModuleDecl := #[]
  types : Array TypeDecl := #[]
  fields : Array FieldDecl := #[]
  properties : Array PropertyDecl := #[]
  events : Array EventDecl := #[]
  methods : Array MethodDecl := #[]
  /-- Types by full name. -/
  typesByName : Dictionary String TypeId := ∅
  deriving DecidableEq, Inhabited

namespace Store

/-! ## Following a handle -/

def module? (s : Store) (id : ModuleId) : Option ModuleDecl :=
  s.modules[id.index]?

def type? (s : Store) (id : TypeId) : Option TypeDecl :=
  s.types[id.index]?

def field? (s : Store) (id : FieldId) : Option FieldDecl :=
  s.fields[id.index]?

def property? (s : Store) (id : PropertyId) : Option PropertyDecl :=
  s.properties[id.index]?

def event? (s : Store) (id : EventId) : Option EventDecl :=
  s.events[id.index]?

def method? (s : Store) (id : MethodId) : Option MethodDecl :=
  s.methods[id.index]?

def member? (s : Store) : MemberId → Option MemberDecl
  | .field id => (s.field? id).map .field
  | .property id => (s.property? id).map .property
  | .event id => (s.event? id).map .event
  | .method id => (s.method? id).map .method

def decl? (s : Store) : DeclId → Option Decl
  | .module id => (s.module? id).map .module
  | .type id => (s.type? id).map .type
  | .member id => (s.member? id).map .member

/-- The handles of all modules, in the order of registration. -/
def moduleIds (s : Store) : List ModuleId :=
  (List.range s.modules.size).map Handle.mk

/-- The handles of all types, in the order of registration. -/
def typeIds (s : Store) : List TypeId :=
  (List.range s.types.size).map Handle.mk

/-- The type filed under a full name. -/
def findType? (s : Store) (fullName : String) : Option TypeId :=
  s.typesByName.get? fullName

/-! ## Registering modules and types -/

def addModule (s : Store) (name : String) : Store × ModuleId :=
  ({ s with modules := s.modules.push { name } }, ⟨s.modules.size⟩)

/-- Registers a type declaration as it is and files it under its full name. -/
def pushType (s : Store) (t : TypeDecl) : Store × TypeId :=
  let id : TypeId := ⟨s.types.size⟩
  ({ s with types := s.types.push t, typesByName := s.typesByName.insert t.fullName id }, id)

def topLevelName (scope name : String) : String :=
  if scope.isEmpty then name else scope ++ "." ++ name

def nestedName (outer name : String) : String :=
  outer ++ "+" ++ name

/-- Registers a type that is not nested. -/
def addType (s : Store) (module : ModuleId) (scope name : String) (kind : TypeKind) :
    Store × TypeId :=
  s.pushType { module, scope, name, fullName := topLevelName scope name, kind }

/-- Registers a type nested in another, with which it shares module and namespace. -/
def addNestedType? (s : Store) (outer : TypeId) (name : String) (kind : TypeKind) :
    Option (Store × TypeId) := do
  let t ← s.type? outer
  return s.pushType {
    module := t.module, scope := t.scope, name, fullName := nestedName t.fullName name, kind,
    outer := some outer }

/-- Changes the declaration of a type, if there is one behind the handle. -/
def updateType (s : Store) (id : TypeId) (change : TypeDecl → TypeDecl) : Store :=
  { s with types := s.types.modify id.index change }

/-! ## Registering members -/

/-- The handle that the next member of the same kind gets. -/
def nextMember (s : Store) : MemberDecl → MemberId
  | .field _ => .field ⟨s.fields.size⟩
  | .property _ => .property ⟨s.properties.size⟩
  | .event _ => .event ⟨s.events.size⟩
  | .method _ => .method ⟨s.methods.size⟩

/-- The store with one more member, which no type lists yet. -/
def pushMember (s : Store) : MemberDecl → Store
  | .field d => { s with fields := s.fields.push d }
  | .property d => { s with properties := s.properties.push d }
  | .event d => { s with events := s.events.push d }
  | .method d => { s with methods := s.methods.push d }

/-- Registers a member and lists it with the type that declares it. -/
def addMember? (s : Store) (d : MemberDecl) : Option (Store × MemberId) := do
  let _ ← s.type? d.owner
  let id := s.nextMember d
  return ((s.pushMember d).updateType d.owner fun t => t.listMember id, id)

/-- Gives a type another list of members of one kind. The members themselves stay as they are. -/
def setMembers? (s : Store) (id : TypeId) (kind : MemberKind) (positions : List Nat) :
    Option Store := do
  let _ ← s.type? id
  return s.updateType id fun t => t.withMembers kind positions

/-! ## Attaching annotations -/

/-- Attaches an annotation to a declaration, after those that it has. -/
def annotate? (s : Store) (id : DeclId) (a : Annotation) : Option Store := do
  let _ ← s.decl? id
  return match id with
    | .module id =>
      { s with modules :=
        s.modules.modify id.index fun d => { d with annotations := d.annotations ++ [a] } }
    | .type id => s.updateType id fun d => { d with annotations := d.annotations ++ [a] }
    | .member (.field id) =>
      { s with fields :=
        s.fields.modify id.index fun d => { d with annotations := d.annotations ++ [a] } }
    | .member (.property id) =>
      { s with properties :=
        s.properties.modify id.index fun d => { d with annotations := d.annotations ++ [a] } }
    | .member (.event id) =>
      { s with events :=
        s.events.modify id.index fun d => { d with annotations := d.annotations ++ [a] } }
    | .member (.method id) =>
      { s with methods :=
        s.methods.modify id.index fun d => { d with annotations := d.annotations ++ [a] } }

end Store

end TypeModel
