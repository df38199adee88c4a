import TypeModel.Store.Basic

/-!
# Registrations

A reader of metadata fills a store by registering modules, types and members and by attaching
annotations. Here each of these is data, so that filling a store is a sequence of registrations. A
registration fails if the declaration that it adds to is not there.
-/

namespace TypeModel

inductive Registration where
  | module (name : String)
  | type (module : ModuleId) (scope name : String) (kind : TypeKind)
  | nestedType (outer : TypeId) (name : String) (kind : TypeKind)
  | member (decl : MemberDecl)
  | annotate (target : DeclId) (a : Annotation)
  deriving DecidableEq, Inhabited

namespace Store

/-- The store with one more registration. -/
def register? (s : Store) : Registration → Option Store
  | .module name => some (s.addModule name).1
  | .type module scope name kind => some (s.addType module scope name kind).1
  | .nestedType outer name kind => (s.addNestedType? outer name kind).map Prod.fst
  | .member d => (s.addMember? d).map Prod.fst
  | .annotate target a => s.annotate? target a

/-- The store with several registrations, one after another. -/
def registerAll? (s : Store) (registrations : List Registration) : Option Store :=
  registrations.foldlM register? s

end Store

end TypeModel
