import TypeModel.Proxy.Basic

/-!
# Resolving a member

A member of a type is *backed* by the declaration that supplies its implementation. That is the
member of the last proxy whose policy admits substitution, that finds the member's identifier, and
whose member there has an implementation to give; it is the member itself if there is no such
proxy. Constructors without parameters always back themselves, since nobody can tell whether a
compiler or a person wrote them.
-/

namespace TypeModel

namespace Store

/-- Whether an accessor is there and has no implementation. -/
def isAbstract? (s : Store) : Option MethodId → Option Bool
  | none => some false
  | some m => (s.method? m).map fun d => d.modifiers.isAbstract

/-- Whether one of two accessors has no implementation. Each stands in for the other if that is
missing, and a first one without implementation ends the search. -/
def eitherAbstract? (s : Store) (first second : Option MethodId) : Option Bool := do
  if ← s.isAbstract? (first.or second) then return true else s.isAbstract? (second.or first)

/-- Whether a member has an implementation to give: a method its own, a property or an event that of
each accessor; a field needs none. -/
def suppliesImplementation? (s : Store) (m : MemberId) : Option Bool := do
  match ← s.member? m with
  | .method d => return !d.modifiers.isAbstract
  | .property d => return !(← s.eitherAbstract? d.getter d.setter)
  | .event d => return !(← s.eitherAbstract? d.adder d.remover)
  | .field _ => return true

/-- One proxy's say in what backs a member of the given identifier. -/
def substitute? (s : Store) (key : Identifier) (backing : MemberId) (p : Proxy) :
    Option MemberId :=
  if p.substitutes then
    match p.find? key with
    | none => some backing
    | some candidate => do
      return if ← s.suppliesImplementation? candidate then candidate else backing
  else some backing

/-- The declaration that backs a member once the proxies are applied in order. -/
def resolve? (s : Store) (proxies : List Proxy) (m : MemberId) : Option MemberId := do
  let key ← s.identifier? m
  if key.isDefaultConstructor then return m else proxies.foldlM (s.substitute? key) m

/-- The declaration that backs a member; modules and types are rejected. -/
def resolve (s : Store) (proxies : List Proxy) (id : DeclId) : Answer MemberId := do
  let m ← s.asMember id
  .inRange (s.resolve? proxies m)

end Store

end TypeModel
