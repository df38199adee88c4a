import TypeModel.Catalog.Memo
import TypeModel.TypeRecord.Build

/-!
# Catalogs

A catalog answers queries over one store. It builds each module, type and proxy record once and
remembers the answer, so that asking again gives the same record, or the same failure. Its own state
changes in two ways only: it remembers more, and the place of a static constructor in a remembered
record can be filled.
-/

namespace TypeModel

/-- A store with everything remembered about it. -/
structure Catalog where
  store : Store
  names : Vocabulary
  /-- The proxy index of the store, once it was needed. -/
  index : Option ProxyIndex := none
  modules : Memo ModuleId ModuleRecord := {}
  types : Memo TypeId TypeRecord := {}
  proxies : Memo TypeId Proxy := {}
  deriving Inhabited

/-- A catalog that remembers nothing yet. -/
def Catalog.ofStore (store : Store) (names : Vocabulary := {}) : Catalog :=
  { store, names }

/-- A query: it may remember answers, and it may fail, which leaves what it remembered so far. -/
abbrev Query := ExceptT Failure (StateM Catalog)

namespace Query

/-- The value that handles led to. -/
def inRange {α : Type} (a : Option α) : Query α :=
  .mk (pure (Answer.inRange a))

/-- The value of an answer that is known. -/
def ofAnswer {α : Type} (a : Answer α) : Query α :=
  .mk (pure a)

/-- The answer to a query together with what the catalog remembers afterwards. -/
def ask {α : Type} (q : Query α) (c : Catalog) : Answer α × Catalog :=
  ExceptT.run q c

/-- The remembered answer to a question if there is one; otherwise the question gets a cell, and the
answer is worked out and put into it. The memo is given by how to read and how to change it. -/
def remember {κ α : Type} [DecidableEq κ] (memo : Catalog → Memo κ α)
    (withMemo : Catalog → Memo κ α → Catalog) (key : κ) (workOut : Query α) : Query α :=
  .mk do
    match (memo (← get)).find? key with
    | some answer => return answer
    | none =>
      modify fun c => withMemo c ((memo c).enter key)
      let answer ← workOut.run
      modify fun c => withMemo c ((memo c).fill key answer)
      return answer

end Query

namespace Catalog

/-! ## Records -/

def withModules (c : Catalog) (m : Memo ModuleId ModuleRecord) : Catalog :=
  { c with modules := m }

def withTypes (c : Catalog) (m : Memo TypeId TypeRecord) : Catalog :=
  { c with types := m }

def withProxies (c : Catalog) (m : Memo TypeId Proxy) : Catalog :=
  { c with proxies := m }

def moduleRecord (id : ModuleId) : Query ModuleRecord :=
  .remember modules withModules id do
    let c ← get
    .inRange (ModuleRecord.build? c.store c.names id)

def proxyRecord (id : TypeId) : Query Proxy :=
  .remember proxies withProxies id do
    let c ← get
    .ofAnswer (Proxy.build c.store c.names id)

/-- The proxy index, made when it is first needed. -/
def proxyIndex : Query ProxyIndex := do
  let c ← get
  match c.index with
  | some index => return index
  | none =>
    let index := ProxyIndex.ofStore c.store c.names
    modify fun c => { c with index := some index }
    return index

/-- The records of the proxies of a type, in the order of registration. -/
def proxyRecords (id : TypeId) : Query (List Proxy) := do
  let c ← get
  let t ← .inRange (c.store.type? id)
  let index ← proxyIndex
  (index.proxiesOf t.fullName).mapM proxyRecord

/-- Works out the record of a type from the remembered records of its module and its proxies. -/
def workOutTypeRecord (id : TypeId) : Query TypeRecord := do
  let c ← get
  let t ← .inRange (c.store.type? id)
  let module ← moduleRecord t.module
  let proxies ← proxyRecords id
  .ofAnswer (TypeRecord.assemble c.store c.names module.ignored proxies id t)

def typeRecord (id : TypeId) : Query TypeRecord :=
  .remember types withTypes id (workOutTypeRecord id)

/-! ## Members -/

/-- The record of a member, out of the record of the type that declares it. -/
def memberRecord (decl : DeclId) : Query Member := do
  let c ← get
  let m ← .ofAnswer (c.store.asMember decl)
  let owner ← .inRange (c.store.ownerOf? m)
  let r ← typeRecord owner
  match r.memberOfDecl? decl with
  | some member => return member
  | none =>
    let name ← .inRange (c.store.qualifiedName? decl)
    throw (.rejected (.configuration name (.unlistedMember r.fullName)))

/-- The declaration of the member of a type that looks like a given one. -/
def lookAlike? (id : TypeId) (decl : DeclId) : Query (Option DeclId) := do
  let c ← get
  let key ← .ofAnswer (c.store.identify decl)
  let r ← typeRecord id
  return (r.member? key).map Member.decl

/-- Fills the place of the static constructor in the record of a type, which must be empty. -/
def fillStaticConstructor (id : TypeId) : Query Member := do
  let r ← typeRecord id
  let (r, m) ← .ofAnswer (.judged r.fillStaticConstructor)
  modify fun c => c.withTypes (c.types.fill id (.ok r))
  return m

/-! ## The whole store -/

/-- Builds the proxies that carry the marker, then the records of all types, each in the order of
registration; the first failure ends it. -/
def buildAll : Query (List TypeRecord) := do
  let index ← proxyIndex
  let _ ← index.marked.mapM proxyRecord
  let c ← get
  c.store.typeIds.mapM typeRecord

/-- The number of types whose record has been asked for, whether or not it could be built. -/
def askedTypeCount (c : Catalog) : Nat :=
  c.types.size

end Catalog

end TypeModel
