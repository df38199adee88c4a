import TypeModel.Catalog.Basic

/-!
# Requests to a catalog

Everything that a catalog can be asked, as data: a caller is a sequence of requests, served one
after another by one catalog, each from what the requests before it left remembered.
-/

namespace TypeModel

inductive Request where
  | module (id : ModuleId)
  | type (id : TypeId)
  | proxy (id : TypeId)
  | proxies (id : TypeId)
  | member (decl : DeclId)
  /-- The proxies that carry the marker and all types. -/
  | everything
  /-- To attach a static constructor to the record of a type. -/
  | fillStaticConstructor (id : TypeId)
  deriving DecidableEq, Repr, Inhabited

/-- What a request that does not fail is answered with. -/
inductive Reply where
  | module (record : ModuleRecord)
  | type (record : TypeRecord)
  | proxy (record : Proxy)
  | proxies (records : List Proxy)
  | member (record : Member)
  | types (records : List TypeRecord)
  deriving Inhabited

/-- The query that a request is served by. -/
def Request.query : Request → Query Reply
  | .module id => .module <$> Catalog.moduleRecord id
  | .type id => .type <$> Catalog.typeRecord id
  | .proxy id => .proxy <$> Catalog.proxyRecord id
  | .proxies id => .proxies <$> Catalog.proxyRecords id
  | .member decl => .member <$> Catalog.memberRecord decl
  | .everything => .types <$> Catalog.buildAll
  | .fillStaticConstructor id => .member <$> Catalog.fillStaticConstructor id

namespace Catalog

def answer (c : Catalog) (q : Request) : Answer Reply :=
  (q.query.ask c).1

/-- The catalog once a request is served, whether or not it failed. -/
def serve (c : Catalog) (q : Request) : Catalog :=
  (q.query.ask c).2

def serveAll (c : Catalog) (requests : List Request) : Catalog :=
  requests.foldl serve c

end Catalog

end TypeModel
