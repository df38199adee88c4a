import TypeModel.Proxy.Basic

/-!
# Finding the proxies of a type

Which types are proxies of which is read off the annotations, without building any proxy: a target
is whatever name the arguments of a marker mention. So a broken proxy disturbs the types it names,
and no other. One scan over all types makes the index; a type stands under a name once, however
often its markers mention it.
-/

namespace TypeModel

/-- The types that carry the proxy marker, and which of them mention which name. -/
structure ProxyIndex where
  /-- The marked types, in the order of registration. -/
  marked : List TypeId := []
  /-- Under each name the types that mention it, in the order of registration. -/
  targets : List (String × List TypeId) := []
  deriving DecidableEq, Repr, Inhabited

namespace ProxyIndex

/-- Puts a type under a name, unless it stands there already. -/
def link (id : TypeId) (fullName : String) :
    List (String × List TypeId) → List (String × List TypeId)
  | [] => [(fullName, [id])]
  | entry :: rest =>
    if entry.1 = fullName then (entry.1, appendNew entry.2 id) :: rest
    else entry :: link id fullName rest

/-- The annotations of a type that are proxy markers. -/
def markers (marker : String) (t : TypeDecl) : List Annotation :=
  t.annotations.filter fun a => a.kind == marker

/-- The index with one more type, if that carries the marker. -/
def scan (marker : String) (id : TypeId) (t : TypeDecl) (index : ProxyIndex) : ProxyIndex :=
  match markers marker t with
  | [] => index
  | found =>
    { marked := index.marked ++ [id]
      targets := (found.flatMap fun a => Argument.mentionedTypes a.args).foldl
        (fun targets fullName => link id fullName targets) index.targets }

def ofStore (store : Store) (names : Vocabulary) : ProxyIndex :=
  store.typeIds.foldl (fun index id =>
    match store.type? id with
    | some t => scan names.proxy id t index
    | none => index) {}

/-- The types under a name, none if nothing mentions it. -/
def proxiesOf (index : ProxyIndex) (fullName : String) : List TypeId :=
  match index.targets.find? fun entry => entry.1 = fullName with
  | some entry => entry.2
  | none => []

end ProxyIndex

/-- Builds the proxies of a type, in the order of registration; the first failure decides. -/
def Store.proxiesOf (store : Store) (names : Vocabulary) (id : TypeId) : Answer (List Proxy) := do
  let t ← .inRange (store.type? id)
  ((ProxyIndex.ofStore store names).proxiesOf t.fullName).mapM (Proxy.build store names)

end TypeModel
