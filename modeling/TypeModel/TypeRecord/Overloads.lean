import TypeModel.Dictionary
import TypeModel.IdentifierMap
import TypeModel.TypeRecord.Draft

/-!
# Overload groups

The methods that a type lists and that are not ignored for reasons of their own are grouped by name
and by whether they are static. Two or more of them form an overload group and are numbered in the
order in which the type lists them. A static constructor that stands alone under its name is the
declared static constructor of the type.
-/

namespace TypeModel

/-- What overloads share. -/
structure OverloadKey where
  name : String
  isStatic : Bool
  deriving DecidableEq, Repr, Inhabited

/-- The methods of one type that share name and staticness, numbered by their positions. -/
structure OverloadGroup where
  name : String
  isStatic : Bool
  methods : List MethodId
  deriving DecidableEq, Repr, Inhabited

/-- The position of the last occurrence of an element. -/
def lastIndexOf? {α : Type} [DecidableEq α] (x : α) : List α → Option Nat
  | [] => none
  | y :: rest =>
    match lastIndexOf? x rest with
    | some i => some (i + 1)
    | none => if y = x then some 0 else none

structure OverloadCluster where
  key : OverloadKey
  methods : List MethodId
  deriving DecidableEq, Repr, Inhabited

/-- Clusters that still grow: the methods under each key, and the keys in the order in which they
came up. -/
structure Clustering where
  order : List OverloadKey := []
  methods : Dictionary OverloadKey (List MethodId) := ∅

namespace Clustering

/-- Takes in a method. A key that comes up for the first time is noted. -/
def add (c : Clustering) (m : MethodId × OverloadKey) : Clustering :=
  match c.methods.get? m.2 with
  | some ids => { c with methods := c.methods.insert m.2 (ids ++ [m.1]) }
  | none => ⟨c.order ++ [m.2], c.methods.insert m.2 [m.1]⟩

/-- Takes out the clusters of some keys, one after another. -/
def drain (methods : Dictionary OverloadKey (List MethodId)) :
    List OverloadKey → List OverloadCluster
  | [] => []
  | key :: rest =>
    match methods.get? key with
    | some ids => ⟨key, ids⟩ :: drain (methods.erase key) rest
    | none => drain methods rest

end Clustering

namespace OverloadCluster

/-- The clusters of a list of methods with keys, by the first occurrence of each key. -/
def ofMethods (methods : List (MethodId × OverloadKey)) : List OverloadCluster :=
  let c : Clustering := methods.foldl Clustering.add {}
  Clustering.drain c.methods c.order

/-- The overload group that a cluster of two or more methods is. -/
def group? (c : OverloadCluster) : Option OverloadGroup :=
  if 2 ≤ c.methods.length then some ⟨c.key.name, c.key.isStatic, c.methods⟩ else none

/-- The static constructor that a cluster is, if it is one method of that name. -/
def staticConstructor? (c : OverloadCluster) : Option MethodId :=
  match c.methods with
  | [m] => if c.key.name = staticConstructorName then some m else none
  | _ => none

end OverloadCluster

/-- How the methods of a type share their names. -/
structure Overloads where
  groups : List OverloadGroup
  staticConstructor : Option MethodId
  deriving DecidableEq, Repr, Inhabited

namespace Overloads

/-- The overloads among methods with keys. -/
def ofMethods (methods : List (MethodId × OverloadKey)) : Overloads :=
  let clusters := OverloadCluster.ofMethods methods
  ⟨clusters.filterMap OverloadCluster.group?,
    (clusters.filterMap OverloadCluster.staticConstructor?).getLast?⟩

/-- A listed method with its key, unless its draft is ignored. -/
def candidate? (drafts : IdentifierMap MemberDraft) (id : MethodId) :
    Option (MethodId × OverloadKey) := do
  let (key, draft) ← drafts.entries.find? fun entry => entry.2.member = .method id
  if draft.ignored then none else some (id, ⟨key.name, draft.details.isStaticMethod⟩)

/-- The overloads among the methods that a type lists. -/
def ofDrafts (t : TypeDecl) (drafts : IdentifierMap MemberDraft) : Overloads :=
  ofMethods (t.methods.filterMap (candidate? drafts))

/-- The number of a method in its group; of a method listed twice, the later one. -/
def index? (o : Overloads) (m : MemberId) : Option Nat :=
  match m with
  | .method id => o.groups.findSome? fun g => lastIndexOf? id g.methods
  | _ => none

end Overloads

end TypeModel
