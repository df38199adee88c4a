import TypeModel.IdentifierMap
import TypeModel.Proxy.Marker

/-!
# Proxies

A proxy is a type that stands in for others, its targets: its members substitute members of theirs
or are contributed to them, and its annotations are lent to them. Only members that the proxy
itself lists take part. The record of a proxy is built from the store alone.
-/

namespace TypeModel

structure Proxy where
  id : TypeId
  fullName : String
  marker : ProxyMarker
  /-- The annotations lent to targets, the marker among them. -/
  metadata : Metadata
  /-- The listed members, in the order in which they are offered to targets. -/
  members : IdentifierMap MemberId
  deriving Inhabited

namespace Proxy

/-- The given members under their identifiers. -/
def keyed? (store : Store) (members : List MemberId) : Option (IdentifierMap MemberId) :=
  members.foldlM (fun t m => return t.push (← store.identifier? m) m) .empty

/-- Builds the record of a proxy. A type without the marker is rejected. -/
def build (store : Store) (names : Vocabulary) (id : TypeId) : Answer Proxy := do
  let t ← .inRange (store.type? id)
  let metadata := Metadata.ofAnnotations t.fullName t.annotations
  match ← Answer.judged (ProxyMarker.ofMetadata names metadata) with
  | none => .reject (.configuration t.fullName (.unmarkedProxy names.proxy))
  | some marker =>
    let members ← .inRange (keyed? store t.offeredMembers)
    return { id, fullName := t.fullName, marker, metadata, members }

/-- The member of the proxy that an identifier finds. -/
def find? (p : Proxy) (key : Identifier) : Option MemberId :=
  p.members.get? key

/-- The members of one kind, under their identifiers. -/
def membersOf (p : Proxy) (kind : MemberKind) : List (Identifier × MemberId) :=
  p.members.entries.filter fun entry => entry.1.kind = kind

/-- Whether members of the proxy may substitute members of a target. -/
def substitutes (p : Proxy) : Bool :=
  p.marker.memberPolicy != .replaceNone

/-- Whether the annotations of the proxy take the place of the target's. -/
def replacesMetadata (p : Proxy) : Bool :=
  p.marker.attributePolicy = .replace

end Proxy

end TypeModel
