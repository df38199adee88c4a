import TypeModel.HiddenName
import TypeModel.Member
import TypeModel.Proxy.Resolve
import TypeModel.TypeRecord.Roster

/-!
# Drafts of members

A draft is what can be said of a member before the record as a whole is known: what backs it, its
declared name, its metadata, and whether it is ignored for reasons of its own. An accessor is
ignored together with the property or event that it was reached through.
-/

namespace TypeModel

/-- What a member is by itself. -/
structure MemberCore where
  backing : MemberId
  qualifiedName : String
  /-- The declared name. -/
  name : String
  /-- The annotations of the member, followed by those of what backs it. -/
  metadata : Metadata
  /-- Whether the member is ignored by its name, an annotation or its signature. -/
  hidden : Bool
  deriving DecidableEq, Inhabited

/-- What is known of a member before the record as a whole is. -/
structure MemberDraft where
  member : MemberId
  core : MemberCore
  /-- Whether the member is ignored, the type as a whole left aside. -/
  ignored : Bool
  details : MemberDetails
  deriving DecidableEq, Inhabited

section

variable (store : Store) (names : Vocabulary) (proxies : List Proxy)

/-- The declaration that backs a member: proxies may substitute the type's own members only. -/
def backing? (origin : Origin) (m : MemberId) : Option MemberId :=
  match origin with
  | .own => store.resolve? proxies m
  | .proxy => some m

/-- The metadata of a member together with that of what backs it. -/
def backedMetadata? (m backing : MemberId) : Option Metadata := do
  let metadata ← store.metadata? (.member m)
  if backing = m then return metadata
  else return metadata.update (← store.metadata? (.member backing)) false

/-- What a member of the given origin is by itself. -/
def MemberCore.ofMember? (origin : Origin) (m : MemberId) : Option MemberCore := do
  let d ← store.member? m
  let backing ← backing? store proxies origin m
  let metadata ← backedMetadata? store m backing
  let qualifiedName ← store.qualifiedMemberName? m
  let name ← store.declaredMemberName? m
  return {
    backing, qualifiedName, name, metadata
    hidden := isHiddenName qualifiedName || metadata.has names.ignore || d.mentionsPointer }

/-- Whether the property or event that a slot belongs to, if any, is hidden by itself. -/
def inheritsHidden? (slot : Slot) : Option Bool :=
  match slot.accessorOf with
  | none => some false
  | some o => (MemberCore.ofMember? store names proxies slot.origin o).map MemberCore.hidden

/-- The draft of the member in a slot. -/
def MemberDraft.ofSlot? (slot : Slot) : Option MemberDraft := do
  let core ← MemberCore.ofMember? store names proxies slot.origin slot.member
  let inherited ← inheritsHidden? store names proxies slot
  let d ← store.member? slot.member
  let details ← MemberDetails.ofDecl slot.accessorOf slot.member d
  return { member := slot.member, core, ignored := core.hidden || inherited, details }

end

end TypeModel
