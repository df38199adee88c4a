import TypeModel.ModuleRecord
import TypeModel.Proxy.Index
import TypeModel.TypeRecord.Basic
import TypeModel.VisibleName

/-!
# Building the record of a type

A record is built in three steps. First handles are followed: the roster, a draft of each member and
the literals; this fails only if a handle leads outside the store. Then the drafts as a whole decide
about overloads and about the type being ignored, which cannot fail. Last come the visible names,
the type's before its members' in order; this fails only if a rename annotation is at fault.
-/

namespace TypeModel

namespace TypeRecord

/-- The annotations of a type merged with those of its proxies, in order. -/
def mergedMetadata (t : TypeDecl) (proxies : List Proxy) : Metadata :=
  proxies.foldl (fun m p => m.update p.metadata p.replacesMetadata)
    (.ofAnnotations t.fullName t.annotations)

/-- What following handles tells about the members of a type. -/
structure Outline where
  drafts : IdentifierMap MemberDraft
  literals : List EnumLiteral

/-- Follows all handles that the record of a type depends on. -/
def outline? (store : Store) (names : Vocabulary) (proxies : List Proxy) (id : TypeId)
    (t : TypeDecl) : Option Outline := do
  let roster ← Roster.build? store t proxies
  let drafts ← roster.mapM fun _ slot => MemberDraft.ofSlot? store names proxies slot
  let literals ← EnumLiteral.ofType? store id t
  return { drafts, literals }

/-- The record of a member, once it is known whether its type is ignored and what it overloads. -/
def finishMember (names : Vocabulary) (owner : TypeId) (typeIgnored : Bool) (overloads : Overloads)
    (draft : MemberDraft) : Except ModelError Member := do
  let index := overloads.index? draft.member
  let visible ← names.visibleName draft.core.metadata draft.core.name index
  return {
    owner
    decl := .member draft.member
    backing := .member draft.core.backing
    qualifiedName := draft.core.qualifiedName
    name := draft.core.name
    visibleName := visible
    metadata := draft.core.metadata
    ignored := draft.ignored || typeIgnored
    details := draft.details.withOverloadIndex index }

/-- The record of a type, once all handles are followed. -/
def finish (names : Vocabulary) (moduleIgnored : Bool) (proxies : List Proxy) (id : TypeId)
    (t : TypeDecl) (outline : Outline) : Except ModelError TypeRecord := do
  let metadata := mergedMetadata t proxies
  let ignored := moduleIgnored || isHiddenName t.fullName || metadata.has names.ignore
  let overloads := Overloads.ofDrafts t outline.drafts
  let visible ← names.visibleName metadata t.fullName none
  let members ← outline.drafts.mapM fun _ draft => finishMember names id ignored overloads draft
  return {
    id
    fullName := t.fullName
    visibleName := visible
    kind := t.kind
    proxies
    metadata
    members
    staticConstructor := overloads.staticConstructor.bind fun m =>
      members.values.find? fun member => member.decl = .member (.method m)
    groups := overloads.groups
    literals := outline.literals
    combinesFlags := t.kind = .enumType &&
      (Metadata.ofAnnotations t.fullName t.annotations).has names.flags
    ignored }

/-- The record of a type whose module and proxies are given. -/
def assemble (store : Store) (names : Vocabulary) (moduleIgnored : Bool) (proxies : List Proxy)
    (id : TypeId) (t : TypeDecl) : Answer TypeRecord := do
  let outline ← .inRange (outline? store names proxies id t)
  .judged (finish names moduleIgnored proxies id t outline)

/-- The record of a type, from the store alone. -/
def build (store : Store) (names : Vocabulary) (id : TypeId) : Answer TypeRecord := do
  let t ← .inRange (store.type? id)
  let module ← .inRange (ModuleRecord.build? store names t.module)
  let proxies ← store.proxiesOf names id
  assemble store names module.ignored proxies id t

end TypeRecord

end TypeModel
