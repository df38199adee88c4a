import TypeModel.TypeRecord.Build

/-!
# Records by position

A record finds what it is asked for by position. Tables note, while lists still grow, at which place
the value for a key stands; they are followed later, some of them in the list that the first one was
turned into. `TypeRecord` says what is found; here it is found by following positions, and one that
leads nowhere is a failure.
-/

namespace TypeModel

/-- Positions under keys. -/
abbrev PositionTable (κ : Type) := Dictionary κ Nat

namespace PositionTable

variable {κ α : Type} [DecidableEq κ]

/-- The table of a list, filled from its first element on, each under all its keys. -/
def fill (note : PositionTable κ → κ → Nat → PositionTable κ) (keys : α → List κ)
    (xs : List α) : PositionTable κ :=
  xs.zipIdx.foldl (fun t (x, i) => (keys x).foldl (fun t key => note t key i) t) ∅

/-- What stands in a list at the position under a key, none if the key has no position. -/
def follow (t : PositionTable κ) (xs : List α) (key : κ) : Answer (Option α) :=
  match t.get? key with
  | none => .ok none
  | some i => (Answer.inRange xs[i]?).map some

end PositionTable

/-- What a lookup in a map finds, if the position of each candidate is followed. -/
def IdentifierMap.follow {α : Type} (m : IdentifierMap α) (key : Identifier) :
    Answer (Option α) := do
  let candidates ← (m.candidates key).mapM fun slot => Answer.inRange m.entries[slot.1]?
  return ((candidates.find? fun entry => entry.1 = key).or
    (candidates.find? fun entry => entry.1.agrees key)).map Prod.snd

/-! ## Grouping by position -/

namespace Overloads

/-- The positions of drafts under the members that they are of. -/
def draftPositions (drafts : List (Identifier × MemberDraft)) : PositionTable MemberId :=
  .fill .insert (fun entry => [entry.2.member]) drafts

/-- A listed method with its key, found by position among the drafts that there are so far. -/
def candidateAt (own : List (Identifier × MemberDraft)) (id : MethodId) :
    Answer (Option (MethodId × OverloadKey)) := do
  match ← (draftPositions own).follow own (.method id) with
  | none => return none
  | some (key, draft) =>
    return if draft.ignored then none else some (id, ⟨key.name, draft.details.isStaticMethod⟩)

/-- The overloads among the methods that a type lists, before proxies contribute anything. -/
def byPosition (t : TypeDecl) (own : List (Identifier × MemberDraft)) : Answer Overloads := do
  let candidates ← t.methods.mapM (candidateAt own)
  return ofMethods (candidates.filterMap id)

/-- The declared static constructor, at the position that it had before proxies contributed. -/
def staticConstructorAt (o : Overloads) (own : List (Identifier × MemberDraft))
    (members : List Member) : Answer (Option Member) :=
  match o.staticConstructor with
  | none => .ok none
  | some id => (draftPositions own).follow members (.method id)

end Overloads

/-! ## Lookups by position -/

namespace TypeRecord

def declPositions (members : List Member) : PositionTable DeclId :=
  .fill .insert (fun m => [m.decl]) members

def groupPositions (groups : List OverloadGroup) : PositionTable MethodId :=
  .fill .insert OverloadGroup.methods groups

def valuePositions (literals : List EnumLiteral) : PositionTable Int64 :=
  .fill .insertIfNew (fun e => [e.value]) literals

def namePositions (literals : List EnumLiteral) : PositionTable String :=
  .fill .insertIfNew (fun e => [e.name]) literals

def constructorPositions (members : List Member) : List Nat :=
  members.zipIdx.filterMap fun (m, i) => if m.details.isConstructor then some i else none

/-- The member whose identifier a lookup finds. -/
def memberAt (r : TypeRecord) (key : Identifier) : Answer (Option Member) :=
  r.members.follow key

/-- The member made from a declaration, noted when only the given members were there. -/
def memberOfDeclAt (r : TypeRecord) (sofar : List Member) (decl : DeclId) :
    Answer (Option Member) :=
  (declPositions sofar).follow r.members.values decl

def constructorsAt (r : TypeRecord) : Answer (List Member) :=
  (constructorPositions r.members.values).mapM fun i => Answer.inRange r.members.values[i]?

def groupAt (r : TypeRecord) (id : MethodId) : Answer (Option OverloadGroup) :=
  (groupPositions r.groups).follow r.groups id

def literalOfValueAt (r : TypeRecord) (value : Int64) : Answer (Option EnumLiteral) :=
  (valuePositions r.literals).follow r.literals value

def literalNamedAt (r : TypeRecord) (name : String) : Answer (Option EnumLiteral) :=
  (namePositions r.literals).follow r.literals name

end TypeRecord

end TypeModel
