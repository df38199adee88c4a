import TypeModel.Proxy.Basic

/-!
# The roster of a type

The roster says which members the record of a type has, and in which order. First come the members
that the type itself lists: fields, properties and events, each property and event followed by its
accessors, then the methods that are not there yet. Then each proxy contributes, in turn, the
members that it offers and that agree with no member so far, again followed by those accessors that
agree with none.
-/

namespace TypeModel

/-- Where a member of a record comes from. -/
inductive Origin where
  /-- The type itself; proxies may substitute the member. -/
  | own
  /-- A proxy; the member backs itself. -/
  | proxy
  deriving DecidableEq, Repr, Inhabited

structure Slot where
  member : MemberId
  origin : Origin
  /-- The property or event that a method was reached through. -/
  accessorOf : Option MemberId := none
  deriving DecidableEq, Repr, Inhabited

/-- The members of a record under their identifiers, in order. -/
abbrev Roster := IdentifierMap Slot

namespace Roster

/-- Whether the roster has a slot for a declaration. -/
def lists (r : Roster) (m : MemberId) : Bool :=
  r.values.any fun slot => slot.member = m

/-- Whether a method may join the roster: it must not be there already, and, if it comes from a
proxy, no member may agree with it. -/
def admits (r : Roster) (slot : Slot) (key : Identifier) : Bool :=
  !r.lists slot.member && (slot.origin = .own || !r.contains key)

variable (store : Store)

/-- The roster with one more slot at its end, if the slot may join it. -/
def offer? (r : Roster) (slot : Slot) : Option Roster := do
  let key ← store.identifier? slot.member
  return if r.admits slot key then r.push key slot else r

/-- The roster with one more member, followed by those of its accessors that may join. -/
def add? (origin : Origin) (r : Roster) (m : MemberId) : Option Roster := do
  let key ← store.identifier? m
  let d ← store.member? m
  d.accessors.foldlM (fun r a => offer? store r ⟨.method a, origin, some m⟩)
    (r.push key ⟨m, origin, none⟩)

/-- The roster of what a type itself lists. -/
def ofType? (t : TypeDecl) : Option Roster := do
  let r ← t.dataMembers.foldlM (add? store .own) .empty
  t.methods.foldlM (fun r id => offer? store r ⟨.method id, .own, none⟩) r

/-- One member that a proxy offers joins unless some member agrees with it; a method must, besides,
not be there already. -/
def contributeMember? (r : Roster) (entry : Identifier × MemberId) : Option Roster :=
  if r.contains entry.1 || (entry.2.kind = .method && r.lists entry.2) then some r
  else add? store .proxy r entry.2

/-- A proxy contributes the members that it offers. -/
def contribute? (r : Roster) (p : Proxy) : Option Roster :=
  p.members.entries.foldlM (contributeMember? store) r

/-- The roster of a type to which proxies are applied in order. -/
def build? (t : TypeDecl) (proxies : List Proxy) : Option Roster := do
  proxies.foldlM (contribute? store) (← ofType? store t)

end Roster

end TypeModel
