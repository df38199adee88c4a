import TypeModel.ModelError

/-!
# Answers

A query over a store fails in one of two ways. Either a handle leads outside the store, which only
a store that was put together wrongly can cause, or the declarations themselves are at fault.
Functions that only follow handles return an `Option`, functions that only judge declarations return
`Except ModelError`, and those that do both return an `Answer`.
-/

namespace TypeModel

/-- Why a query has no value. -/
inductive Failure where
  /-- A handle leads outside the store. -/
  | outOfRange
  /-- The declarations are at fault. -/
  | rejected (error : ModelError)
  deriving DecidableEq, Inhabited

/-- The outcome of a query. -/
abbrev Answer := Except Failure

namespace Answer

/-- The value that handles led to, or the failure that they led outside the store. -/
def inRange {α : Type} : Option α → Answer α
  | some a => .ok a
  | none => .error .outOfRange

/-- The value, or the failure that the declarations are at fault. -/
def judged {α : Type} : Except ModelError α → Answer α
  | .ok a => .ok a
  | .error e => .error (.rejected e)

/-- A failure of the declarations. -/
def reject {α : Type} (e : ModelError) : Answer α :=
  .error (.rejected e)

end Answer

end TypeModel
