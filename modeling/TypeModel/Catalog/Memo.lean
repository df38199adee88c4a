import TypeModel.Answer

/-!
# Memos

A memo remembers the answer to each question asked, a failure as much as a success. A question gets
its cell before it is worked out, so that a cell may still be empty. Questions stand in the order in
which they were first asked, each once.
-/

namespace TypeModel

/-- Answers under the handles that they were asked for. -/
structure Memo (κ α : Type) where
  cells : List (κ × Option (Answer α)) := []

namespace Memo

variable {κ α : Type} [DecidableEq κ]

instance : Inhabited (Memo κ α) := ⟨{}⟩

def size (m : Memo κ α) : Nat :=
  m.cells.length

def asked (m : Memo κ α) : List κ :=
  m.cells.map Prod.fst

/-- The remembered answer to a question, if its cell is filled. -/
def find? (m : Memo κ α) (key : κ) : Option (Answer α) :=
  (m.cells.find? fun cell => cell.1 = key).bind Prod.snd

/-- The memo with a cell for a question, an empty one if it had none. -/
def enter (m : Memo κ α) (key : κ) : Memo κ α :=
  if key ∈ m.asked then m else ⟨m.cells ++ [(key, none)]⟩

/-- The memo with an answer in the cell of its question, in place of the one that it had. -/
def fill (m : Memo κ α) (key : κ) (answer : Answer α) : Memo κ α :=
  ⟨m.cells.map fun cell => if cell.1 = key then (key, some answer) else cell⟩

end Memo

end TypeModel
