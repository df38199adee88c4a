import TypeModel.Metadata
import TypeModel.Vocabulary

/-!
# Visible names

The visible name of a declaration is the one that emitted code uses for it. A rename annotation
decides it outright. Otherwise it is the declared name, and a method that shares its name with
others is told apart by its number among them, unless a call decides between them when it runs.
-/

namespace TypeModel

/-- The text that tells an overload apart: a dollar sign and its number. -/
def overloadSuffix (index : Nat) : String :=
  "$" ++ toString index

/-- The visible name of a declaration with the given metadata and declared name. -/
def Vocabulary.visibleName (names : Vocabulary) (metadata : Metadata) (declared : String)
    (overloadIndex : Option Nat) : Except ModelError String := do
  match ← metadata.soleString names.rename with
  | some renamed => return renamed
  | none =>
    match overloadIndex with
    | none => return declared
    | some index =>
      if metadata.has names.runtimeDispatch then return declared
      else return declared ++ overloadSuffix index

/-- Only a rename annotation can keep a declaration from having a visible name. -/
theorem Vocabulary.exists_visibleName {names : Vocabulary} {m : Metadata}
    {renamed : Option String} (h : m.soleString names.rename = .ok renamed) (declared : String)
    (index : Option Nat) :
    ∃ visible, names.visibleName m declared index = .ok visible := by
  unfold Vocabulary.visibleName
  rw [h]
  cases renamed with
  | some visible => exact ⟨visible, rfl⟩
  | none =>
    cases index with
    | none => exact ⟨declared, rfl⟩
    | some i =>
      by_cases hdispatch : m.has names.runtimeDispatch = true
      · exact ⟨declared, if_pos hdispatch⟩
      · exact ⟨declared ++ overloadSuffix i, if_neg hdispatch⟩

end TypeModel
