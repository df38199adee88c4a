import TypeModel.HiddenName
import TypeModel.Store.Names
import TypeModel.Vocabulary

/-!
# Module records

The record of a module: its name, its metadata, and whether nothing of it must be emitted.
-/

namespace TypeModel

/-- The record of one module. -/
structure ModuleRecord where
  id : ModuleId
  name : String
  metadata : Metadata
  ignored : Bool
  deriving DecidableEq, Inhabited

/-- Builds the record of a module, which is ignored by its name or by an annotation. -/
def ModuleRecord.build? (store : Store) (names : Vocabulary) (id : ModuleId) :
    Option ModuleRecord := do
  let d ← store.module? id
  let metadata := Metadata.ofAnnotations d.name d.annotations
  return {
    id, name := d.name, metadata
    ignored := isHiddenName d.name || metadata.has names.ignore }

end TypeModel
