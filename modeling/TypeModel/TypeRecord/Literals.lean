import TypeModel.Store.Names

/-!
# Literals of enum types

The literals of an enum type are its listed fields but for the one that holds the value. A literal
without a constant of its own takes the value after the one before it, in 64-bit arithmetic that
wraps around; the first one takes zero.
-/

namespace TypeModel

structure EnumLiteral where
  owner : TypeId
  field : FieldId
  fullName : String
  name : String
  value : Int64
  deriving DecidableEq, Inhabited

namespace EnumLiteral

/-- The name of the field that holds the value of an enum type and is no literal. -/
def valueFieldName : String := "value__"

/-- The value of a literal, by the value of the one before it. -/
def literalValue (previous constant : Option Int64) : Int64 :=
  match constant, previous with
  | some value, _ => value
  | none, some value => value + 1
  | none, none => 0

/-- Gives values to literals in order. -/
def number (previous : Option Int64) :
    List (FieldId × FieldDecl) → List ((FieldId × FieldDecl) × Int64)
  | [] => []
  | literal :: rest =>
    let value := literalValue previous literal.2.constant
    (literal, value) :: number (some value) rest

/-- The fields that a type lists, with their declarations. -/
def listedFields? (store : Store) (t : TypeDecl) : Option (List (FieldId × FieldDecl)) :=
  t.fields.mapM fun id => return (id, ← store.field? id)

/-- The literals among fields. -/
def literals (fields : List (FieldId × FieldDecl)) : List (FieldId × FieldDecl) :=
  fields.filter fun f => f.2.name != valueFieldName

/-- The literals of a type, none if it is no enum type. -/
def ofType? (store : Store) (id : TypeId) (t : TypeDecl) : Option (List EnumLiteral) := do
  if t.kind = .enumType then
    (number none (literals (← listedFields? store t))).mapM fun ((field, d), value) => do
      let fullName ← store.qualifiedMemberName? (.field field)
      return { owner := id, field, fullName, name := d.name, value }
  else return []

end EnumLiteral

end TypeModel
