import TypeModel.Annotation.Basic
import TypeModel.Signature.Inspect

/-!
# The structure of an annotation argument as text

Messages about an argument that does not belong where it stands show its structure.
-/

namespace TypeModel.Argument

mutual

/-- The structure of an argument. -/
def inspect : Argument → String
  | .str value => "Str(" ++ Text.quoted value ++ ")"
  | .int value => "Int(" ++ toString value.toInt ++ ")"
  | .bool value => "Bool(" ++ (if value then "true" else "false") ++ ")"
  | .type sig => "Type(" ++ sig.inspect ++ ")"
  | .enum enumType value =>
    "Enum \x7b enum_type: " ++ Text.quoted enumType ++ ", value: " ++ toString value.toInt ++
      " \x7d"
  | .array items => "Array([" ++ ", ".intercalate (inspectAll items) ++ "])"

/-- The structures of several arguments. -/
def inspectAll : List Argument → List String
  | [] => []
  | a :: rest => a.inspect :: inspectAll rest

end

end TypeModel.Argument
