import TypeModel.Signature.Basic
import TypeModel.Text.Quoted

/-!
# The structure of a signature as text

Where a message has to show what a signature is made of, and not how a reader would write it, each
part stands under the name of its role.
-/

namespace TypeModel

/-- The word for where a generic parameter is declared. -/
def GenericBinder.inspect : GenericBinder → String
  | .type => "Type"
  | .method => "Method"

namespace Signature

mutual

/-- The structure of a signature. -/
def inspect : Signature → String
  | .named fullName args =>
    "Named \x7b full_name: " ++ Text.quoted fullName ++
      ", args: [" ++ ", ".intercalate (inspectAll args) ++ "] \x7d"
  | .param owner position name =>
    "GenericParam \x7b owner: " ++ owner.inspect ++ ", position: " ++ toString position ++
      ", name: " ++ Text.quoted name ++ " \x7d"
  | .byRef target => "ByRef(" ++ target.inspect ++ ")"
  | .pointer target => "Pointer(" ++ target.inspect ++ ")"
  | .array element => "Array(" ++ element.inspect ++ ")"

/-- The structures of several signatures. -/
def inspectAll : List Signature → List String
  | [] => []
  | s :: rest => s.inspect :: inspectAll rest

end

end Signature

end TypeModel
