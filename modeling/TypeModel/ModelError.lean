import TypeModel.Annotation.Inspect
import TypeModel.Diagnostic

/-!
# Errors of the model

Every error names the declaration that caused it and why. The reason is kept as a value; its wording
is in `Conflict.message`, `ProxyDefect.detail` and `ModelError.message` alone.
-/

namespace TypeModel

/-- Why the annotations of a declaration contradict each other or the use made of them. -/
inductive Conflict where
  /-- Several distinct annotations of a kind that may occur once. -/
  | repeated (kind : String) (count : Nat)
  /-- An annotation that needs a string argument has none. -/
  | missingString (kind : String)
  /-- A proxy annotation gives two attribute policies. -/
  | secondAttributePolicy
  /-- A proxy annotation gives two member policies. -/
  | secondMemberPolicy
  /-- A type without the proxy annotation is used as a proxy. -/
  | unmarkedProxy (kind : String)
  /-- The record of the declaring type has no place for the member. -/
  | unlistedMember (typeName : String)
  /-- The static constructor of the type is there already. -/
  | staticConstructorPresent
  /-- A reason given in words. -/
  | described (message : String)
  deriving DecidableEq, Inhabited

def Conflict.message : Conflict → String
  | .repeated kind count =>
    toString count ++ " `" ++ kind ++ "` annotations where at most one is allowed"
  | .missingString kind => "`" ++ kind ++ "` requires a string argument"
  | .secondAttributePolicy => "more than one attribute policy given"
  | .secondMemberPolicy => "more than one member policy given"
  | .unmarkedProxy kind => "type is used as a proxy but has no `" ++ kind ++ "` annotation"
  | .unlistedMember typeName => "member is not part of the record of `" ++ typeName ++ "`"
  | .staticConstructorPresent => "`.cctor` is already present"
  | .described message => message

/-- Why a proxy annotation cannot be understood. -/
inductive ProxyDefect where
  /-- An argument that is neither a target nor a policy. -/
  | unexpectedArgument (argument : Argument)
  /-- No argument names a target. -/
  | noTarget
  /-- A reason given in words. -/
  | described (detail : String)
  deriving DecidableEq, Inhabited

def ProxyDefect.detail : ProxyDefect → String
  | .unexpectedArgument argument =>
    "unexpected argument " ++ argument.inspect ++ " of type `" ++ argument.typeName ++ "`"
  | .noTarget => "no proxied type given"
  | .described detail => detail

/-- Why the model of a set of declarations cannot be built or asked. -/
inductive ModelError where
  /-- A declaration of one kind stands where another is expected. -/
  | unsupportedKind (name found expected : String)
  | configuration (owner : String) (conflict : Conflict)
  | malformedProxy (proxy : String) (defect : ProxyDefect)
  deriving DecidableEq, Inhabited

namespace ModelError

def message : ModelError → String
  | .unsupportedKind name found expected =>
    "`" ++ name ++ "` is a " ++ found ++ ", expected " ++ expected
  | .configuration owner conflict =>
    "ambiguous metadata on `" ++ owner ++ "`: " ++ conflict.message
  | .malformedProxy proxy defect => "malformed proxy `" ++ proxy ++ "`: " ++ defect.detail

def errorClass : ModelError → ErrorClass
  | .unsupportedKind .. => .unsupportedKind
  | .configuration .. => .configuration
  | .malformedProxy .. => .malformedProxy

/-- The qualified name of the declaration at fault. -/
def subject : ModelError → String
  | .unsupportedKind name .. => name
  | .configuration owner _ => owner
  | .malformedProxy proxy _ => proxy

/-- What to do about an error of each class. -/
def advice : ErrorClass → String
  | .unsupportedKind => "this is a defect in the metadata reader, not in user code"
  | .configuration => "remove the duplicate or conflicting annotation"
  | .malformedProxy =>
    "proxy arguments must be target types, an attribute policy or a member policy"

def report (e : ModelError) : Diagnostic :=
  { errorClass := e.errorClass, message := e.message, subject := some e.subject,
    notes := [advice e.errorClass] }

end ModelError

end TypeModel
