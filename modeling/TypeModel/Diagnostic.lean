/-!
# Diagnostics

A diagnostic reports why building the model stopped: the class of the failure, whose code a reader
can look up, a message, the declaration that caused it if one is known, and notes.
-/

namespace TypeModel

/-- The classes of failure, each with a code of its own. -/
inductive ErrorClass where
  /-- A declaration of a kind that cannot stand where it was given. -/
  | unsupportedKind
  /-- Annotations that contradict each other or the use made of them. -/
  | configuration
  /-- A proxy annotation whose arguments cannot be understood. -/
  | malformedProxy
  deriving DecidableEq, Repr, Inhabited

namespace ErrorClass

/-- The code under which a failure is looked up. -/
def code : ErrorClass → String
  | .unsupportedKind => "E1001"
  | .configuration => "E1002"
  | .malformedProxy => "E1003"

/-- The class with the given code. -/
def ofCode? : String → Option ErrorClass
  | "E1001" => some .unsupportedKind
  | "E1002" => some .configuration
  | "E1003" => some .malformedProxy
  | _ => none

/-- Whether the failure arises while declarations are resolved: their codes begin with `E1`. -/
def concernsResolution (c : ErrorClass) : Bool :=
  ['E', '1'].isPrefixOf c.code.toList

/-- Whether the failure is a defect of the tool that read the declarations. The set of proxy
arguments is closed, so an unknown one counts as such. -/
def blamesReader : ErrorClass → Bool
  | .unsupportedKind | .malformedProxy => true
  | .configuration => false

end ErrorClass

inductive Severity where
  | error
  | warning
  | note
  deriving DecidableEq, Repr, Inhabited

def Severity.word : Severity → String
  | .error => "error"
  | .warning => "warning"
  | .note => "note"

/-- A report about one declaration. -/
structure Diagnostic where
  errorClass : ErrorClass
  severity : Severity := .error
  message : String := ""
  /-- The qualified name of the declaration at fault, if it is known. -/
  subject : Option String := none
  notes : List String := []
  deriving DecidableEq, Repr, Inhabited

namespace Diagnostic

def setMessage (d : Diagnostic) (message : String) : Diagnostic :=
  { d with message }

def setSubject (d : Diagnostic) (subject : String) : Diagnostic :=
  { d with subject := some subject }

def addNote (d : Diagnostic) (note : String) : Diagnostic :=
  { d with notes := d.notes ++ [note] }

/-- Whether the diagnostic is an error, and not a warning or a note. -/
def isError (d : Diagnostic) : Bool :=
  d.severity = .error

/-- The diagnostic as printed: a heading, an arrow to the declaration at fault, then the notes. -/
def render (d : Diagnostic) : String :=
  let heading := d.severity.word ++ " [" ++ d.errorClass.code ++ "]: " ++ d.message
  let pointer := match d.subject with
    | none => ""
    | some subject => "\n  --> " ++ subject
  heading ++ pointer ++ String.join (d.notes.map fun note => "\n  = note: " ++ note)

end Diagnostic

end TypeModel
