import TypeModel.Metadata
import TypeModel.Vocabulary

/-!
# The proxy marker

A type becomes a proxy by an annotation that names its targets and, if it likes, one attribute
policy and one member policy. The arguments come in any order and are told apart by what they are:
a named type or a string is a target, an array of those is several, a value of one of the two
policy enums is a policy. Anything else makes the marker malformed, as does the lack of a target.
-/

namespace TypeModel

/-- How the annotations of a proxy combine with those of its target. -/
inductive AttributePolicy where
  /-- They are added to the target's. -/
  | merge
  /-- They take the place of the target's. -/
  | replace
  deriving DecidableEq, Repr, Inhabited

/-- The policy that an enum value stands for. -/
def AttributePolicy.ofValue? (value : Int64) : Option AttributePolicy :=
  if value = 0 then some .merge
  else if value = 1 then some .replace
  else none

/-- Whether the members of a proxy may substitute those of its target. -/
inductive MemberPolicy where
  /-- Members that match are substituted. -/
  | replaceMatching
  /-- Every member that matches is substituted. -/
  | replaceAll
  /-- No member is substituted; the proxy may still contribute new ones. -/
  | replaceNone
  deriving DecidableEq, Repr, Inhabited

/-- The policy that an enum value stands for. -/
def MemberPolicy.ofValue? (value : Int64) : Option MemberPolicy :=
  if value = 0 then some .replaceMatching
  else if value = 1 then some .replaceAll
  else if value = 2 then some .replaceNone
  else none

/-- What a proxy annotation says. -/
structure ProxyMarker where
  /-- The full names of the targets, in the order of the arguments and with repetitions. -/
  targets : List String
  attributePolicy : AttributePolicy := .merge
  memberPolicy : MemberPolicy := .replaceMatching
  deriving DecidableEq, Repr, Inhabited

namespace ProxyMarker

/-- What has been read of a proxy annotation so far. -/
structure Reading where
  targets : List String := []
  attributePolicy : Option AttributePolicy := none
  memberPolicy : Option MemberPolicy := none
  deriving DecidableEq, Repr, Inhabited

/-- The full name of a target, if the argument is one. -/
def target? : Argument → Option String
  | .type (.named fullName _) => some fullName
  | .str fullName => some fullName
  | _ => none

/-- The full names of the targets in an array, or the first item that is none. -/
def itemTargets : List Argument → Except Argument (List String)
  | [] => .ok []
  | item :: rest =>
    match target? item with
    | none => .error item
    | some fullName => (itemTargets rest).map (fullName :: ·)

variable (names : Vocabulary) (owner : String)

/-- The error that an argument has no place in a proxy annotation. -/
def unexpected (argument : Argument) : ModelError :=
  .malformedProxy owner (.unexpectedArgument argument)

/-- Reads one argument. A value of a policy enum is judged before its repetition is. -/
def readArgument (r : Reading) (argument : Argument) : Except ModelError Reading :=
  match argument with
  | .array items =>
    match itemTargets items with
    | .ok found => .ok { r with targets := r.targets ++ found }
    | .error item => .error (unexpected owner item)
  | .enum enumType value =>
    if enumType = names.attributePolicyEnum then
      match AttributePolicy.ofValue? value, r.attributePolicy with
      | none, _ => .error (unexpected owner argument)
      | some _, some _ => .error (.configuration owner .secondAttributePolicy)
      | some policy, none => .ok { r with attributePolicy := some policy }
    else if enumType = names.memberPolicyEnum then
      match MemberPolicy.ofValue? value, r.memberPolicy with
      | none, _ => .error (unexpected owner argument)
      | some _, some _ => .error (.configuration owner .secondMemberPolicy)
      | some policy, none => .ok { r with memberPolicy := some policy }
    else .error (unexpected owner argument)
  | _ =>
    match target? argument with
    | some fullName => .ok { r with targets := r.targets ++ [fullName] }
    | none => .error (unexpected owner argument)

/-- The marker that the whole argument list amounts to. -/
def Reading.finish (r : Reading) : Except ModelError ProxyMarker :=
  if r.targets.isEmpty then .error (.malformedProxy owner .noTarget)
  else .ok {
    targets := r.targets
    attributePolicy := r.attributePolicy.getD .merge
    memberPolicy := r.memberPolicy.getD .replaceMatching }

/-- Reads the arguments of a proxy annotation from left to right; the first fault decides. -/
def ofArguments (args : List Argument) : Except ModelError ProxyMarker := do
  (← args.foldlM (readArgument names owner) {}).finish owner

/-- The marker in the metadata of a type, or none if the type is not a proxy. -/
def ofMetadata (metadata : Metadata) : Except ModelError (Option ProxyMarker) := do
  match ← metadata.soleArgs names.proxy with
  | none => return none
  | some args => return some (← ofArguments names metadata.owner args)

end ProxyMarker

end TypeModel
