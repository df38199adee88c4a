/-!
# Vocabulary

The model gives meaning to seven full names: five kinds of annotation and the two enum types from
which a proxy annotation takes its policies. Which names these are is up to the caller.
-/

namespace TypeModel

/-- The full names that carry meaning. -/
structure Vocabulary where
  /-- Marks a declaration that must not be emitted. -/
  ignore : String := "Xlate.Meta.IgnoreAttribute"
  /-- Gives a declaration another visible name. -/
  rename : String := "Xlate.Meta.RenameAttribute"
  /-- Marks a type as a proxy of other types. -/
  proxy : String := "Xlate.Meta.ProxyAttribute"
  /-- Marks an enum type whose values are combined. -/
  flags : String := "System.FlagsAttribute"
  /-- Marks a method whose overloads are told apart when it is called. -/
  runtimeDispatch : String := "Xlate.Meta.RuntimeDispatchAttribute"
  /-- The enum type of attribute policies. -/
  attributePolicyEnum : String := "Xlate.Meta.ProxyAttributePolicy"
  /-- The enum type of member policies. -/
  memberPolicyEnum : String := "Xlate.Meta.ProxyMemberPolicy"
  deriving DecidableEq, Repr, Inhabited

end TypeModel
