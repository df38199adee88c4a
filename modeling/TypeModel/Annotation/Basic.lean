import TypeModel.Signature.Basic

/-!
# Annotations

An annotation is an instance of an annotation kind with constructor arguments. Annotations compare
structurally, so that attaching the same one twice says nothing new.
-/

namespace TypeModel

inductive Argument where
  | str (value : String)
  | int (value : Int64)
  | bool (value : Bool)
  /-- A reference to a type. -/
  | type (sig : Signature)
  /-- A value of an enum type, given by its underlying integer. -/
  | enum (enumType : String) (value : Int64)
  | array (items : List Argument)
  deriving Inhabited

namespace Argument

/-! ## Arguments have decidable equality -/

mutual

def decEq : (a b : Argument) → Decidable (a = b)
  | .str s, .str t =>
    if h : s = t then .isTrue (by rw [h]) else .isFalse fun heq => h (Argument.str.inj heq)
  | .int s, .int t =>
    if h : s = t then .isTrue (by rw [h]) else .isFalse fun heq => h (Argument.int.inj heq)
  | .bool s, .bool t =>
    if h : s = t then .isTrue (by rw [h]) else .isFalse fun heq => h (Argument.bool.inj heq)
  | .type s, .type t =>
    if h : s = t then .isTrue (by rw [h]) else .isFalse fun heq => h (Argument.type.inj heq)
  | .enum f v, .enum g w =>
    if h : f = g ∧ v = w then .isTrue (by rw [h.1, h.2])
    else .isFalse fun heq => h (Argument.enum.inj heq)
  | .array xs, .array ys => match decEqList xs ys with
    | .isTrue h => .isTrue (by rw [h])
    | .isFalse h => .isFalse fun heq => h (Argument.array.inj heq)
  | .str _, .int _ | .str _, .bool _ | .str _, .type _ | .str _, .enum .. | .str _, .array _
  | .int _, .str _ | .int _, .bool _ | .int _, .type _ | .int _, .enum .. | .int _, .array _
  | .bool _, .str _ | .bool _, .int _ | .bool _, .type _ | .bool _, .enum .. | .bool _, .array _
  | .type _, .str _ | .type _, .int _ | .type _, .bool _ | .type _, .enum .. | .type _, .array _
  | .enum .., .str _ | .enum .., .int _ | .enum .., .bool _ | .enum .., .type _
  | .enum .., .array _
  | .array _, .str _ | .array _, .int _ | .array _, .bool _ | .array _, .type _
  | .array _, .enum .. => .isFalse nofun

def decEqList : (xs ys : List Argument) → Decidable (xs = ys)
  | [], [] => .isTrue rfl
  | [], _ :: _ => .isFalse nofun
  | _ :: _, [] => .isFalse nofun
  | x :: xs, y :: ys => match decEq x y with
    | .isFalse h => .isFalse fun heq => h (List.cons.inj heq).1
    | .isTrue hx => match decEqList xs ys with
      | .isTrue hxs => .isTrue (by rw [hx, hxs])
      | .isFalse h => .isFalse fun heq => h (List.cons.inj heq).2

end

instance : DecidableEq Argument := decEq

/-! ## Reading an argument -/

/-- The full name of the declared type of an argument; an array goes by its first item. -/
def typeName : Argument → String
  | .str _ => "System.String"
  | .int _ => "System.Int64"
  | .bool _ => "System.Boolean"
  | .type _ => "System.Type"
  | .enum enumType _ => enumType
  | .array [] => "System.Object[]"
  | .array (first :: _) => first.typeName ++ "[]"

def asStr? : Argument → Option String
  | .str value => some value
  | _ => none

mutual

/-- The type names that an argument mentions: a named type, a string, or those of an array. -/
def mentions : Argument → List String
  | .str fullName => [fullName]
  | .type (.named fullName _) => [fullName]
  | .array items => mentionedTypes items
  | _ => []

/-- The type names that a list of arguments mentions, in order and with repetitions. -/
def mentionedTypes : List Argument → List String
  | [] => []
  | a :: rest => a.mentions ++ mentionedTypes rest

end

theorem mentionedTypes_eq_flatMap (args : List Argument) :
    mentionedTypes args = args.flatMap mentions := by
  induction args with
  | nil => rfl
  | cons a rest ih => simp [mentionedTypes, ih]

end Argument

/-- An annotation: the full name of its kind and its constructor arguments. -/
structure Annotation where
  kind : String
  args : List Argument := []
  deriving DecidableEq, Inhabited

end TypeModel
