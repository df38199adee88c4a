/-!
# Hidden names

Compilers emit scaffolding that must not reach the output: the root type of a module, caches of
call sites, helpers that initialise static data. They also emit state that the output depends on:
bodies of lambdas, closure classes, state machines, backing fields of properties. Both are told by
name alone. A name of the second sort is *generated state* and stays visible, whatever else it
contains.
-/

namespace TypeModel.HiddenName

def occursIn (fragment : List Char) : List Char → Bool
  | [] => fragment.isEmpty
  | c :: rest => fragment.isPrefixOf (c :: rest) || occursIn fragment rest

theorem occursIn_iff {fragment text : List Char} :
    occursIn fragment text = true ↔ fragment <:+: text := by
  induction text with
  | nil => simp [occursIn]
  | cons c rest ih => simp [occursIn, ih, List.infix_cons_iff]

/-! ## Generated state -/

/-- Whether a text that follows an opening angle bracket closes it, without another bracket in
between, and goes on with `b__` (a lambda body), `c__` (a closure class) or `d__` (a state
machine). -/
def closesMangledScope (text : List Char) : Bool :=
  match text.dropWhile fun c => c != '<' && c != '>' with
  | '>' :: x :: '_' :: '_' :: _ => x == 'b' || x == 'c' || x == 'd'
  | _ => false

/-- Whether a scope in angle brackets, followed by one of the three marks, occurs in a text. -/
def hasMangledScope : List Char → Bool
  | [] => false
  | c :: rest => (c == '<' && closesMangledScope rest) || hasMangledScope rest

/-- Whether a name denotes generated state, which stays visible. -/
def staysVisible (name : List Char) : Bool :=
  hasMangledScope name || "__BackingField".toList.isSuffixOf name ||
    occursIn "__DisplayClass".toList name

/-! ## Scaffolding -/

/-- The fragments that mark a name as scaffolding. -/
def fragments : List (List Char) :=
  ["<Module>".toList, "__SiteContainer".toList, "$ArrayType$".toList,
    "<PrivateImplementationDetails>".toList, "Runtime.CompilerServices.CallSite".toList,
    "__CachedAnonymousMethodDelegate".toList]

/-- Whether a name denotes scaffolding by the way it begins or by a fragment in it. -/
def isScaffolding (name : List Char) : Bool :=
  "CS$<".toList.isPrefixOf name || fragments.any fun fragment => occursIn fragment name

end TypeModel.HiddenName

namespace TypeModel

/-- Whether a name is that of scaffolding, which must not be emitted. Generated state is exempt. -/
def isHiddenName (name : String) : Bool :=
  !HiddenName.staysVisible name.toList && HiddenName.isScaffolding name.toList

end TypeModel
