import Mathlib.Computability.Language
import Mathlib.Data.List.TakeWhile
import TypeModel.Proofs.HiddenName

/-!
# What hides a name

A name is exempt from hiding for a scope in angle brackets, for its end or for a fragment; it is
scaffolding for its opening or for a fragment. Here both are described by the ways in which a name
can be split (`HiddenName.Exempt`, `HiddenName.Scaffold`), and the classification is shown to follow
the description (`HiddenName.classification_follows_description`). The scope is the one part that is
looked for by a pattern, `<[^<>]*>[bcd]__\w*`: the scan finds one exactly if a part of the name
belongs to the language of the pattern (`HiddenName.hasMangledScope_iff_exists_infix`).
-/

open scoped Computability

namespace TypeModel.HiddenName

/-! ## The language of the pattern -/

/-- The texts of one character from a class. -/
def oneOf (p : Char → Prop) : Language Char :=
  {text | ∃ c, p c ∧ text = [c]}

/-- The texts that the pattern of a mangled scope describes as a whole. Which characters a word is
made of is left open, since the word at the end may be empty. -/
def mangledScope (inWord : Char → Prop) : Language Char :=
  oneOf (· = '<') * ((oneOf fun c => c ≠ '<' ∧ c ≠ '>')∗ * (oneOf (· = '>') *
    (oneOf (· ∈ ['b', 'c', 'd']) * (oneOf (· = '_') * (oneOf (· = '_') * (oneOf inWord)∗)))))

section Language

variable {p : Char → Prop} {text : List Char}

theorem mem_oneOf_mul {l : Language Char} :
    text ∈ oneOf p * l ↔ ∃ c rest, text = c :: rest ∧ p c ∧ rest ∈ l := by
  rw [Language.mem_mul]
  constructor
  · rintro ⟨_, ⟨c, hc, rfl⟩, rest, hrest, rfl⟩
    exact ⟨c, rest, rfl, hc, hrest⟩
  · rintro ⟨c, rest, rfl, hc, hrest⟩
    exact ⟨[c], ⟨c, hc, rfl⟩, rest, hrest, rfl⟩

theorem mem_kstar_oneOf : text ∈ (oneOf p)∗ ↔ ∀ c ∈ text, p c := by
  rw [Language.mem_kstar]
  constructor
  · rintro ⟨parts, rfl, hparts⟩ c hc
    obtain ⟨part, hpart, hc⟩ := List.mem_flatten.1 hc
    obtain ⟨c', hp, rfl⟩ := hparts part hpart
    rwa [List.mem_singleton.1 hc]
  · intro h
    refine ⟨text.map fun c => [c], (List.flatMap_singleton' text).symm, fun part hpart => ?_⟩
    obtain ⟨c, hc, rfl⟩ := List.mem_map.1 hpart
    exact ⟨c, h c hc, rfl⟩

theorem mem_kstar_oneOf_mul {l : Language Char} : text ∈ (oneOf p)∗ * l ↔
    ∃ word rest, text = word ++ rest ∧ (∀ c ∈ word, p c) ∧ rest ∈ l := by
  rw [Language.mem_mul]
  constructor
  · rintro ⟨word, hword, rest, hrest, rfl⟩
    exact ⟨word, rest, rfl, mem_kstar_oneOf.1 hword, hrest⟩
  · rintro ⟨word, rest, rfl, hword, hrest⟩
    exact ⟨word, mem_kstar_oneOf.2 hword, rest, hrest, rfl⟩

/-- What the pattern describes, part by part. -/
theorem mem_mangledScope {inWord : Char → Prop} : text ∈ mangledScope inWord ↔
    ∃ inner mark word, text = '<' :: (inner ++ '>' :: mark :: '_' :: '_' :: word) ∧
      (∀ c ∈ inner, c ≠ '<' ∧ c ≠ '>') ∧ mark ∈ ['b', 'c', 'd'] ∧ ∀ c ∈ word, inWord c := by
  unfold mangledScope
  simp only [mem_oneOf_mul, mem_kstar_oneOf_mul, mem_kstar_oneOf]
  constructor
  · rintro ⟨_, _, rfl, rfl, inner, _, rfl, hinner, _, _, rfl, rfl, mark, _, rfl, hmark,
      _, _, rfl, rfl, _, word, rfl, rfl, hword⟩
    exact ⟨inner, mark, word, rfl, hinner, hmark, hword⟩
  · rintro ⟨inner, mark, word, rfl, hinner, hmark, hword⟩
    exact ⟨_, _, rfl, rfl, inner, _, rfl, hinner, _, _, rfl, rfl, mark, _, rfl, hmark,
      _, _, rfl, rfl, _, word, rfl, rfl, hword⟩

end Language

/-! ## The scan for a scope -/

section Scan

variable {text : List Char}

/-- What `dropWhile` leaves starts at the first element that the test refuses. -/
theorem dropWhile_eq_cons_iff {α : Type} {p : α → Bool} {xs rest : List α} {x : α} :
    xs.dropWhile p = x :: rest ↔
      ∃ before, xs = before ++ x :: rest ∧ (∀ y ∈ before, p y = true) ∧ p x = false := by
  constructor
  · intro h
    have hstop := List.head?_dropWhile_not p xs
    rw [h] at hstop
    refine ⟨xs.takeWhile p, ?_, fun y hy => List.mem_takeWhile_imp hy, by simpa using hstop⟩
    rw [← h, List.takeWhile_append_dropWhile]
  · rintro ⟨before, rfl, hbefore, hx⟩
    rw [List.dropWhile_append_of_pos hbefore, List.dropWhile_cons_of_neg (by simp [hx])]

/-- The scan stops at the first bracket, so that none stands between those of the scope. -/
theorem closesMangledScope_iff : closesMangledScope text = true ↔
    ∃ inner mark after, text = inner ++ '>' :: mark :: '_' :: '_' :: after ∧
      (∀ c ∈ inner, c ≠ '<' ∧ c ≠ '>') ∧ mark ∈ ['b', 'c', 'd'] := by
  unfold closesMangledScope
  constructor
  · intro h
    split at h
    · next mark after heq =>
      obtain ⟨inner, rfl, hinner, -⟩ := dropWhile_eq_cons_iff.1 heq
      exact ⟨inner, mark, after, rfl, by simpa using hinner, by simpa [or_assoc] using h⟩
    · cases h
  · rintro ⟨inner, mark, after, rfl, hinner, hmark⟩
    rw [dropWhile_eq_cons_iff.2 ⟨inner, rfl, by simpa using hinner, rfl⟩]
    simpa [or_assoc] using hmark

/-- The scan tries every bracket that opens, so that it finds a scope wherever it starts. -/
theorem hasMangledScope_iff : hasMangledScope text = true ↔
    ∃ before inner mark after,
      text = before ++ '<' :: (inner ++ '>' :: mark :: '_' :: '_' :: after) ∧
      (∀ c ∈ inner, c ≠ '<' ∧ c ≠ '>') ∧ mark ∈ ['b', 'c', 'd'] := by
  induction text with
  | nil => simp [hasMangledScope]
  | cons c rest ih =>
    rw [hasMangledScope, Bool.or_eq_true, Bool.and_eq_true, beq_iff_eq, closesMangledScope_iff, ih]
    constructor
    · rintro (⟨rfl, inner, mark, after, rfl, h⟩ | ⟨before, inner, mark, after, rfl, h⟩)
      · exact ⟨[], inner, mark, after, rfl, h⟩
      · exact ⟨c :: before, inner, mark, after, rfl, h⟩
    · rintro ⟨before, inner, mark, after, heq, h⟩
      rcases List.cons_eq_append_iff.1 heq with ⟨rfl, hrest⟩ | ⟨before', rfl, hrest⟩
      · obtain ⟨rfl, rfl⟩ := List.cons.inj hrest
        exact .inl ⟨rfl, inner, mark, after, rfl, h⟩
      · exact .inr ⟨before', inner, mark, after, hrest, h⟩

/-- The scan finds a scope exactly if some part of the text belongs to the language of the pattern.
-/
theorem hasMangledScope_iff_exists_infix (inWord : Char → Prop) : hasMangledScope text = true ↔
    ∃ part ∈ mangledScope inWord, part <:+: text := by
  rw [hasMangledScope_iff]
  constructor
  · rintro ⟨before, inner, mark, after, rfl, hinner, hmark⟩
    -- The part may end right after the mark, so that words do not matter.
    refine ⟨'<' :: (inner ++ '>' :: mark :: '_' :: '_' :: []), ?_, before, after, by simp⟩
    exact mem_mangledScope.2 ⟨inner, mark, [], rfl, hinner, hmark, nofun⟩
  · rintro ⟨part, hpart, before, after, rfl⟩
    obtain ⟨inner, mark, word, rfl, hinner, hmark, -⟩ := mem_mangledScope.1 hpart
    exact ⟨before, inner, mark, word ++ after, by simp, hinner, hmark⟩

/-- A search reports exactly the names of which a part belongs to the language of the pattern. -/
def Searches (inWord : Char → Prop) (search : String → Bool) : Prop :=
  ∀ name, search name = true ↔ ∃ part ∈ mangledScope inWord, part <:+: name.toList

theorem searches_hasMangledScope (inWord : Char → Prop) :
    Searches inWord fun name => hasMangledScope name.toList :=
  fun _ => hasMangledScope_iff_exists_infix inWord

/-- Whether a name is hidden, with another search for a scope in the place of the scan. -/
def isHiddenBy (search : String → Bool) (name : String) : Bool :=
  !(search name || "__BackingField".toList.isSuffixOf name.toList ||
    occursIn "__DisplayClass".toList name.toList) && isScaffolding name.toList

/-- All searches for the pattern hide the same names. -/
theorem isHiddenBy_eq {inWord : Char → Prop} {search : String → Bool} (h : Searches inWord search)
    (name : String) : isHiddenBy search name = isHiddenName name := by
  have hscan : search name = hasMangledScope name.toList :=
    Bool.eq_iff_iff.2 ((h name).trans (searches_hasMangledScope inWord name).symm)
  rw [isHiddenBy, hscan]
  rfl

end Scan

/-! ## The description -/

/-- A text stands somewhere in a name. -/
def Contains (fragment name : String) : Prop :=
  ∃ before after, name = before ++ fragment ++ after

/-- A scope in angle brackets, with no bracket inside, is followed by one of the three marks. -/
def HasScope (name : String) : Prop :=
  ∃ before inner mark after, name = before ++ "<" ++ inner ++ ">" ++ mark ++ "__" ++ after ∧
    (∀ c ∈ inner.toList, c ≠ '<' ∧ c ≠ '>') ∧ mark ∈ ["b", "c", "d"]

/-- The names that stay visible, whatever else they contain. -/
inductive Exempt (name : String) : Prop where
  | scope (h : HasScope name)
  | backingField (before : String) (h : name = before ++ "__BackingField")
  | displayClass (h : Contains "__DisplayClass" name)

def scaffoldFragments : List String :=
  ["<Module>", "__SiteContainer", "$ArrayType$", "<PrivateImplementationDetails>",
    "Runtime.CompilerServices.CallSite", "__CachedAnonymousMethodDelegate"]

/-- The names that are hidden unless they are exempt. -/
inductive Scaffold (name : String) : Prop where
  | opening (after : String) (h : name = "CS$<" ++ after)
  | fragment (fragment : String) (hfragment : fragment ∈ scaffoldFragments)
      (h : Contains fragment name)

section Description

variable {fragment name : String}

theorem contains_iff : Contains fragment name ↔ fragment.toList <:+: name.toList := by
  constructor
  · rintro ⟨before, after, rfl⟩
    exact ⟨before.toList, after.toList, by simp⟩
  · rintro ⟨before, after, heq⟩
    refine ⟨String.ofList before, String.ofList after, String.toList_inj.1 ?_⟩
    simp [← heq]

/-- Text around a name leaves in it what it contains. -/
theorem Contains.around (h : Contains fragment name) (before after : String) :
    Contains fragment (before ++ name ++ after) := by
  obtain ⟨before', after', rfl⟩ := h
  exact ⟨before ++ before', after' ++ after, by simp only [String.append_assoc]⟩

theorem HasScope.around (h : HasScope name) (before after : String) :
    HasScope (before ++ name ++ after) := by
  obtain ⟨before', inner, mark, after', rfl, hinner, hmark⟩ := h
  refine ⟨before ++ before', inner, mark, after' ++ after, ?_, hinner, hmark⟩
  simp only [String.append_assoc]

theorem mem_marks_iff {mark : String} :
    mark ∈ ["b", "c", "d"] ↔ ∃ c ∈ ['b', 'c', 'd'], String.singleton c = mark := by
  have hmap : ["b", "c", "d"] = ['b', 'c', 'd'].map String.singleton := rfl
  rw [hmap, List.mem_map]

theorem hasScope_iff : HasScope name ↔ hasMangledScope name.toList = true := by
  rw [hasMangledScope_iff]
  constructor
  · rintro ⟨before, inner, mark, after, rfl, hinner, hmark⟩
    obtain ⟨c, hc, rfl⟩ := mem_marks_iff.1 hmark
    exact ⟨before.toList, inner.toList, c, after.toList, by simp, hinner, hc⟩
  · rintro ⟨before, inner, c, after, heq, hinner, hc⟩
    refine ⟨String.ofList before, String.ofList inner, String.singleton c, String.ofList after,
      String.toList_inj.1 ?_, ?_, mem_marks_iff.2 ⟨c, hc, rfl⟩⟩
    · simp [heq]
    · simpa using hinner

/-- What is described as exempt is what stays visible. -/
theorem exempt_iff : Exempt name ↔ staysVisible name.toList = true := by
  have hsuffix : (∃ before, name = before ++ "__BackingField") ↔
      "__BackingField".toList <:+ name.toList := by
    constructor
    · rintro ⟨before, rfl⟩
      exact ⟨before.toList, by simp⟩
    · rintro ⟨before, heq⟩
      exact ⟨String.ofList before, String.toList_inj.1 (by simp [← heq])⟩
  rw [staysVisible, Bool.or_eq_true, Bool.or_eq_true, ← hasScope_iff, List.isSuffixOf_iff_suffix,
    ← hsuffix, occursIn_iff, ← contains_iff]
  constructor
  · rintro (h | ⟨before, h⟩ | h)
    · exact .inl (.inl h)
    · exact .inl (.inr ⟨before, h⟩)
    · exact .inr h
  · rintro ((h | ⟨before, h⟩) | h)
    · exact .scope h
    · exact .backingField before h
    · exact .displayClass h

theorem scaffold_iff : Scaffold name ↔ isScaffolding name.toList = true := by
  have hfragments : fragments = scaffoldFragments.map String.toList := rfl
  rw [isScaffolding_iff, hfragments]
  constructor
  · rintro (⟨after, rfl⟩ | ⟨fragment, hfragment, h⟩)
    · exact .inl ⟨after.toList, by simp⟩
    · exact .inr ⟨_, List.mem_map_of_mem hfragment, contains_iff.1 h⟩
  · rintro (⟨after, heq⟩ | ⟨_, hmem, h⟩)
    · exact .opening (String.ofList after) (String.toList_inj.1 (by simp [← heq]))
    · obtain ⟨fragment, hfragment, rfl⟩ := List.mem_map.1 hmem
      exact .fragment fragment hfragment (contains_iff.2 h)

/-- A name is hidden exactly if it is scaffolding and not exempt. -/
theorem isHiddenName_iff_description : isHiddenName name = true ↔ ¬Exempt name ∧ Scaffold name := by
  rw [isHiddenName_iff, exempt_iff, scaffold_iff, Bool.not_eq_true]

/-- An exempt name is never hidden. -/
theorem Exempt.not_hidden (h : Exempt name) : isHiddenName name = false :=
  Bool.eq_false_iff.2 fun hhidden => (isHiddenName_iff_description.1 hhidden).1 h

end Description

/-! ## The classification -/

/-- The classification of a name follows the description, and what a name contains decides how it
goes on to be classified with other text around it. -/
structure FollowsDescription (name : String) : Prop where
  /-- The scan for a scope finds one exactly if a part of the name belongs to the language of the
  pattern, whatever characters words are made of. -/
  search : ∀ inWord, hasMangledScope name.toList = true ↔
    ∃ part ∈ mangledScope inWord, part <:+: name.toList
  /-- The scan may be replaced by any search that reports exactly this. -/
  engine : ∀ inWord search, Searches inWord search → isHiddenBy search name = isHiddenName name
  hidden : isHiddenName name = true ↔ ¬Exempt name ∧ Scaffold name
  exempt : Exempt name → isHiddenName name = false
  around_exempt : HasScope name ∨ Contains "__DisplayClass" name →
    ∀ before after, isHiddenName (before ++ name ++ after) = false
  around_fragment : ∀ fragment ∈ scaffoldFragments, Contains fragment name →
    ∀ before after, isHiddenName (before ++ name ++ after) = true ↔
      ¬Exempt (before ++ name ++ after)

/-- Every name is classified as the description says. -/
theorem classification_follows_description (name : String) : FollowsDescription name where
  search inWord := hasMangledScope_iff_exists_infix inWord
  engine inWord search h := isHiddenBy_eq h name
  hidden := isHiddenName_iff_description
  exempt h := h.not_hidden
  around_exempt h before after := by
    rcases h with h | h
    · exact (Exempt.scope (h.around before after)).not_hidden
    · exact (Exempt.displayClass (h.around before after)).not_hidden
  around_fragment fragment hfragment h before after := by
    rw [isHiddenName_iff_description, and_iff_left]
    exact .fragment fragment hfragment (h.around before after)

/-- The root type of a module is hidden, and its brackets make a scope when a mark follows. -/
theorem module_root_with_mark_is_visible :
    isHiddenBy (fun name => hasMangledScope name.toList) "<Module>" = true ∧
      Exempt ("" ++ "<Module>" ++ "b__0") ∧ isHiddenName ("" ++ "<Module>" ++ "b__0") = false := by
  have hroot := classification_follows_description "<Module>"
  have hhidden : isHiddenName "<Module>" = true := by decide
  have hengine := hroot.engine (fun _ => True) _ (searches_hasMangledScope _)
  have hmodule : Contains "<Module>" "<Module>" := ⟨"", "", rfl⟩
  have haround := hroot.around_fragment _ (by decide) hmodule "" "b__0"
  have hexempt : Exempt ("" ++ "<Module>" ++ "b__0") :=
    .scope ⟨"", "Module", "b", "0", rfl, by simp, by simp⟩
  exact ⟨hengine.trans hhidden, hexempt, Bool.eq_false_iff.2 fun h => haround.1 h hexempt⟩

end TypeModel.HiddenName
