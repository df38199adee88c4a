import Mathlib.Data.List.Perm.Basic
import TypeModel.Proofs.ProxyMarker
import TypeModel.Proofs.SoleAnnotation

/-!
# The grammar of a proxy marker

The arguments of a marker are a marker if each of them is a target, an array of targets or a policy
(`Admissible`), if neither policy is given twice and if some target is named (`Grammatical`).
Nothing of this depends on their order, and reading them from left to right accepts exactly these
arguments (`ofArguments_eq_ok_iff`): a slot for a policy is free as long as no argument before gave
one. What is recovered is what the arguments say wherever they stand (`recovered`).
-/

namespace TypeModel

open Argument (mentionedTypes mentionedTypes_eq_flatMap)

/-- The attribute policy that an argument gives, if it gives one. -/
def AttributePolicy.givenBy? (names : Vocabulary) : Argument → Option AttributePolicy
  | .enum enumType value =>
    if enumType = names.attributePolicyEnum then AttributePolicy.ofValue? value else none
  | _ => none

/-- The member policy that an argument gives, if it gives one. A value of an enum type that serves
for both policies is an attribute policy. -/
def MemberPolicy.givenBy? (names : Vocabulary) : Argument → Option MemberPolicy
  | .enum enumType value =>
    if enumType ≠ names.attributePolicyEnum ∧ enumType = names.memberPolicyEnum then
      MemberPolicy.ofValue? value
    else none
  | _ => none

namespace ProxyMarker

/-! ## Admissible arguments -/

/-- A named type, or its full name as a string. -/
inductive IsTarget : Argument → Prop where
  | type (fullName : String) (args : List Signature) : IsTarget (.type (.named fullName args))
  | str (fullName : String) : IsTarget (.str fullName)

/-- An argument that may occur in a proxy annotation. -/
inductive Admissible (names : Vocabulary) : Argument → Prop where
  | target {a : Argument} (h : IsTarget a) : Admissible names a
  | array {items : List Argument} (h : ∀ item ∈ items, IsTarget item) :
      Admissible names (.array items)
  | attributePolicy {value : Int64} (h : value = 0 ∨ value = 1) :
      Admissible names (.enum names.attributePolicyEnum value)
  | memberPolicy {value : Int64} (other : names.memberPolicyEnum ≠ names.attributePolicyEnum)
      (h : value = 0 ∨ value = 1 ∨ value = 2) :
      Admissible names (.enum names.memberPolicyEnum value)

/-- Arguments that amount to a proxy marker. -/
structure Grammatical (names : Vocabulary) (args : List Argument) : Prop where
  admissible : ∀ a ∈ args, Admissible names a
  oneAttributePolicy : (args.filterMap (AttributePolicy.givenBy? names)).length ≤ 1
  oneMemberPolicy : (args.filterMap (MemberPolicy.givenBy? names)).length ≤ 1
  target : mentionedTypes args ≠ []

/-- The marker that arguments amount to: the targets in their order, and each policy as it is given
or else its default. -/
def recovered (names : Vocabulary) (args : List Argument) : ProxyMarker where
  targets := mentionedTypes args
  attributePolicy := (args.filterMap (AttributePolicy.givenBy? names)).head?.getD .merge
  memberPolicy := (args.filterMap (MemberPolicy.givenBy? names)).head?.getD .replaceMatching

/-- An argument names a target if it is a string or a type with a name. -/
theorem exists_target?_iff {a : Argument} :
    (∃ fullName, target? a = some fullName) ↔ IsTarget a := by
  constructor
  · rintro ⟨fullName, h⟩
    cases a with
    | type sig =>
      cases sig with
      | named name args => exact .type name args
      | param | byRef | pointer | array => cases h
    | str value => exact .str value
    | int | bool | enum | array => cases h
  · rintro (⟨name, args⟩ | name)
    · exact ⟨name, rfl⟩
    · exact ⟨name, rfl⟩

/-- All targets of an array are found exactly if each of its items is one. -/
theorem exists_itemTargets_iff {items : List Argument} :
    (∃ found, itemTargets items = .ok found) ↔ ∀ item ∈ items, IsTarget item := by
  induction items with
  | nil => exact ⟨fun _ => nofun, fun _ => ⟨[], rfl⟩⟩
  | cons item rest ih =>
    rw [List.forall_mem_cons, ← ih, ← exists_target?_iff, itemTargets]
    cases target? item with
    | none => simp
    | some fullName =>
      cases itemTargets rest with
      | error fault => simp [Except.map]
      | ok found => simp [Except.map]

theorem attributePolicy_ofValue?_iff {value : Int64} :
    (∃ policy, AttributePolicy.ofValue? value = some policy) ↔ value = 0 ∨ value = 1 := by
  unfold AttributePolicy.ofValue?
  split <;> simp_all

theorem memberPolicy_ofValue?_iff {value : Int64} :
    (∃ policy, MemberPolicy.ofValue? value = some policy) ↔
      value = 0 ∨ value = 1 ∨ value = 2 := by
  unfold MemberPolicy.ofValue?
  repeat' split
  all_goals simp_all

/-! ## Reading one argument -/

/-- What is read once an argument is read as well. -/
def Reading.gain (names : Vocabulary) (r : Reading) (a : Argument) : Reading where
  targets := r.targets ++ a.mentions
  attributePolicy := r.attributePolicy.or (AttributePolicy.givenBy? names a)
  memberPolicy := r.memberPolicy.or (MemberPolicy.givenBy? names a)

/-- The argument gives no policy that was given before. -/
def Reading.Free (names : Vocabulary) (r : Reading) (a : Argument) : Prop :=
  (r.attributePolicy = none ∨ AttributePolicy.givenBy? names a = none) ∧
    (r.memberPolicy = none ∨ MemberPolicy.givenBy? names a = none)

variable {names : Vocabulary} {owner : String}

/-- A value of the enum of attribute policies gives one, also if both policies go by one enum. -/
theorem givenBy?_attributePolicyEnum (names : Vocabulary) (value : Int64) :
    AttributePolicy.givenBy? names (.enum names.attributePolicyEnum value) =
      AttributePolicy.ofValue? value ∧
    MemberPolicy.givenBy? names (.enum names.attributePolicyEnum value) = none := by
  simp [AttributePolicy.givenBy?, MemberPolicy.givenBy?]

theorem givenBy?_memberPolicyEnum (other : names.memberPolicyEnum ≠ names.attributePolicyEnum)
    (value : Int64) :
    AttributePolicy.givenBy? names (.enum names.memberPolicyEnum value) = none ∧
    MemberPolicy.givenBy? names (.enum names.memberPolicyEnum value) =
      MemberPolicy.ofValue? value := by
  simp [AttributePolicy.givenBy?, MemberPolicy.givenBy?, other]

/-- An admissible argument is read if the slot for its policy is free. -/
theorem readArgument_of_admissible {r : Reading} {a : Argument} (h : Admissible names a)
    (hfree : r.Free names a) : readArgument names owner r a = .ok (r.gain names a) := by
  cases h with
  | target h =>
    cases h <;>
      simp [readArgument, target?, Reading.gain, Argument.mentions, AttributePolicy.givenBy?,
        MemberPolicy.givenBy?]
  | array h =>
    obtain ⟨found, hfound⟩ := exists_itemTargets_iff.2 h
    simp [readArgument, hfound, Reading.gain, Argument.mentions,
      mentionedTypes_of_itemTargets hfound, AttributePolicy.givenBy?, MemberPolicy.givenBy?]
  | @attributePolicy value h =>
    obtain ⟨policy, hpolicy⟩ := attributePolicy_ofValue?_iff.2 h
    obtain ⟨hgiven, hother⟩ := givenBy?_attributePolicyEnum names value
    have hslot : r.attributePolicy = none := by simpa [hgiven, hpolicy] using hfree.1
    simp [readArgument, Reading.gain, Argument.mentions, hgiven, hother, hpolicy, hslot]
  | @memberPolicy value other h =>
    obtain ⟨policy, hpolicy⟩ := memberPolicy_ofValue?_iff.2 h
    obtain ⟨hother, hgiven⟩ := givenBy?_memberPolicyEnum other value
    have hslot : r.memberPolicy = none := by simpa [hgiven, hpolicy] using hfree.2
    simp [readArgument, Reading.gain, Argument.mentions, other, hgiven, hother, hpolicy, hslot]

/-- An argument that is read is admissible, and the slot for its policy was free. -/
theorem admissible_of_readArgument {r r' : Reading} {a : Argument}
    (h : readArgument names owner r a = .ok r') : Admissible names a ∧ r.Free names a := by
  cases a with
  | str value => exact ⟨.target (.str value), .inr rfl, .inr rfl⟩
  | type sig =>
    cases sig with
    | named name args => exact ⟨.target (.type name args), .inr rfl, .inr rfl⟩
    | param | byRef | pointer | array => cases h
  | int | bool => cases h
  | array items =>
    rw [readArgument] at h
    cases hitems : itemTargets items with
    | error item => rw [hitems] at h; cases h
    | ok found => exact ⟨.array (exists_itemTargets_iff.1 ⟨found, hitems⟩), .inr rfl, .inr rfl⟩
  | enum enumType value =>
    rw [readArgument] at h
    split at h
    · next henum =>
      subst henum
      split at h
      · cases h
      · cases h
      · next policy hpolicy hslot =>
        exact ⟨.attributePolicy (attributePolicy_ofValue?_iff.1 ⟨policy, hpolicy⟩), .inl hslot,
          .inr (givenBy?_attributePolicyEnum names value).2⟩
    · next other =>
      split at h
      · next henum =>
        subst henum
        split at h
        · cases h
        · cases h
        · next policy hpolicy hslot =>
          exact ⟨.memberPolicy other (memberPolicy_ofValue?_iff.1 ⟨policy, hpolicy⟩),
            .inr (givenBy?_memberPolicyEnum other value).1, .inl hslot⟩
      · cases h

/-- An argument is read exactly if it is admissible and its policy is not taken yet. -/
theorem readArgument_eq_ok_iff {r r' : Reading} {a : Argument} :
    readArgument names owner r a = .ok r' ↔
      Admissible names a ∧ r.Free names a ∧ r' = r.gain names a := by
  constructor
  · intro h
    obtain ⟨hadmissible, hfree⟩ := admissible_of_readArgument h
    rw [readArgument_of_admissible hadmissible hfree] at h
    exact ⟨hadmissible, hfree, (Except.ok.inj h).symm⟩
  · rintro ⟨hadmissible, hfree, rfl⟩
    exact readArgument_of_admissible hadmissible hfree

/-! ## Reading all arguments -/

/-- Of a slot and what the arguments give for it, only one may be there: either the slot is filled
by the first argument or by one of the rest. -/
theorem length_slot_le_one_iff {α : Type} (slot given : Option α) (rest : List α) :
    (slot.toList ++ (given.toList ++ rest)).length ≤ 1 ↔
      (slot = none ∨ given = none) ∧ ((slot.or given).toList ++ rest).length ≤ 1 := by
  cases slot <;> cases given <;> simp

theorem filterMap_cons_eq {α β : Type} (f : α → Option β) (a : α) (rest : List α) :
    (a :: rest).filterMap f = (f a).toList ++ rest.filterMap f := by
  rw [List.filterMap_eq_flatMap_toList, List.filterMap_eq_flatMap_toList, List.flatMap_cons]

/-- Whatever was read before, neither policy is given twice from there on. -/
def Reading.Room (names : Vocabulary) (r : Reading) (args : List Argument) : Prop :=
  (r.attributePolicy.toList ++ args.filterMap (AttributePolicy.givenBy? names)).length ≤ 1 ∧
    (r.memberPolicy.toList ++ args.filterMap (MemberPolicy.givenBy? names)).length ≤ 1

/-- There is room for all arguments if there is for the first, and after it for the rest. -/
theorem Reading.room_cons_iff {r : Reading} {a : Argument} {rest : List Argument} :
    r.Room names (a :: rest) ↔ r.Free names a ∧ (r.gain names a).Room names rest := by
  simp only [Room, Free, gain, filterMap_cons_eq, length_slot_le_one_iff, and_and_and_comm]

theorem Reading.room_nil (r : Reading) : r.Room names [] := by
  unfold Room
  constructor
  · cases r.attributePolicy <;> simp
  · cases r.memberPolicy <;> simp

/-- Reading arguments from left to right succeeds exactly if each is admissible and no policy is
given twice. -/
theorem foldlM_readArgument_eq_ok_iff {r r' : Reading} {args : List Argument} :
    args.foldlM (readArgument names owner) r = .ok r' ↔
      (∀ a ∈ args, Admissible names a) ∧ r.Room names args ∧
        r' = args.foldl (Reading.gain names) r := by
  induction args generalizing r with
  | nil =>
    constructor
    · intro h
      exact ⟨nofun, r.room_nil, (Except.ok.inj h).symm⟩
    · rintro ⟨-, -, rfl⟩
      rfl
  | cons a rest ih =>
    rw [List.foldlM_cons, except_bind_eq_ok, List.forall_mem_cons, Reading.room_cons_iff]
    simp only [readArgument_eq_ok_iff]
    constructor
    · rintro ⟨_, ⟨hadmissible, hfree, rfl⟩, h⟩
      obtain ⟨hrest, hroom, hr'⟩ := ih.1 h
      exact ⟨⟨hadmissible, hrest⟩, ⟨hfree, hroom⟩, hr'⟩
    · rintro ⟨⟨hadmissible, hrest⟩, ⟨hfree, hroom⟩, hr'⟩
      exact ⟨_, ⟨hadmissible, hfree, rfl⟩, ih.2 ⟨hrest, hroom, hr'⟩⟩

/-- What was read in the end: the targets in their order, and each policy as it was given first. -/
theorem foldl_gain (r : Reading) (args : List Argument) :
    args.foldl (Reading.gain names) r = {
      targets := r.targets ++ mentionedTypes args
      attributePolicy :=
        (r.attributePolicy.toList ++ args.filterMap (AttributePolicy.givenBy? names)).head?
      memberPolicy :=
        (r.memberPolicy.toList ++ args.filterMap (MemberPolicy.givenBy? names)).head? } := by
  have hslot : ∀ {α : Type} (slot given : Option α) (rest : List α),
      ((slot.or given).toList ++ rest).head? = (slot.toList ++ (given.toList ++ rest)).head? := by
    intro α slot given rest
    cases slot <;> cases given <;> simp
  induction args generalizing r with
  | nil =>
    obtain ⟨targets, attributePolicy, memberPolicy⟩ := r
    cases attributePolicy <;> cases memberPolicy <;> simp [mentionedTypes]
  | cons a rest ih =>
    rw [List.foldl_cons, ih]
    simp only [Reading.gain, hslot, filterMap_cons_eq, mentionedTypes, List.append_assoc]

/-- Arguments are a marker exactly if they are grammatical, and the marker is then what they
amount to. -/
theorem ofArguments_eq_ok_iff {args : List Argument} {marker : ProxyMarker} :
    ofArguments names owner args = .ok marker ↔
      Grammatical names args ∧ marker = recovered names args := by
  have hread : args.foldl (Reading.gain names) {} = {
      targets := mentionedTypes args
      attributePolicy := (args.filterMap (AttributePolicy.givenBy? names)).head?
      memberPolicy := (args.filterMap (MemberPolicy.givenBy? names)).head? } := by
    rw [foldl_gain]
    simp
  rw [ofArguments, except_bind_eq_ok]
  simp only [foldlM_readArgument_eq_ok_iff, hread]
  constructor
  · rintro ⟨_, ⟨hadmissible, ⟨hattribute, hmember⟩, rfl⟩, h⟩
    unfold Reading.finish at h
    split at h
    · cases h
    · next htarget =>
      cases h
      refine ⟨⟨hadmissible, hattribute, hmember, ?_⟩, rfl⟩
      simpa using htarget
  · rintro ⟨h, rfl⟩
    refine ⟨_, ⟨h.admissible, ⟨h.oneAttributePolicy, h.oneMemberPolicy⟩, rfl⟩, ?_⟩
    simp [Reading.finish, h.target, recovered]

/-! ## The order of the arguments -/

theorem perm_eq_of_length_le_one {α : Type} {xs ys : List α} (h : xs.Perm ys)
    (hlength : ys.length ≤ 1) : xs = ys := by
  match ys, hlength with
  | [], _ => exact List.perm_nil.1 h
  | [y], _ => exact List.perm_singleton.1 h

theorem perm_mentionedTypes {args args' : List Argument} (h : args'.Perm args) :
    (mentionedTypes args').Perm (mentionedTypes args) := by
  rw [mentionedTypes_eq_flatMap, mentionedTypes_eq_flatMap]
  exact h.flatMap_right _

/-- The grammar does not depend on the order of arguments. -/
theorem Grammatical.perm {args args' : List Argument} (h : Grammatical names args)
    (hperm : args'.Perm args) : Grammatical names args' where
  admissible a ha := h.admissible a (hperm.mem_iff.1 ha)
  oneAttributePolicy := (hperm.filterMap _).length_eq ▸ h.oneAttributePolicy
  oneMemberPolicy := (hperm.filterMap _).length_eq ▸ h.oneMemberPolicy
  target hnone := h.target (List.perm_nil.1 (hnone ▸ (perm_mentionedTypes hperm).symm))

/-- In another order, grammatical arguments give the same policies. -/
theorem Grammatical.policies_perm {args args' : List Argument} (h : Grammatical names args)
    (hperm : args'.Perm args) :
    (recovered names args').attributePolicy = (recovered names args).attributePolicy ∧
      (recovered names args').memberPolicy = (recovered names args).memberPolicy := by
  have hattribute := perm_eq_of_length_le_one
    (hperm.filterMap (AttributePolicy.givenBy? names)) h.oneAttributePolicy
  have hmember := perm_eq_of_length_le_one
    (hperm.filterMap (MemberPolicy.givenBy? names)) h.oneMemberPolicy
  simp only [recovered, hattribute, hmember, and_self]

/-! ## Metadata -/

theorem ofMetadata_of_absent {m : Metadata} (h : m.Absent names.proxy) :
    ofMetadata names m = .ok none := by
  rw [ofMetadata, h.soleArgs]
  rfl

/-- Two distinct annotations are refused, and their number is told. -/
theorem ofMetadata_of_several {m : Metadata} (h : m.Several names.proxy) :
    ofMetadata names m =
      .error (.configuration m.owner (.repeated names.proxy (m.get names.proxy).length)) := by
  rw [ofMetadata, h.soleArgs]
  rfl

/-- With one distinct proxy annotation its arguments decide. -/
theorem ofMetadata_eq_ok_iff_of_sole {m : Metadata} (hm : m.Collected) {a : Annotation}
    (h : m.Sole names.proxy a) {marker? : Option ProxyMarker} :
    ofMetadata names m = .ok marker? ↔
      Grammatical names a.args ∧ marker? = some (recovered names a.args) := by
  have hread : ofMetadata names m = (ofArguments names m.owner a.args).map some := by
    rw [ofMetadata, h.soleArgs hm]
    rfl
  rw [hread, except_map_eq_ok]
  constructor
  · rintro ⟨marker, hmarker, rfl⟩
    obtain ⟨hgrammatical, rfl⟩ := ofArguments_eq_ok_iff.1 hmarker
    exact ⟨hgrammatical, rfl⟩
  · rintro ⟨hgrammatical, rfl⟩
    exact ⟨_, ofArguments_eq_ok_iff.2 ⟨hgrammatical, rfl⟩, rfl⟩

/-- Arguments that break the grammar are refused. -/
theorem ofMetadata_of_not_grammatical {m : Metadata} (hm : m.Collected) {a : Annotation}
    (h : m.Sole names.proxy a) (hnot : ¬Grammatical names a.args) :
    ∃ e, ofMetadata names m = .error e := by
  cases hread : ofMetadata names m with
  | error e => exact ⟨e, rfl⟩
  | ok marker? => exact absurd ((ofMetadata_eq_ok_iff_of_sole hm h).1 hread).1 hnot

/-- Metadata without proxy annotation has no marker, metadata with several distinct ones is an error
of its owner. Metadata with one is never without marker: it has one exactly if the arguments are
grammatical, in whatever order they stand, and otherwise it is an error. The targets are the names
that the arguments mention, in their order; the policies are those given or else the defaults, which
the order does not change. -/
theorem grammar_is_accepted_in_any_order {m : Metadata} (hm : m.Collected) :
    (m.Absent names.proxy → ofMetadata names m = .ok none) ∧
    (m.Several names.proxy → ofMetadata names m =
      .error (.configuration m.owner (.repeated names.proxy (m.get names.proxy).length))) ∧
    ∀ a, m.Sole names.proxy a →
      ((∃ marker?, ofMetadata names m = .ok marker?) ↔ Grammatical names a.args) ∧
      (∀ marker?, ofMetadata names m = .ok marker? → marker? = some {
        targets := mentionedTypes a.args
        attributePolicy := (a.args.filterMap (AttributePolicy.givenBy? names)).head?.getD .merge
        memberPolicy :=
          (a.args.filterMap (MemberPolicy.givenBy? names)).head?.getD .replaceMatching }) ∧
      ∀ m' a', m'.Collected → m'.Sole names.proxy a' → a'.args.Perm a.args →
        (∃ marker marker', ofMetadata names m = .ok (some marker) ∧
          ofMetadata names m' = .ok (some marker') ∧
          marker'.attributePolicy = marker.attributePolicy ∧
          marker'.memberPolicy = marker.memberPolicy ∧ marker'.targets.Perm marker.targets) ∨
        ∃ e e', ofMetadata names m = .error e ∧ ofMetadata names m' = .error e' := by
  refine ⟨ofMetadata_of_absent, ofMetadata_of_several, fun a ha => ⟨⟨?_, ?_⟩, ?_, ?_⟩⟩
  · rintro ⟨marker?, hread⟩
    exact ((ofMetadata_eq_ok_iff_of_sole hm ha).1 hread).1
  · intro hgrammatical
    exact ⟨_, (ofMetadata_eq_ok_iff_of_sole hm ha).2 ⟨hgrammatical, rfl⟩⟩
  · intro marker? hread
    exact ((ofMetadata_eq_ok_iff_of_sole hm ha).1 hread).2
  · intro m' a' hm' ha' hperm
    by_cases hgrammatical : Grammatical names a.args
    · obtain ⟨hattribute, hmember⟩ := hgrammatical.policies_perm hperm
      exact .inl ⟨recovered names a.args, recovered names a'.args,
        (ofMetadata_eq_ok_iff_of_sole hm ha).2 ⟨hgrammatical, rfl⟩,
        (ofMetadata_eq_ok_iff_of_sole hm' ha').2 ⟨hgrammatical.perm hperm, rfl⟩,
        hattribute, hmember, perm_mentionedTypes hperm⟩
    · obtain ⟨e, he⟩ := ofMetadata_of_not_grammatical hm ha hgrammatical
      obtain ⟨e', he'⟩ := ofMetadata_of_not_grammatical hm' ha' fun h =>
        hgrammatical (h.perm hperm.symm)
      exact .inr ⟨e, e', he, he'⟩

/-- A marker whose policy stands before its target means what it means the other way round; without
annotations there is no marker, and with both annotations there is an error. -/
theorem policy_before_target :
    let targetFirst : Annotation :=
      ⟨"Xlate.Meta.ProxyAttribute", [.str "App.Clock", .enum "Xlate.Meta.ProxyAttributePolicy" 1]⟩
    let policyFirst : Annotation :=
      ⟨"Xlate.Meta.ProxyAttribute", [.enum "Xlate.Meta.ProxyAttributePolicy" 1, .str "App.Clock"]⟩
    let m := Metadata.ofAnnotations "App.Proxy" [targetFirst]
    let m' := Metadata.ofAnnotations "App.Proxy" [policyFirst]
    (∃ marker?, ofMetadata {} m = .ok marker?) ∧
      ((∃ marker marker', ofMetadata {} m = .ok (some marker) ∧
          ofMetadata {} m' = .ok (some marker') ∧
          marker'.attributePolicy = marker.attributePolicy ∧
          marker'.memberPolicy = marker.memberPolicy ∧ marker'.targets.Perm marker.targets) ∨
        ∃ e e', ofMetadata {} m = .error e ∧ ofMetadata {} m' = .error e') ∧
      ofMetadata {} (.ofAnnotations "App.Proxy" []) = .ok none ∧
      ofMetadata {} (.ofAnnotations "App.Proxy" [targetFirst, policyFirst]) =
        .error (.configuration "App.Proxy" (.repeated "Xlate.Meta.ProxyAttribute" 2)) := by
  intro targetFirst policyFirst m m'
  have hm := @grammar_is_accepted_in_any_order {} m (.ofAnnotations _ _)
  have hgrammatical : Grammatical {} targetFirst.args := ⟨by
    intro a ha
    rcases List.mem_cons.1 ha with rfl | ha
    · exact .target (.str "App.Clock")
    · rw [List.mem_singleton.1 ha]
      exact .attributePolicy (.inr rfl), by decide, by decide, by decide⟩
  have hsole := Metadata.sole_ofAnnotations_singleton "App.Proxy" targetFirst
  have hsole' := Metadata.sole_ofAnnotations_singleton "App.Proxy" policyFirst
  refine ⟨(hm.2.2 _ hsole).1.2 hgrammatical,
    (hm.2.2 _ hsole).2.2 m' policyFirst (.ofAnnotations _ _) hsole' (List.Perm.swap _ _ _), ?_, ?_⟩
  · exact (grammar_is_accepted_in_any_order (.ofAnnotations "App.Proxy" [])).1
      fun _ => List.not_mem_nil
  · refine (grammar_is_accepted_in_any_order
      (.ofAnnotations "App.Proxy" [targetFirst, policyFirst])).2.1 ?_
    refine ⟨targetFirst, ?_, policyFirst, ?_, by decide⟩
    · exact (Metadata.mem_get_ofAnnotations _).2 ⟨by simp, rfl⟩
    · exact (Metadata.mem_get_ofAnnotations _).2 ⟨by simp, rfl⟩

end ProxyMarker

end TypeModel
