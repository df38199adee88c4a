import TypeModel.Proofs.Metadata
import TypeModel.Proofs.Traversal
import TypeModel.Proxy.Basic

/-!
# The two readers of a proxy marker

The arguments of a marker are read twice: by the index, which collects every name that they mention
and never fails, and by the record of the proxy, which fails at the first argument that does not
belong there. Where the strict reader succeeds, it finds the names that the other one collects, in
the same order (`targets_of_ofArguments`). The strict reader looks at the one distinct marker of a
type, so what it finds is what any of the type's markers mentions (`mem_targets_of_build`).
-/

namespace TypeModel.ProxyMarker

open Argument

theorem mentions_of_target? {a : Argument} {fullName : String} (h : target? a = some fullName) :
    a.mentions = [fullName] := by
  cases a with
  | str value => cases h; rfl
  | type sig =>
    cases sig with
    | named name args => cases h; rfl
    | param | byRef | pointer | array => cases h
  | int | bool | enum | array => cases h

/-- The strict inner grammar of an array finds the names that the array mentions. -/
theorem mentionedTypes_of_itemTargets {items : List Argument} {found : List String}
    (h : itemTargets items = .ok found) : mentionedTypes items = found := by
  induction items generalizing found with
  | nil => cases h; rfl
  | cons item rest ih =>
    rw [itemTargets] at h
    cases ht : target? item with
    | none => rw [ht] at h; cases h
    | some fullName =>
      rw [ht] at h
      cases hr : itemTargets rest with
      | error a => rw [hr] at h; cases h
      | ok names =>
        rw [hr] at h
        cases h
        rw [mentionedTypes, mentions_of_target? ht, ih hr]
        rfl

section Reading

variable {names : Vocabulary} {owner : String}

/-- An argument adds the names that it mentions to the targets read so far. -/
theorem targets_of_readArgument {r r' : Reading} {a : Argument}
    (h : readArgument names owner r a = .ok r') : r'.targets = r.targets ++ a.mentions := by
  cases a with
  | array items =>
    rw [readArgument] at h
    cases hi : itemTargets items with
    | error item => rw [hi] at h; cases h
    | ok found =>
      rw [hi] at h
      cases h
      rw [mentions, mentionedTypes_of_itemTargets hi]
  | enum enumType value =>
    have hnone : mentions (.enum enumType value) = [] := rfl
    rw [hnone, List.append_nil]
    rw [readArgument] at h
    split at h
    · split at h <;> cases h
      rfl
    · split at h
      · split at h <;> cases h
        rfl
      · cases h
  | str value => cases h; rfl
  | type sig =>
    cases sig with
    | named name args => cases h; rfl
    | param | byRef | pointer | array => cases h
  | int | bool => cases h

theorem targets_of_foldlM {r r' : Reading} {args : List Argument}
    (h : args.foldlM (readArgument names owner) r = .ok r') :
    r'.targets = r.targets ++ mentionedTypes args := by
  induction args generalizing r with
  | nil => cases h; exact (List.append_nil _).symm
  | cons a rest ih =>
    rw [List.foldlM_cons] at h
    obtain ⟨r₁, h₁, h⟩ := except_bind_eq_ok.1 h
    rw [ih h, targets_of_readArgument h₁, mentionedTypes, List.append_assoc]

/-- The targets that the strict reader finds are the names that the arguments mention. -/
theorem targets_of_ofArguments {args : List Argument} {marker : ProxyMarker}
    (h : ofArguments names owner args = .ok marker) : marker.targets = mentionedTypes args := by
  obtain ⟨r, hr, h⟩ := except_bind_eq_ok.1 h
  have htargets : marker.targets = r.targets := by
    unfold Reading.finish at h
    split at h
    · cases h
    · cases h; rfl
  rw [htargets, targets_of_foldlM hr]
  rfl

end Reading

/-- Arguments are read only if the annotation that has them is the only one of its kind. -/
theorem get_of_soleArgs {m : Metadata} {kind : String} {args : List Argument}
    (h : m.soleArgs kind = .ok (some args)) : ∃ a, m.get kind = [a] ∧ a.args = args := by
  unfold Metadata.soleArgs at h
  split at h
  · cases h
  · next a heq =>
    cases h
    exact ⟨a, heq, rfl⟩
  · cases h

end TypeModel.ProxyMarker

namespace TypeModel

/-- A type bears the marker, and one of its markers mentions the name. -/
def TypeDecl.MarksFor (t : TypeDecl) (names : Vocabulary) (fullName : String) : Prop :=
  ∃ a ∈ t.annotations, a.kind = names.proxy ∧ fullName ∈ Argument.mentionedTypes a.args

namespace Proxy

variable {store : Store} {names : Vocabulary} {id : TypeId} {p : Proxy}

/-- What the record of a proxy is made of. -/
theorem build_eq_ok (h : build store names id = .ok p) : ∃ t marker members,
    store.type? id = some t ∧
    ProxyMarker.ofMetadata names (.ofAnnotations t.fullName t.annotations) = .ok (some marker) ∧
    keyed? store t.offeredMembers = some members ∧
    p = ⟨id, t.fullName, marker, .ofAnnotations t.fullName t.annotations, members⟩ := by
  obtain ⟨t, ht, h⟩ := except_bind_eq_ok.1 h
  obtain ⟨marker?, hmarker, h⟩ := except_bind_eq_ok.1 h
  cases marker? with
  | none => cases h
  | some marker =>
    obtain ⟨members, hmembers, h⟩ := except_bind_eq_ok.1 h
    cases h
    exact ⟨t, marker, members, inRange_eq_ok.1 ht, judged_eq_ok.1 hmarker,
      inRange_eq_ok.1 hmembers, rfl⟩

theorem id_of_build (h : build store names id = .ok p) : p.id = id := by
  obtain ⟨t, marker, members, -, -, -, rfl⟩ := build_eq_ok h
  rfl

/-- The targets of a proxy are the names that the markers of its type mention. -/
theorem mem_targets_of_build {t : TypeDecl} (ht : store.type? id = some t)
    (h : build store names id = .ok p) (fullName : String) :
    fullName ∈ p.marker.targets ↔ t.MarksFor names fullName := by
  obtain ⟨t', marker, members, ht', hmarker, -, rfl⟩ := build_eq_ok h
  obtain rfl : t = t' := Option.some.inj (ht.symm.trans ht')
  obtain ⟨args?, hargs, hmarker⟩ := except_bind_eq_ok.1 hmarker
  cases args? with
  | none => cases hmarker
  | some args =>
    obtain ⟨marker', hread, hmarker⟩ := except_bind_eq_ok.1 hmarker
    cases hmarker
    obtain ⟨a, hget, rfl⟩ := ProxyMarker.get_of_soleArgs hargs
    -- Every marker of the type is the one that the strict reader looks at.
    have honly : ∀ b, b ∈ t.annotations ∧ b.kind = names.proxy ↔ b = a := by
      intro b
      rw [← Metadata.mem_get_ofAnnotations t.fullName, hget, List.mem_singleton]
    rw [ProxyMarker.targets_of_ofArguments hread]
    constructor
    · intro hmem
      obtain ⟨ha, hkind⟩ := (honly a).2 rfl
      exact ⟨a, ha, hkind, hmem⟩
    · rintro ⟨b, hb, hkind, hmem⟩
      rw [(honly b).1 ⟨hb, hkind⟩] at hmem
      exact hmem

end Proxy

end TypeModel
