import TypeModel.Proofs.Coverage
import TypeModel.Proofs.IgnoreCascade
import TypeModel.Proofs.InRange
import TypeModel.Proofs.SoleAnnotation

/-!
# Why a type has no record

In a store where every handle leads somewhere, only annotations can keep a type from having a
record, and they are looked at in a fixed order: first those that make proxies of the types that
bear them, then the rename annotation of the type itself, with what its proxies lend to it, then
those of its members, with what backs them, in the order of the roster. The first fault is the
answer, and it is a fault of the declaration that it names
(`Catalog.type_is_refused_for_the_first_fault`).
-/

namespace TypeModel

/-! ## Visible names -/

namespace Vocabulary

variable {names : Vocabulary} {m : Metadata}

/-- Metadata without a broken rename gives every name and index a visible name. -/
theorem visibleName_isOk (hm : m.Collected) (h : ¬m.Broken names.rename) (declared : String)
    (index : Option Nat) : ∃ visible, names.visibleName m declared index = .ok visible := by
  obtain ⟨renamed, hrenamed⟩ := hm.soleString_isOk h
  exact Vocabulary.exists_visibleName hrenamed declared index

/-- A broken rename is reported with the owner of the metadata. -/
theorem visibleName_of_broken (hm : m.Collected) (h : m.Broken names.rename) (declared : String)
    (index : Option Nat) :
    ∃ conflict, names.visibleName m declared index = .error (.configuration m.owner conflict) := by
  obtain ⟨conflict, hconflict⟩ := hm.soleString_of_broken h
  exact ⟨conflict, except_bind_eq_error.2 (.inl hconflict)⟩

end Vocabulary

/-! ## Metadata of types and members -/

section Collected

variable {store : Store} {names : Vocabulary} {proxies : List Proxy}

theorem Proxy.collected_of_build {id : TypeId} {p : Proxy} (h : build store names id = .ok p) :
    p.metadata.Collected := by
  obtain ⟨t, marker, members, -, -, -, rfl⟩ := build_eq_ok h
  exact .ofAnnotations _ _

/-- Metadata merged with that of proxies is still that of the type. -/
theorem TypeRecord.collected_mergedMetadata (t : TypeDecl)
    (h : ∀ p ∈ proxies, p.metadata.Collected) :
    (mergedMetadata t proxies).Collected ∧ (mergedMetadata t proxies).owner = t.fullName := by
  induction proxies using List.reverseRecOn with
  | nil => exact ⟨.ofAnnotations _ _, Metadata.owner_ofAnnotations _ _⟩
  | append_singleton proxies p ih =>
    obtain ⟨hcollected, howner⟩ := ih fun q hq => h q (List.mem_append_left _ hq)
    rw [mergedMetadata_append, Metadata.owner_update]
    exact ⟨hcollected.update (h p (List.mem_append_right _ List.mem_cons_self)) _, howner⟩

theorem collected_metadata? {m : MemberId} {metadata : Metadata}
    (h : store.metadata? (.member m) = some metadata) :
    metadata.Collected ∧ store.qualifiedMemberName? m = some metadata.owner := by
  obtain ⟨d, -, h⟩ := Option.bind_eq_some_iff.1 h
  obtain ⟨owner, howner, h⟩ := Option.bind_eq_some_iff.1 h
  cases h
  rw [Metadata.owner_ofAnnotations]
  exact ⟨.ofAnnotations _ _, howner⟩

/-- Metadata merged with that of what backs a member is still that of the member. -/
theorem collected_backedMetadata? {m backing : MemberId} {metadata : Metadata}
    (h : backedMetadata? store m backing = some metadata) :
    metadata.Collected ∧ store.qualifiedMemberName? m = some metadata.owner := by
  obtain ⟨own, hown, h⟩ := Option.bind_eq_some_iff.1 h
  obtain ⟨hcollected, howner⟩ := collected_metadata? hown
  split at h
  · cases h
    exact ⟨hcollected, howner⟩
  · obtain ⟨lent, hlent, h⟩ := Option.bind_eq_some_iff.1 h
    cases h
    rw [Metadata.owner_update]
    exact ⟨hcollected.update (collected_metadata? hlent).1 _, howner⟩

end Collected

/-! ## Slots whose rename annotations are at fault -/

/-- The rename annotations of the member in a slot, together with those of what backs it, are
several distinct ones or lack a string. -/
def Slot.RenameBroken (store : Store) (names : Vocabulary) (proxies : List Proxy) (slot : Slot) :
    Prop :=
  ∃ backing metadata, backing? store proxies slot.origin slot.member = some backing ∧
    backedMetadata? store slot.member backing = some metadata ∧ metadata.Broken names.rename

section Slots

variable {store : Store} {names : Vocabulary} {proxies : List Proxy} {slot : Slot}
  {draft : MemberDraft}

theorem renameBroken_iff_of_draft
    (h : MemberDraft.ofSlot? store names proxies slot = some draft) :
    slot.RenameBroken store names proxies ↔ draft.core.metadata.Broken names.rename := by
  obtain ⟨-, -, -, -, -, hcore, -, -⟩ := MemberDraft.ofSlot?_eq_some h
  obtain ⟨-, -, hbacking, hmetadata, -, -, -⟩ := MemberCore.ofMember?_eq_some hcore
  constructor
  · rintro ⟨backing, metadata, hbacking', hmetadata', hbroken⟩
    obtain rfl : draft.core.backing = backing := Option.some.inj (hbacking.symm.trans hbacking')
    obtain rfl : draft.core.metadata = metadata :=
      Option.some.inj (hmetadata.symm.trans hmetadata')
    exact hbroken
  · exact fun hbroken => ⟨_, _, hbacking, hmetadata, hbroken⟩

variable {id : TypeId} {typeIgnored : Bool} {overloads : Overloads}

/-- A slot without such a fault becomes a member. -/
theorem TypeRecord.finishMember_isOk
    (hdraft : MemberDraft.ofSlot? store names proxies slot = some draft)
    (h : ¬slot.RenameBroken store names proxies) :
    ∃ m, finishMember names id typeIgnored overloads draft = .ok m := by
  obtain ⟨-, -, -, -, -, hcore, -, -⟩ := MemberDraft.ofSlot?_eq_some hdraft
  obtain ⟨-, -, -, hmetadata, -, -, -⟩ := MemberCore.ofMember?_eq_some hcore
  obtain ⟨visible, hvisible⟩ := names.visibleName_isOk (collected_backedMetadata? hmetadata).1
    (mt (renameBroken_iff_of_draft hdraft).2 h) draft.core.name (overloads.index? draft.member)
  exact ⟨_, except_bind_eq_ok.2 ⟨visible, hvisible, rfl⟩⟩

/-- A slot with such a fault is an error of the member in it. -/
theorem TypeRecord.finishMember_of_renameBroken
    (hdraft : MemberDraft.ofSlot? store names proxies slot = some draft)
    (h : slot.RenameBroken store names proxies) :
    ∃ owner conflict, store.qualifiedMemberName? slot.member = some owner ∧
      finishMember names id typeIgnored overloads draft =
        .error (.configuration owner conflict) := by
  obtain ⟨-, -, -, -, -, hcore, -, -⟩ := MemberDraft.ofSlot?_eq_some hdraft
  obtain ⟨-, -, -, hmetadata, -, -, -⟩ := MemberCore.ofMember?_eq_some hcore
  obtain ⟨hcollected, howner⟩ := collected_backedMetadata? hmetadata
  obtain ⟨conflict, hconflict⟩ := names.visibleName_of_broken hcollected
    ((renameBroken_iff_of_draft hdraft).1 h) draft.core.name (overloads.index? draft.member)
  exact ⟨_, conflict, howner, except_bind_eq_error.2 (.inl hconflict)⟩

end Slots

/-! ## Traversing the values of a map -/

theorem except_mapM_cons_eq_error {ε α β : Type} {f : α → Except ε β} {x : α} {xs : List α}
    {e : ε} :
    (x :: xs).mapM f = .error e ↔
      f x = .error e ∨ (∃ y, f x = .ok y) ∧ xs.mapM f = .error e := by
  rw [List.mapM_cons]
  cases f x with
  | error e' => simp [bind, Except.bind]
  | ok y => cases xs.mapM f <;> simp [bind, Except.bind, pure, Except.pure]

namespace IdentifierMap

variable {α β ε : Type} {m : IdentifierMap α} {f : α → Except ε β}

/-- A traversal of a map fails as one of its values does. -/
theorem mapM_eq_error_iff {e : ε} :
    m.mapM (fun _ value => f value) = .error e ↔ m.values.mapM f = .error e := by
  have hentries : ∀ entries : List (Identifier × α),
      (entries.mapM fun entry => do return (entry.1, ← f entry.2)) = .error e ↔
        (entries.map Prod.snd).mapM f = .error e := by
    intro entries
    induction entries with
    | nil => exact ⟨nofun, nofun⟩
    | cons entry rest ih =>
      rw [List.map_cons, except_mapM_cons_eq_error, except_mapM_cons_eq_error, ih]
      cases f entry.2 <;> simp
  unfold values
  rw [← hentries]
  refine except_bind_eq_error.trans (or_iff_left ?_)
  rintro ⟨entries, -, h⟩
  cases h

/-- A traversal of a map has a result if no value fails. -/
theorem exists_mapM_of_forall (h : ∀ value ∈ m.values, ∃ b, f value = .ok b) :
    ∃ m' : IdentifierMap β, m.mapM (fun _ value => f value) = .ok m' := by
  cases hm : m.mapM (fun _ value => f value) with
  | ok m' => exact ⟨m', rfl⟩
  | error e =>
    obtain ⟨bs, hbs⟩ := except_mapM_isOk_iff.2 h
    rw [mapM_eq_error_iff, hbs] at hm
    cases hm

theorem Replaces.values {m' : IdentifierMap β} {R : α → β → Prop} (h : Replaces R m m') :
    List.Forall₂ R m.values m'.values := by
  unfold IdentifierMap.values
  rw [List.forall₂_map_left_iff, List.forall₂_map_right_iff]
  exact h.entries.imp fun _ _ he => he.2

end IdentifierMap

/-! ## Finishing a record -/

namespace TypeRecord

section Finish

variable {store : Store} {names : Vocabulary} {proxies : List Proxy} {id : TypeId} {t : TypeDecl}
  {roster : Roster} {drafts : IdentifierMap MemberDraft} {typeIgnored moduleIgnored : Bool}
  {overloads : Overloads} {outline : Outline}

theorem members_of_sound_roster
    (hdrafts : roster.Replaces
      (fun slot draft => MemberDraft.ofSlot? store names proxies slot = some draft) drafts)
    (h : ∀ slot ∈ roster.values, ¬slot.RenameBroken store names proxies) :
    ∃ members : IdentifierMap Member,
      drafts.mapM (fun _ draft => finishMember names id typeIgnored overloads draft) =
        .ok members := by
  refine IdentifierMap.exists_mapM_of_forall fun draft hdraft => ?_
  obtain ⟨slot, hslot, hof⟩ := exists_of_mem_right hdrafts.values hdraft
  exact finishMember_isOk hof (h slot hslot)

/-- The first slot with a fault decides, whatever comes after it. -/
theorem members_of_first_fault
    (hdrafts : roster.Replaces
      (fun slot draft => MemberDraft.ofSlot? store names proxies slot = some draft) drafts)
    {front rest : List Slot} {slot : Slot} (hvalues : roster.values = front ++ slot :: rest)
    (hfront : ∀ s ∈ front, ¬s.RenameBroken store names proxies)
    (hslot : slot.RenameBroken store names proxies) :
    ∃ owner conflict, store.qualifiedMemberName? slot.member = some owner ∧
      drafts.mapM (fun _ draft => finishMember names id typeIgnored overloads draft) =
        .error (.configuration owner conflict) := by
  have hall := hdrafts.values
  rw [hvalues] at hall
  obtain ⟨frontDrafts, others, heq, hbefore, hothers⟩ := split_of_forall₂_append hall
  obtain ⟨draft, after, hdraft, -, rfl⟩ := List.forall₂_cons_left_iff.1 hothers
  obtain ⟨owner, conflict, howner, hfault⟩ := finishMember_of_renameBroken hdraft hslot
  refine ⟨owner, conflict, howner, ?_⟩
  rw [IdentifierMap.mapM_eq_error_iff, heq, except_mapM_eq_error]
  refine ⟨frontDrafts, draft, after, rfl, fun d hd => ?_, hfault⟩
  obtain ⟨s, hs, hof⟩ := exists_of_mem_right hbefore hd
  exact finishMember_isOk hof (hfront s hs)

/-- A broken rename of the type itself refuses the type. -/
theorem finish_of_broken (hproxies : ∀ p ∈ proxies, p.metadata.Collected)
    (h : (mergedMetadata t proxies).Broken names.rename) :
    ∃ conflict, finish names moduleIgnored proxies id t outline =
      .error (.configuration t.fullName conflict) := by
  obtain ⟨hcollected, howner⟩ := collected_mergedMetadata t hproxies
  obtain ⟨conflict, hconflict⟩ := names.visibleName_of_broken hcollected h t.fullName none
  rw [howner] at hconflict
  exact ⟨conflict, except_bind_eq_error.2 (.inl hconflict)⟩

/-- Once the type has a visible name, its members decide. -/
theorem finish_of_not_broken (hproxies : ∀ p ∈ proxies, p.metadata.Collected)
    (h : ¬(mergedMetadata t proxies).Broken names.rename)
    {members : Except ModelError (IdentifierMap Member)}
    (hmembers : (outline.drafts.mapM fun _ draft => finishMember names id
      (moduleIgnored || isHiddenName t.fullName || (mergedMetadata t proxies).has names.ignore)
      (.ofDrafts t outline.drafts) draft) = members) :
    (∀ ms, members = .ok ms → ∃ r, finish names moduleIgnored proxies id t outline = .ok r) ∧
      ∀ e, members = .error e → finish names moduleIgnored proxies id t outline = .error e := by
  obtain ⟨visible, hvisible⟩ :=
    names.visibleName_isOk (collected_mergedMetadata t hproxies).1 h t.fullName none
  constructor
  · intro ms hms
    exact ⟨_, except_bind_eq_ok.2
      ⟨visible, hvisible, except_bind_eq_ok.2 ⟨ms, hmembers.trans hms, rfl⟩⟩⟩
  · intro e he
    exact except_bind_eq_error.2
      (.inr ⟨visible, hvisible, except_bind_eq_error.2 (.inl (hmembers.trans he))⟩)

end Finish

/-! ## Building a record -/

/-- If some element has a property, there is a first one. -/
theorem exists_first {α : Type} {P : α → Prop} {xs : List α} (h : ∃ x ∈ xs, P x) :
    ∃ front x rest, xs = front ++ x :: rest ∧ (∀ y ∈ front, ¬P y) ∧ P x := by
  induction xs with
  | nil => exact absurd h (by simp)
  | cons x xs ih =>
    by_cases hx : P x
    · exact ⟨[], x, xs, rfl, nofun, hx⟩
    · simp only [List.exists_mem_cons_iff, hx, false_or] at h
      obtain ⟨front, y, rest, rfl, hfront, hy⟩ := ih h
      exact ⟨x :: front, y, rest, rfl, List.forall_mem_cons.2 ⟨hx, hfront⟩, hy⟩

/-- How the building of a record ends once the proxies of the type are there: with an error of the
type, with an error of the first member in the roster that has a fault, or with a record of all
members in the roster. -/
inductive Outcome (store : Store) (names : Vocabulary) (proxies : List Proxy) (t : TypeDecl)
    (roster : Roster) : Answer TypeRecord → Prop where
  | typeFault (fault : (mergedMetadata t proxies).Broken names.rename) (conflict : Conflict) :
      Outcome store names proxies t roster (.reject (.configuration t.fullName conflict))
  | memberFault (sound : ¬(mergedMetadata t proxies).Broken names.rename) {front rest : List Slot}
      {slot : Slot} (values : roster.values = front ++ slot :: rest)
      (before : ∀ s ∈ front, ¬s.RenameBroken store names proxies)
      (fault : slot.RenameBroken store names proxies) {owner : String}
      (named : store.qualifiedMemberName? slot.member = some owner) (conflict : Conflict) :
      Outcome store names proxies t roster (.reject (.configuration owner conflict))
  | record (sound : ¬(mergedMetadata t proxies).Broken names.rename)
      (members : ∀ slot ∈ roster.values, ¬slot.RenameBroken store names proxies) {r : TypeRecord}
      (complete : r.members.values.map Member.decl =
        roster.values.map fun slot => .member slot.member) :
      Outcome store names proxies t roster (.ok r)

@[simp] theorem members_withStaticConstructor (r : TypeRecord) :
    r.withStaticConstructor.members = r.members := by
  unfold withStaticConstructor
  split <;> rfl

section Build

variable {store : Store} {names : Vocabulary} {id : TypeId} {t : TypeDecl} {proxies : List Proxy}

theorem Outcome.map {roster : Roster} {a : Answer TypeRecord} {f : TypeRecord → TypeRecord}
    (h : Outcome store names proxies t roster a) (hf : ∀ r, (f r).members = r.members) :
    Outcome store names proxies t roster (a.map f) := by
  cases h with
  | typeFault fault conflict => exact .typeFault fault conflict
  | memberFault sound values before fault named conflict =>
    exact .memberFault sound values before fault named conflict
  | record sound members complete => exact .record sound members (by rwa [hf])

/-- The members of a record are those of the roster, in its order. -/
theorem decls_of_build {r : TypeRecord} {roster : Roster} (h : build store names id = .ok r)
    (ht : store.type? id = some t) (hproxies : store.proxiesOf names id = .ok proxies)
    (hroster : Roster.build? store t proxies = some roster) :
    r.members.values.map Member.decl = roster.values.map fun slot => .member slot.member := by
  obtain ⟨t', roster', ht', hproxies', hroster', hfills⟩ := fills_of_build h
  obtain rfl : t = t' := Option.some.inj (ht.symm.trans ht')
  obtain rfl : proxies = r.proxies := Except.ok.inj (hproxies.symm.trans hproxies')
  obtain rfl : roster = roster' := Option.some.inj (hroster.symm.trans hroster')
  rw [decls_of_fills hfills, IdentifierMap.values, List.map_map]
  rfl

/-- Apart from the proxies, only visible names can keep a type from having a record. -/
theorem build_eq_judged (h : store.WellFormed) (ht : store.type? id = some t)
    (hproxies : store.proxiesOf names id = .ok proxies) :
    ∃ moduleIgnored outline roster, Roster.build? store t proxies = some roster ∧
      roster.Replaces
        (fun slot draft => MemberDraft.ofSlot? store names proxies slot = some draft)
        outline.drafts ∧
      build store names id =
        .judged (finish names moduleIgnored proxies id t outline) := by
  obtain ⟨module, hmodule⟩ := Store.WellFormed.exists_moduleRecord names
    (Store.has_module_iff.2 (h.exists_module ht))
  obtain ⟨outline, houtline⟩ :=
    h.exists_outline? names (Proxy.tabulated_of_proxiesOf ht hproxies) ht
  obtain ⟨roster, hroster, hdrafts⟩ := roster_of_outline? houtline
  refine ⟨module.ignored, outline, roster, hroster, hdrafts, ?_⟩
  simp only [build, assemble, ht, hmodule, hproxies, houtline, Answer.inRange, except_ok_bind]

/-- A type whose proxies are refused is refused with the same error. -/
theorem build_of_proxies_error (h : store.WellFormed) (ht : store.type? id = some t) {e : Failure}
    (hproxies : store.proxiesOf names id = .error e) : build store names id = .error e := by
  obtain ⟨module, hmodule⟩ := Store.WellFormed.exists_moduleRecord names
    (Store.has_module_iff.2 (h.exists_module ht))
  simp only [build, ht, hmodule, hproxies, Answer.inRange, except_ok_bind]
  rfl

/-- Once the proxies of the type are there, building its record ends as `Outcome` says. -/
theorem outcome_of_build (h : store.WellFormed) (ht : store.type? id = some t)
    (hproxies : store.proxiesOf names id = .ok proxies) :
    ∃ roster, Roster.build? store t proxies = some roster ∧
      Outcome store names proxies t roster (build store names id) := by
  obtain ⟨moduleIgnored, outline, roster, hroster, hdrafts, hbuild⟩ :=
    build_eq_judged h ht hproxies
  refine ⟨roster, hroster, ?_⟩
  have hcollected : ∀ p ∈ proxies, p.metadata.Collected := fun p hp =>
    Proxy.collected_of_build ((Store.mem_proxiesOf ht hproxies p).1 hp).1
  by_cases htype : (mergedMetadata t proxies).Broken names.rename
  · obtain ⟨conflict, hconflict⟩ := finish_of_broken hcollected htype
    rw [hbuild, hconflict]
    exact .typeFault htype conflict
  · obtain ⟨hrecord, herror⟩ := finish_of_not_broken hcollected htype rfl
    by_cases hmembers : ∀ slot ∈ roster.values, ¬slot.RenameBroken store names proxies
    · obtain ⟨members, hfinished⟩ := members_of_sound_roster hdrafts hmembers
      obtain ⟨r, hr⟩ := hrecord members hfinished
      have hok : build store names id = .ok r := by rw [hbuild, hr]; rfl
      rw [hok]
      exact .record htype hmembers (decls_of_build hok ht hproxies hroster)
    · simp only [not_forall, not_not] at hmembers
      obtain ⟨slot, hmem, hfault⟩ := hmembers
      obtain ⟨front, slot, rest, hvalues, hfront, hslot⟩ := exists_first ⟨slot, hmem, hfault⟩
      obtain ⟨owner, conflict, howner, hfailed⟩ :=
        members_of_first_fault hdrafts hvalues hfront hslot
      rw [hbuild, herror _ hfailed]
      exact .memberFault htype hvalues hfront hslot howner conflict

end Build

end TypeRecord

/-! ## Requests -/

namespace Catalog

/-- In a store where every handle leads somewhere, a request for the record of a type fails if the
request for its proxies does, and with the same error. Otherwise it ends as its rename annotations
have it: an error of the type, or of its first member at fault, or a record of all members. -/
theorem type_is_refused_for_the_first_fault {store : Store} (h : store.WellFormed)
    (names : Vocabulary) (before : List Request) {id : TypeId} {t : TypeDecl}
    (ht : store.type? id = some t) :
    let c := after store names before
    (∃ e, c.answer (.proxies id) = .reject e ∧ c.answer (.type id) = .reject e) ∨
      ∃ proxies roster outcome, c.answer (.proxies id) = .ok (.proxies proxies) ∧
        Roster.build? store t proxies = some roster ∧
        TypeRecord.Outcome store names proxies t roster outcome ∧
        c.answer (.type id) = outcome.map .type := by
  intro c
  have hanswer : c.answer (.proxies id) = (store.proxiesOf names id).map .proxies :=
    answer_after store names before (.proxies id)
  rw [hanswer, answer_type_after]
  cases hproxies : store.proxiesOf names id with
  | error e =>
    rw [TypeRecord.build_of_proxies_error h ht hproxies]
    cases e with
    | outOfRange => exact absurd hproxies (h.isInRange_proxiesOf (Store.has_type_iff.2 ⟨t, ht⟩))
    | rejected e => exact .inl ⟨e, rfl, rfl⟩
  | ok proxies =>
    obtain ⟨roster, hroster, houtcome⟩ := TypeRecord.outcome_of_build h ht hproxies
    -- An attached static constructor is no member, so that the outcome stays what it is.
    have hattached := houtcome.map
      (f := fun r => if .fillStaticConstructor id ∈ before then r.withStaticConstructor else r)
      fun r => by split <;> simp
    refine .inr ⟨proxies, roster, _, rfl, hroster, hattached, ?_⟩
    cases TypeRecord.build store names id <;> rfl

/-- A store with a type that is renamed and a proxy of it that is renamed as well. -/
def renamingStore : Store where
  modules := #[{ name := "app.dll" }]
  types := #[
    { module := ⟨0⟩, scope := "App", name := "Clock", fullName := "App.Clock", kind := .classType
      annotations := [{ kind := "Xlate.Meta.RenameAttribute", args := [.str "Clock"] }] },
    { module := ⟨0⟩, scope := "Web", name := "Clock", fullName := "Web.Clock", kind := .classType
      annotations := [
        { kind := "Xlate.Meta.ProxyAttribute", args := [.str "App.Clock"] },
        { kind := "Xlate.Meta.RenameAttribute", args := [.str "Date"] }] }]

/-- Each of the two names is fine by itself, but the type has both of them. -/
theorem lent_name_refuses_the_type :
    ∃ proxies roster, (after renamingStore {} []).answer (.proxies ⟨0⟩) = .ok (.proxies proxies) ∧
      TypeRecord.Outcome renamingStore {} proxies
        { module := ⟨0⟩, scope := "App", name := "Clock", fullName := "App.Clock",
          kind := .classType,
          annotations := [{ kind := "Xlate.Meta.RenameAttribute", args := [.str "Clock"] }] }
        roster
        (.reject (.configuration "App.Clock" (.repeated "Xlate.Meta.RenameAttribute" 2))) := by
  have hwell : renamingStore.WellFormed := by decide
  have ht : renamingStore.type? ⟨0⟩ = some _ := rfl
  have hanswer : (after renamingStore {} []).answer (.type ⟨0⟩) =
      .reject (.configuration "App.Clock" (.repeated "Xlate.Meta.RenameAttribute" 2)) := rfl
  rcases type_is_refused_for_the_first_fault hwell {} [] ht with
    ⟨e, hproxies, -⟩ | ⟨proxies, roster, outcome, hproxies, -, houtcome, heq⟩
  · cases hproxies
  · rw [hanswer] at heq
    cases outcome with
    | ok r => cases heq
    | error e =>
      cases heq
      exact ⟨proxies, roster, hproxies, houtcome⟩

end Catalog

end TypeModel
