import TypeModel.Proofs.CatalogRun
import TypeModel.Proofs.Following
import TypeModel.Proofs.Positions

/-!
# No answer is out of range

In a well-formed store no query that is asked with handles of declarations follows a handle that
leads nowhere: it has a value, or the declarations are at fault (`Answer.IsInRange`). The positions
that records keep inside lead where they should in any store, well-formed or not. Registration keeps
a store well-formed. `Catalog.queries_stay_in_range` collects this.
-/

namespace TypeModel

/-! ## Answers in range -/

/-- The answer is not that a handle leads outside the store. -/
def Answer.IsInRange {α : Type} (a : Answer α) : Prop :=
  a ≠ .error .outOfRange

namespace Answer

variable {α β : Type}

theorem isInRange_ok (a : α) : IsInRange (.ok a) := nofun

theorem isInRange_reject (e : ModelError) : IsInRange (reject e : Answer α) := nofun

theorem isInRange_judged (x : Except ModelError α) : IsInRange (judged x) := by
  cases x with
  | ok a => exact isInRange_ok a
  | error e => exact isInRange_reject e

theorem isInRange_of_exists {o : Option α} (h : ∃ a, o = some a) : IsInRange (inRange o) := by
  obtain ⟨a, rfl⟩ := h
  exact isInRange_ok a

theorem IsInRange.bind {x : Answer α} {f : α → Answer β} (hx : x.IsInRange)
    (hf : ∀ a, x = .ok a → (f a).IsInRange) : (x >>= f).IsInRange := by
  intro h
  rcases except_bind_eq_error.1 h with h | ⟨a, ha, h⟩
  · exact hx h
  · exact hf a ha h

theorem IsInRange.map {x : Answer α} (hx : x.IsInRange) (f : α → β) : IsInRange (x.map f) :=
  fun h => hx (except_map_eq_error.1 h)

theorem isInRange_mapM {f : α → Answer β} {xs : List α} (h : ∀ x ∈ xs, (f x).IsInRange) :
    (xs.mapM f).IsInRange := by
  intro herror
  obtain ⟨before, x, after, rfl, -, hx⟩ := except_mapM_eq_error.1 herror
  exact h x (List.mem_append_right _ List.mem_cons_self) hx

end Answer

/-! ## Queries over a well-formed store -/

open Answer

variable {store : Store} {names : Vocabulary} {id : TypeId}

theorem Store.has_of_mem_typeIds (h : id ∈ store.typeIds) : store.Has (.type id) := by
  obtain ⟨i, hi, rfl⟩ := List.mem_map.1 h
  exact has_type_iff.2 ⟨_, Array.getElem?_eq_getElem (List.mem_range.1 hi)⟩

theorem Store.has_of_mem_typesMarkedFor {fullName : String}
    (h : id ∈ store.typesMarkedFor names fullName) : store.Has (.type id) :=
  has_of_mem_typeIds (List.mem_of_mem_filter h)

namespace Store.WellFormed

/-- A module or a type is rejected by name, which can be looked up. -/
theorem isInRange_asMember (h : store.WellFormed) {decl : DeclId} (hdecl : store.Has decl) :
    (store.asMember decl).IsInRange := by
  have hname := isInRange_of_exists (h.exists_qualifiedName? hdecl)
  cases decl with
  | member m => exact isInRange_ok m
  | module id => exact hname.bind fun name _ => isInRange_reject _
  | type id => exact hname.bind fun name _ => isInRange_reject _

/-- What passes for a member is the handle of one. -/
theorem has_of_asMember {decl : DeclId} {m : MemberId} (hdecl : store.Has decl)
    (hm : store.asMember decl = .ok m) : store.Has (.member m) := by
  cases decl with
  | member m' =>
    cases hm
    exact hdecl
  | module id =>
    obtain ⟨name, -, hm⟩ := except_bind_eq_ok.1 hm
    cases hm
  | type id =>
    obtain ⟨name, -, hm⟩ := except_bind_eq_ok.1 hm
    cases hm

theorem isInRange_identify (h : store.WellFormed) {decl : DeclId} (hdecl : store.Has decl) :
    (store.identify decl).IsInRange :=
  (h.isInRange_asMember hdecl).bind fun _ hm =>
    isInRange_of_exists (h.exists_identifier? (has_of_asMember hdecl hm))

/-- Proxies with members of the store lead to members of the store. -/
theorem isInRange_resolve (h : store.WellFormed) {proxies : List Proxy}
    (hproxies : ∀ p ∈ proxies, Roster.Tabulated store p) {decl : DeclId}
    (hdecl : store.Has decl) : (store.resolve proxies decl).IsInRange := by
  refine (h.isInRange_asMember hdecl).bind fun m hm => isInRange_of_exists ?_
  obtain ⟨backing, hbacking, -⟩ := h.exists_resolve? hproxies (has_of_asMember hdecl hm)
  exact ⟨backing, hbacking⟩

theorem isInRange_proxy (h : store.WellFormed) (hid : store.Has (.type id)) :
    (Proxy.build store names id).IsInRange := by
  obtain ⟨t, ht⟩ := has_type_iff.1 hid
  have hkeyed : ∃ table, Proxy.keyed? store t.offeredMembers = some table := by
    have hstep : ∀ m ∈ t.offeredMembers, ∀ table : IdentifierMap MemberId, True →
        ∃ table', (do return table.push (← store.identifier? m) m) = some table' ∧ True := by
      intro m hm table _
      obtain ⟨key, hkey⟩ := h.exists_identifier? (h.has_listed ht hm)
      exact ⟨table.push key m, by rw [hkey]; rfl, trivial⟩
    obtain ⟨table, htable, -⟩ := option_foldlM_exists (b := IdentifierMap.empty) trivial hstep
    exact ⟨table, htable⟩
  refine (isInRange_of_exists ⟨t, ht⟩).bind fun u hu => (isInRange_judged _).bind fun marker _ => ?_
  obtain rfl : t = u := Option.some.inj (ht.symm.trans (inRange_eq_ok.1 hu))
  cases marker with
  | none => exact isInRange_reject _
  | some marker => exact (isInRange_of_exists hkeyed).bind fun _ _ => isInRange_ok _

/-- The proxies of a type come from a scan of the store, so that their handles are in range. -/
theorem isInRange_proxiesOf (h : store.WellFormed) (hid : store.Has (.type id)) :
    (store.proxiesOf names id).IsInRange := by
  obtain ⟨t, ht⟩ := has_type_iff.1 hid
  rw [Store.proxiesOf_eq ht]
  exact isInRange_mapM fun p hp => h.isInRange_proxy (has_of_mem_typesMarkedFor hp)

theorem exists_moduleRecord (names : Vocabulary) {m : ModuleId} (hm : store.Has (.module m)) :
    ∃ record, ModuleRecord.build? store names m = some record := by
  obtain ⟨d, hd⟩ := has_module_iff.1 hm
  simp [ModuleRecord.build?, hd]

/-- The record of a type in range is built or rejected, but no handle is out of range. -/
theorem isInRange_build (h : store.WellFormed) (hid : store.Has (.type id)) :
    (TypeRecord.build store names id).IsInRange := by
  obtain ⟨t, ht⟩ := has_type_iff.1 hid
  refine (isInRange_of_exists ⟨t, ht⟩).bind fun u hu => ?_
  obtain rfl : t = u := Option.some.inj (ht.symm.trans (inRange_eq_ok.1 hu))
  have hmodule := isInRange_of_exists
    (exists_moduleRecord names (has_module_iff.2 (h.exists_module ht)))
  refine hmodule.bind fun module _ => (h.isInRange_proxiesOf hid).bind fun proxies hproxies => ?_
  have htabulated := Proxy.tabulated_of_proxiesOf ht hproxies
  exact (isInRange_of_exists (h.exists_outline? names htabulated ht)).bind
    fun outline _ => isInRange_judged _

theorem isInRange_typeRecord (h : store.WellFormed) (filled : List TypeId)
    (hid : store.Has (.type id)) : (store.typeRecord names filled id).IsInRange :=
  (h.isInRange_build hid).map _

/-- A member that is not part of the record is rejected by name. -/
theorem isInRange_memberRecord (h : store.WellFormed) {decl : DeclId} (hdecl : store.Has decl) :
    (store.memberRecord names decl).IsInRange := by
  refine (h.isInRange_asMember hdecl).bind fun m hm => ?_
  obtain ⟨d, hd⟩ := has_member_iff.1 (has_of_asMember hdecl hm)
  have howner := Store.ownerOf?_of_member? hd
  refine (isInRange_of_exists ⟨_, howner⟩).bind fun owner howner' => ?_
  obtain rfl : d.owner = owner := Option.some.inj (howner.symm.trans (inRange_eq_ok.1 howner'))
  refine (h.isInRange_build (has_type_iff.2 (h.exists_owner hd))).bind fun r _ => ?_
  cases r.memberOfDecl? decl with
  | some member => exact isInRange_ok member
  | none =>
    exact (isInRange_of_exists (h.exists_qualifiedName? hdecl)).bind fun _ _ => isInRange_reject _

/-- Everything can be asked for, since all handles come from the store. -/
theorem isInRange_typeRecords (h : store.WellFormed) (filled : List TypeId) :
    (store.typeRecords names filled).IsInRange := by
  have hmarked : IsInRange ((store.markedTypes names).mapM (Proxy.build store names)) :=
    isInRange_mapM fun p hp => h.isInRange_proxy (has_of_mem_typeIds (List.mem_of_mem_filter hp))
  exact hmarked.bind fun _ _ =>
    isInRange_mapM fun id hid => h.isInRange_typeRecord filled (has_of_mem_typeIds hid)

theorem isInRange_attachedConstructor (h : store.WellFormed) (filled : List TypeId)
    (hid : store.Has (.type id)) : (store.attachedConstructor names filled id).IsInRange := by
  refine (h.isInRange_typeRecord filled hid).bind fun r _ => ?_
  cases r.staticConstructor with
  | some m => exact isInRange_reject _
  | none => exact isInRange_ok _

end Store.WellFormed

/-! ## Requests -/

/-- The handles that a request is asked with. -/
def Request.handles : Request → List DeclId
  | .module id => [.module id]
  | .type id => [.type id]
  | .proxy id => [.type id]
  | .proxies id => [.type id]
  | .member decl => [decl]
  | .everything => []
  | .fillStaticConstructor id => [.type id]

/-- A request whose handles are in range never leads out of range. -/
theorem Store.WellFormed.isInRange_expected (h : store.WellFormed) (filled : List TypeId)
    {q : Request} (hq : ∀ x ∈ q.handles, store.Has x) :
    (q.expected store names filled).IsInRange := by
  cases q with
  | module id =>
    exact (isInRange_of_exists (exists_moduleRecord names (hq _ List.mem_cons_self))).map _
  | type id => exact (h.isInRange_typeRecord filled (hq _ List.mem_cons_self)).map _
  | proxy id => exact (h.isInRange_proxy (hq _ List.mem_cons_self)).map _
  | proxies id => exact (h.isInRange_proxiesOf (hq _ List.mem_cons_self)).map _
  | member decl => exact (h.isInRange_memberRecord (hq _ List.mem_cons_self)).map _
  | everything => exact (h.isInRange_typeRecords filled).map _
  | fillStaticConstructor id =>
    exact (h.isInRange_attachedConstructor filled (hq _ List.mem_cons_self)).map _

namespace Catalog

/-- Attaching a static constructor moves no member. -/
theorem located_withStaticConstructor {r : TypeRecord} (h : r.Located) :
    r.withStaticConstructor.Located := by
  unfold TypeRecord.withStaticConstructor
  split
  · exact h
  · exact ⟨h.member, h.memberOfDecl, h.early, h.constructors, h.group, h.literalOfValue,
      h.literalNamed⟩

/-- Every record of a type that a catalog answers with can be asked by position. -/
theorem located_of_answer {before : List Request} {r : TypeRecord}
    (h : (after store names before).answer (.type id) = .ok (.type r)) : r.Located := by
  rw [answer_after] at h
  obtain ⟨r', hr', heq⟩ := except_map_eq_ok.1 h
  obtain rfl : r' = r := Reply.type.inj heq
  obtain ⟨built, hbuilt, rfl⟩ := except_map_eq_ok.1 hr'
  have hlocated := TypeRecord.located_of_build hbuilt
  split
  · exact located_withStaticConstructor hlocated
  · exact hlocated

/-- What can be asked of a store without following a handle or a position that leads nowhere. -/
structure StaysInRange (store : Store) (names : Vocabulary) : Prop where
  /-- Requests to a catalog, whatever was requested before. -/
  answer : ∀ before q, (∀ x ∈ q.handles, store.Has x) →
    ((after store names before).answer q).IsInRange
  proxy : ∀ id, store.Has (.type id) → (Proxy.build store names id).IsInRange
  identify : ∀ decl, store.Has decl → (store.identify decl).IsInRange
  declaredName : ∀ decl, store.Has decl → ∃ name, store.declaredName? decl = some name
  resolve : ∀ proxies decl, (∀ p ∈ proxies, ∃ id, Proxy.build store names id = .ok p) →
    store.Has decl → (store.resolve proxies decl).IsInRange
  /-- Lookups in the records that a catalog answers with. -/
  located : ∀ before id r, (after store names before).answer (.type id) = .ok (.type r) →
    r.Located
  /-- The grouping of methods while a record is built. -/
  grouped : ∀ id r, TypeRecord.build store names id = .ok r →
    ∃ t outline own contributed, store.type? id = some t ∧
      TypeRecord.outline? store names r.proxies id t = some outline ∧
      outline.drafts.entries = own ++ contributed ∧
      (∀ m, (∃ e ∈ own, e.2.member = m) ↔ m ∈ store.ownMembers t) ∧ r.Grouped t own
  /-- Tables of members, those of proxies and those that grow while a record is built. -/
  tables : ∀ (α : Type) (entries : List (Identifier × α)) (key : Identifier),
    let table : IdentifierMap α := entries.foldl (fun m e => m.push e.1 e.2) .empty
    table.follow key = .ok (table.get? key)
  find : ∀ id p, Proxy.build store names id = .ok p →
    ∀ key, p.members.follow key = .ok (p.find? key)
  /-- Registration keeps the store well-formed, so that all this goes on. -/
  register : ∀ registration : Registration, (∀ x ∈ registration.handles, store.Has x) →
    ∃ s, store.register? registration = some s ∧ s.WellFormed
  registerAll : ∀ registrations, store.Admits registrations →
    ∃ s, store.registerAll? registrations = some s ∧ s.WellFormed

/-- Nothing that a well-formed store can be asked leads out of range. -/
theorem queries_stay_in_range (h : store.WellFormed) (names : Vocabulary) :
    StaysInRange store names where
  answer before q hq := by
    rw [answer_after]
    exact h.isInRange_expected _ hq
  proxy id hid := h.isInRange_proxy hid
  identify decl hdecl := h.isInRange_identify hdecl
  declaredName decl hdecl := h.exists_declaredName? hdecl
  resolve proxies decl hproxies hdecl := by
    refine h.isInRange_resolve (fun p hp => ?_) hdecl
    obtain ⟨id, hid⟩ := hproxies p hp
    exact Proxy.tabulated_of_build hid
  located before id r hr := located_of_answer hr
  grouped id r hr := TypeRecord.grouped_of_build hr
  tables α entries key := IdentifierMap.follow_pushes entries key
  find id p hp key := IdentifierMap.follow_of_filed (Proxy.filed_of_build hp) key
  register registration hr := h.exists_register? hr
  registerAll registrations hr := h.exists_registerAll? hr

/-- A type with a method and another that implements the first, registered one after another. -/
def overridingRegistrations : List Registration := [
  .module "app.dll",
  .type ⟨0⟩ "" "Main" .classType,
  .member (.method { owner := ⟨0⟩, name := "Run" }),
  .member (.method { owner := ⟨0⟩, name := "Base.Run", overrides := [⟨0⟩] })]

/-- A method may override another of its own type. -/
theorem registered_methods_stay_in_range :
    ∃ store, Store.registerAll? {} overridingRegistrations = some store ∧ store.WellFormed ∧
      StaysInRange store {} := by
  have hadmits : Store.Admits {} overridingRegistrations := by
    refine ⟨fun x hx => absurd hx List.not_mem_nil, fun s hs => ?_⟩
    cases hs
    refine ⟨fun x hx => ?_, fun s hs => ?_⟩
    · rw [List.mem_singleton.1 hx]
      exact ⟨_, rfl⟩
    cases hs
    refine ⟨fun x hx => ?_, fun s hs => ?_⟩
    · rw [List.mem_singleton.1 hx]
      exact ⟨_, rfl⟩
    cases hs
    refine ⟨fun x hx => ?_, fun s hs => trivial⟩
    rcases List.mem_cons.1 hx with rfl | hx
    · exact ⟨_, rfl⟩
    · rw [List.mem_singleton.1 hx]
      exact ⟨_, rfl⟩
  obtain ⟨store, hstore, hwell⟩ := Store.wellFormed_empty.exists_registerAll? hadmits
  exact ⟨store, hstore, hwell, queries_stay_in_range hwell {}⟩

end Catalog

end TypeModel
