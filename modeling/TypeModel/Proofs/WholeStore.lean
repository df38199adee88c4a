import TypeModel.Proofs.InRange

/-!
# Asking for everything

A request for everything builds the proxies that carry the marker and then all types. It succeeds
exactly if each of them can be built, gives the records that single requests give, and leaves
nothing behind that a later request could fail for; proxies come before types even if the type that
fails has the lower number. All of this holds after any requests
(`Catalog.everything_settles_the_store`).
-/

namespace TypeModel

/-- Among the handles with the property, the failure is that of the one with the least index that
fails. -/
def FirstFailure {α : Type} (P : TypeId → Prop) (f : TypeId → Answer α) (e : Failure) : Prop :=
  ∃ id, P id ∧ f id = .error e ∧ ∀ id', P id' → id'.index < id.index → ∃ a, f id' = .ok a

theorem firstFailure_map {α β : Type} {P : TypeId → Prop} {f : TypeId → Answer α} {g : α → β}
    {e : Failure} : FirstFailure P (fun id => (f id).map g) e ↔ FirstFailure P f e := by
  have hok : ∀ id, (∃ b, (f id).map g = .ok b) ↔ ∃ a, f id = .ok a := by
    intro id
    simp only [except_map_eq_ok]
    rw [exists_comm]
    simp only [exists_and_left, exists_eq', and_true]
  unfold FirstFailure
  simp only [hok, except_map_eq_error]

namespace Store

variable {store : Store} {names : Vocabulary} {filled : List TypeId} {id : TypeId} {e : Failure}

/-- A type of the store bears the marker. -/
def Marked (store : Store) (names : Vocabulary) (id : TypeId) : Prop :=
  ∃ t, store.type? id = some t ∧ t.IsMarked names

theorem mem_markedTypes : id ∈ store.markedTypes names ↔ store.Marked names id := by
  unfold markedTypes isMarked Marked
  rw [List.mem_filter, Option.any_eq_true]
  constructor
  · intro h
    obtain ⟨-, t, ht, hmarked⟩ := h
    exact ⟨t, ht, of_decide_eq_true hmarked⟩
  · intro h
    obtain ⟨t, ht, hmarked⟩ := h
    exact ⟨mem_typeIds ht, t, ht, decide_eq_true hmarked⟩

theorem mem_typeIds_iff : id ∈ store.typeIds ↔ store.Has (.type id) := by
  constructor
  · intro h
    exact has_of_mem_typeIds h
  · intro h
    obtain ⟨t, ht⟩ := has_type_iff.1 h
    exact mem_typeIds ht

/-- The proxies of a type are marked. -/
theorem marked_of_mem_typesMarkedFor {fullName : String}
    (h : id ∈ store.typesMarkedFor names fullName) : store.Marked names id := by
  obtain ⟨t, ht, a, ha, hkind, -⟩ := mem_typesMarkedFor.1 h
  exact ⟨t, ht, a, ha, hkind⟩

/-! ## The two passes -/

/-- An ascending traversal fails with the failure of the least handle that fails. -/
theorem firstFailure_of_mapM {α : Type} {ids : List TypeId} {f : TypeId → Answer α}
    {P : TypeId → Prop} (hsorted : ids.Pairwise fun a b => a.index < b.index)
    (hmem : ∀ id, id ∈ ids ↔ P id) : ids.mapM f = .error e ↔ FirstFailure P f e := by
  rw [except_mapM_eq_error_iff_least hsorted fun _ _ => Nat.lt_asymm]
  simp only [hmem]
  rfl

theorem markedProxies_isOk_iff :
    (∃ ps, (store.markedTypes names).mapM (Proxy.build store names) = .ok ps) ↔
      ∀ id, store.Marked names id → ∃ p, Proxy.build store names id = .ok p := by
  rw [except_mapM_isOk_iff]
  simp only [mem_markedTypes]

/-- All records are built when every marked type is a sound proxy and every type has a record. -/
theorem typeRecords_eq_ok {rs : List TypeRecord} : store.typeRecords names filled = .ok rs ↔
    (∀ id, store.Marked names id → ∃ p, Proxy.build store names id = .ok p) ∧
      store.typeIds.mapM (store.typeRecord names filled) = .ok rs := by
  rw [← markedProxies_isOk_iff]
  unfold typeRecords
  rw [except_bind_eq_ok]
  constructor
  · intro h
    obtain ⟨ps, hps, hrs⟩ := h
    exact ⟨⟨ps, hps⟩, hrs⟩
  · intro h
    obtain ⟨⟨ps, hps⟩, hrs⟩ := h
    exact ⟨ps, hps, hrs⟩

/-- Success for the whole store comes down to the marked types and to each single type. -/
theorem typeRecords_isOk_iff : (∃ rs, store.typeRecords names filled = .ok rs) ↔
    (∀ id, store.Marked names id → ∃ p, Proxy.build store names id = .ok p) ∧
      ∀ id, store.Has (.type id) → ∃ r, store.typeRecord names filled id = .ok r := by
  simp only [typeRecords_eq_ok, exists_and_left, except_mapM_isOk_iff, mem_typeIds_iff]

/-- Proxies decide before types do. -/
theorem typeRecords_eq_error : store.typeRecords names filled = .error e ↔
    FirstFailure (store.Marked names) (Proxy.build store names) e ∨
      (∀ id, store.Marked names id → ∃ p, Proxy.build store names id = .ok p) ∧
        FirstFailure (fun id => store.Has (.type id)) (store.typeRecord names filled) e := by
  have hmarked := firstFailure_of_mapM (f := Proxy.build store names) (e := e)
    ((pairwise_typeIds store).filter (store.isMarked names)) fun id => mem_markedTypes
  have htypes := firstFailure_of_mapM (f := store.typeRecord names filled) (e := e)
    (pairwise_typeIds store) fun id => mem_typeIds_iff
  rw [← hmarked, ← htypes, ← markedProxies_isOk_iff]
  unfold typeRecords
  rw [except_bind_eq_error]
  simp only [exists_and_right]
  rfl

/-- There is one record for each type, in the order of the handles. -/
theorem getElem?_of_typeRecords {rs : List TypeRecord}
    (h : store.typeRecords names filled = .ok rs) : rs.length = store.types.size ∧
      ∀ (i : Nat) (r : TypeRecord), rs[i]? = some r →
        store.typeRecord names filled ⟨i⟩ = .ok r := by
  have hall := except_mapM_eq_ok.1 (typeRecords_eq_ok.1 h).2
  constructor
  · rw [← hall.length_eq, typeIds, List.length_map, List.length_range]
  · intro i r hr
    obtain ⟨id, hid, hrecord⟩ := exists_of_getElem?_right hall hr
    unfold typeIds at hid
    rw [List.getElem?_map] at hid
    obtain ⟨j, hj, rfl⟩ := Option.map_eq_some_iff.1 hid
    obtain ⟨hlt, rfl⟩ := List.getElem?_eq_some_iff.1 hj
    rw [List.getElem_range] at hrecord
    exact hrecord

end Store

namespace Catalog

variable {store : Store} {names : Vocabulary}

/-- No request for a module, a type, the proxies of a type or a marked type's proxy fails. -/
structure Settled (store : Store) (names : Vocabulary) (c : Catalog) : Prop where
  module : ∀ id, store.Has (.module id) → ∃ record, c.answer (.module id) = .ok (.module record)
  type : ∀ id, store.Has (.type id) → ∃ r, c.answer (.type id) = .ok (.type r)
  proxies : ∀ id, store.Has (.type id) → ∃ ps, c.answer (.proxies id) = .ok (.proxies ps)
  proxy : ∀ id, store.Marked names id → ∃ p, c.answer (.proxy id) = .ok (.proxy p)

/-- Once everything can be built, no request that only builds records can fail. -/
theorem settled_after {filled : List TypeId} {rs : List TypeRecord}
    (h : store.typeRecords names filled = .ok rs) (requests : List Request) :
    Settled store names (after store names requests) := by
  obtain ⟨hproxies, htypes⟩ := Store.typeRecords_isOk_iff.1 ⟨rs, h⟩
  constructor
  case module =>
    intro id hid
    obtain ⟨record, hrecord⟩ := Store.WellFormed.exists_moduleRecord names hid
    refine ⟨record, ?_⟩
    rw [answer_after, Request.expected, hrecord]
    rfl
  case type =>
    intro id hid
    obtain ⟨x, hx⟩ := htypes id hid
    obtain ⟨r, hr, -⟩ := typeRecord_eq_ok hx
    rw [answer_type_after, hr]
    exact ⟨_, rfl⟩
  case proxies =>
    intro id hid
    obtain ⟨t, ht⟩ := Store.has_type_iff.1 hid
    obtain ⟨ps, hps⟩ : ∃ ps, store.proxiesOf names id = .ok ps := by
      rw [Store.proxiesOf_eq ht, except_mapM_isOk_iff]
      intro q hq
      exact hproxies q (Store.marked_of_mem_typesMarkedFor hq)
    refine ⟨ps, ?_⟩
    rw [answer_after, Request.expected, hps]
    rfl
  case proxy =>
    intro id hid
    obtain ⟨p, hp⟩ := hproxies id hid
    refine ⟨p, ?_⟩
    rw [answer_after, Request.expected, hp]
    rfl

section Answers

variable {before : List Request}

/-- A request for everything is answered with the records of all types. -/
theorem answer_everything_eq_ok {rs : List TypeRecord} :
    (after store names before).answer .everything = .ok (.types rs) ↔
      store.typeRecords names (before.flatMap Request.fills) = .ok rs := by
  rw [answer_after, Request.expected, except_map_eq_ok]
  simp only [Reply.types.injEq, exists_eq_right]

/-- A request for everything attaches no static constructor. -/
theorem fills_everything : (before ++ [Request.everything]).flatMap Request.fills =
    before.flatMap Request.fills := by
  rw [List.flatMap_append]
  exact List.append_nil _

theorem firstFailure_answer_type {P : TypeId → Prop} {e : Failure} :
    FirstFailure P (fun id => (after store names before).answer (.type id)) e ↔
      FirstFailure P (store.typeRecord names (before.flatMap Request.fills)) e := by
  simp only [answer_after, Request.expected]
  exact firstFailure_map

end Answers

/-- A request for everything, after any requests: it succeeds exactly if each marked type has a
proxy record and each type a record; then it gives the records that single requests give, and
from then on those cannot fail. Otherwise it fails for the first marked type without a proxy
record or, if there is none, for the first type without a record. -/
theorem everything_settles_the_store (store : Store) (names : Vocabulary)
    (before : List Request) :
    let c := after store names before
    let AllProxies := ∀ id, store.Marked names id → ∃ p, Proxy.build store names id = .ok p
    ((∃ rs, c.answer .everything = .ok (.types rs)) ↔
      AllProxies ∧ ∀ id, store.Has (.type id) → ∃ r, c.answer (.type id) = .ok (.type r)) ∧
    (∀ rs, c.answer .everything = .ok (.types rs) →
      rs.length = store.types.size ∧
      (∀ (i : Nat) (r : TypeRecord), rs[i]? = some r →
        c.answer (.type ⟨i⟩) = .ok (.type r) ∧
        (after store names (before ++ [.everything])).answer (.type ⟨i⟩) = .ok (.type r)) ∧
      ∀ more, Settled store names (after store names (before ++ .everything :: more))) ∧
    ∀ e, c.answer .everything = .error e ↔
      FirstFailure (store.Marked names) (Proxy.build store names) e ∨
      AllProxies ∧
        FirstFailure (fun id => store.Has (.type id)) (fun id => c.answer (.type id)) e := by
  intro c AllProxies
  refine ⟨?_, ?_, ?_⟩
  · simp only [c, answer_everything_eq_ok, answer_type_eq_ok]
    exact Store.typeRecords_isOk_iff
  · intro rs hrs
    have hrecords := answer_everything_eq_ok.1 hrs
    obtain ⟨hlength, hget⟩ := Store.getElem?_of_typeRecords hrecords
    refine ⟨hlength, ?_, fun more => settled_after hrecords _⟩
    intro i r hr
    rw [answer_type_eq_ok, answer_type_eq_ok, fills_everything]
    exact ⟨hget i r hr, hget i r hr⟩
  · intro e
    rw [firstFailure_answer_type, answer_after, Request.expected, except_map_eq_error]
    exact Store.typeRecords_eq_error

/-- A store with a type that is renamed twice, and a marked type that has no target. -/
def faultyStore : Store where
  modules := #[{ name := "app.dll" }]
  types := #[
    { module := ⟨0⟩, scope := "", name := "Main", fullName := "Main", kind := .classType
      annotations := [
        { kind := "Xlate.Meta.RenameAttribute", args := [.str "A"] },
        { kind := "Xlate.Meta.RenameAttribute", args := [.str "B"] }] },
    { module := ⟨0⟩, scope := "", name := "Aimless", fullName := "Aimless", kind := .classType
      annotations := [{ kind := "Xlate.Meta.ProxyAttribute" }] }]

/-- A malformed proxy is reported even when a type that was registered earlier fails as well. -/
theorem marked_type_fails_before_lower_type :
    (after faultyStore {} []).answer (.type ⟨0⟩) =
      .reject (.configuration "Main" (.repeated "Xlate.Meta.RenameAttribute" 2)) ∧
    (after faultyStore {} []).answer .everything =
      .reject (.malformedProxy "Aimless" .noTarget) := by
  obtain ⟨-, -, herror⟩ := everything_settles_the_store faultyStore {} []
  refine ⟨rfl, (herror _).2 (.inl ⟨⟨1⟩, ⟨_, rfl, by decide⟩, rfl, ?_⟩)⟩
  intro id hid hlt
  obtain ⟨t, ht, hmarked⟩ := hid
  obtain rfl : id = ⟨0⟩ := congrArg Handle.mk (Nat.lt_one_iff.1 hlt)
  obtain rfl := Option.some.inj ht
  exact absurd hmarked (by decide)

end Catalog

end TypeModel
