import Mathlib.Data.Finset.Card
import Mathlib.Data.List.Dedup
import TypeModel.Proofs.CatalogSound

/-!
# Remembering is transparent

What a catalog answers to a request, after any requests whatever, is what the store alone gives
(`Catalog.answer_after`). History shows in two places: a record has a static constructor in its
place once one has been attached, and the number of types asked for grows.
-/

namespace TypeModel

/-! ## Requests without a memory -/

namespace Request

variable (store : Store) (names : Vocabulary) (filled : List TypeId)

/-- The answer that the store alone gives, once static constructors have been attached. -/
def expected : Request → Answer Reply
  | .module id => (Answer.inRange (ModuleRecord.build? store names id)).map .module
  | .type id => (store.typeRecord names filled id).map .type
  | .proxy id => (Proxy.build store names id).map .proxy
  | .proxies id => (store.proxiesOf names id).map .proxies
  | .member decl => (store.memberRecord names decl).map .member
  | .everything => (store.typeRecords names filled).map .types
  | .fillStaticConstructor id => (store.attachedConstructor names filled id).map .member

/-- The type to whose record a static constructor is to be attached. -/
def fills : Request → List TypeId
  | .fillStaticConstructor id => [id]
  | _ => []

/-- The types whose records a request asks for. -/
def asks : Request → List TypeId
  | .type id => [id]
  | .member decl => store.askedForMember decl
  | .everything => store.askedForEverything names
  | .fillStaticConstructor id => [id]
  | _ => []

theorem fills_subset_append (before more : List Request) :
    before.flatMap fills ⊆ (before ++ more).flatMap fills := by
  rw [List.flatMap_append]
  exact List.subset_append_left _ _

/-- The types that a run fills are those for which an attachment was requested. -/
theorem mem_flatMap_fills {requests : List Request} {id : TypeId} :
    id ∈ requests.flatMap fills ↔ .fillStaticConstructor id ∈ requests := by
  rw [List.mem_flatMap]
  constructor
  · rintro ⟨q, hq, hid⟩
    cases q with
    | fillStaticConstructor id' =>
      rw [List.mem_singleton.1 hid]
      exact hq
    | _ => exact absurd hid List.not_mem_nil
  · intro h
    exact ⟨_, h, List.mem_singleton_self id⟩

end Request

namespace Catalog

open Query

variable {store : Store} {names : Vocabulary} {filled asked : List TypeId}

/-- In what order static constructors were attached, and how often, makes no difference. -/
theorem typeRecord_congr {filled' : List TypeId} (h : ∀ id, id ∈ filled ↔ id ∈ filled') :
    store.typeRecord names filled = store.typeRecord names filled' := by
  funext id
  unfold Store.typeRecord
  simp only [h id]

theorem Sound.congr_filled {c : Catalog} {filled' : List TypeId}
    (h : Sound store names filled asked c) (hfilled : ∀ id, id ∈ filled ↔ id ∈ filled') :
    Sound store names filled' asked c :=
  { h with
    types := typeRecord_congr hfilled ▸ h.types
    kept := fun id hid => h.kept id ((hfilled id).2 hid) }

/-! ## One request -/

/-- Every request is answered as the store alone would answer it. -/
theorem gives_query (q : Request) :
    Gives q.query (q.expected store names filled) (Sound store names filled asked)
      (Sound store names (q.fills ++ filled) (q.asks store names ++ asked)) := by
  cases q with
  | module id => exact (gives_moduleRecord id).map Reply.module
  | type id =>
    intro c hc
    obtain ⟨hanswer, hsound, -⟩ := (gives_typeRecord id).map Reply.type c hc
    exact ⟨hanswer, hsound⟩
  | proxy id => exact (gives_proxyRecord id).map Reply.proxy
  | proxies id => exact (gives_proxyRecords id).map Reply.proxies
  | member decl => exact (gives_memberRecord decl).map Reply.member
  | everything => exact gives_buildAll.map Reply.types
  | fillStaticConstructor id => exact (gives_fillStaticConstructor id).map Reply.member

/-! ## Any sequence of requests -/

/-- A run of requests keeps a catalog sound. -/
theorem Sound.serveAll {c : Catalog} (h : Sound store names filled asked c)
    (requests : List Request) :
    Sound store names (requests.flatMap Request.fills ++ filled)
      (requests.flatMap (Request.asks store names) ++ asked) (c.serveAll requests) := by
  induction requests generalizing c filled asked with
  | nil => exact h
  | cons q rest ih =>
    have hrest := ih (gives_query q c h).2
    refine (hrest.congr_filled fun id => ?_).congr_asked fun id => ?_
    · simp only [List.flatMap_cons, List.mem_append, or_assoc, or_left_comm]
    · simp only [List.flatMap_cons, List.mem_append, or_assoc, or_left_comm]

variable (store names)

/-- The catalog of a store once requests are served in order, with nothing remembered at first. -/
def after (requests : List Request) : Catalog :=
  (ofStore store names).serveAll requests

theorem after_append (before more : List Request) :
    after store names (before ++ more) = (after store names before).serveAll more :=
  List.foldl_append

/-- After any run, a catalog remembers only what the store alone gives. -/
theorem sound_after (before : List Request) :
    Sound store names (before.flatMap Request.fills)
      (before.flatMap (Request.asks store names)) (after store names before) := by
  have h : Sound store names (before.flatMap Request.fills ++ []) _ _ :=
    sound_ofStore.serveAll before
  rw [List.append_nil, List.append_nil] at h
  exact h

/-- Of the requests before, an answer depends on the attachments only. -/
theorem answer_after (before : List Request) (q : Request) :
    (after store names before).answer q =
      q.expected store names (before.flatMap Request.fills) :=
  (gives_query q _ (sound_after store names before)).1

/-- The record of a type that a catalog answers with is the one that the store alone gives. -/
theorem answer_type_eq_ok {store : Store} {names : Vocabulary} {before : List Request}
    {id : TypeId} {r : TypeRecord} :
    (after store names before).answer (.type id) = .ok (.type r) ↔
      store.typeRecord names (before.flatMap Request.fills) id = .ok r := by
  rw [answer_after, Request.expected, except_map_eq_ok]
  simp only [Reply.type.injEq, exists_eq_right]

/-- A type is counted once, however often and by whatever requests it is asked for. -/
theorem askedTypeCount_after (before : List Request) :
    (after store names before).askedTypeCount =
      (before.flatMap (Request.asks store names)).toFinset.card := by
  have hsound := sound_after store names before
  have hcard := List.toFinset_card_of_nodup hsound.nodup
  have hasked : (after store names before).types.asked.toFinset =
      (before.flatMap (Request.asks store names)).toFinset := by
    ext id
    rw [List.mem_toFinset, List.mem_toFinset]
    exact hsound.asked_iff id
  rw [← hasked, hcard]
  exact (List.length_map _).symm

/-! ## Attached static constructors -/

section Attached

variable {store names} {filled' : List TypeId} {id : TypeId}

/-- Once there is a static constructor in its place, attaching leaves the record as it is. -/
theorem typeRecord_of_filled {x : TypeRecord} {m : Member}
    (h : store.typeRecord names filled id = .ok x) (hm : x.staticConstructor = some m)
    (hsub : filled ⊆ filled') : store.typeRecord names filled' id = .ok x := by
  obtain ⟨r, hr, rfl⟩ := typeRecord_eq_ok h
  rw [typeRecord_of_ok hr]
  by_cases hid : id ∈ filled
  · rw [if_pos hid, if_pos (hsub hid)]
  · rw [if_neg hid] at hm ⊢
    rw [TypeRecord.withStaticConstructor_of_some hm, ite_self]

/-- A static constructor that was attached is in its place from then on. -/
theorem attachedConstructor_eq_ok {m : Member}
    (h : store.attachedConstructor names filled id = .ok m) :
    ∃ x, store.typeRecord names (id :: filled) id = .ok x ∧ x.staticConstructor = some m := by
  obtain ⟨x, hx, h⟩ := except_bind_eq_ok.1 h
  refine ⟨x.withStaticConstructor, typeRecord_cons_self hx, ?_⟩
  cases hctor : x.staticConstructor with
  | some m' => rw [hctor] at h; cases h
  | none =>
    rw [hctor] at h
    cases h
    rw [TypeRecord.withStaticConstructor_of_none hctor]

/-- Nothing is attached to a record that has a static constructor. -/
theorem attachedConstructor_of_some {x : TypeRecord} {m : Member}
    (h : store.typeRecord names filled id = .ok x) (hm : x.staticConstructor = some m) :
    store.attachedConstructor names filled id =
      .reject (.configuration x.fullName .staticConstructorPresent) := by
  unfold Store.attachedConstructor
  rw [h, except_ok_bind, hm]

/-- An attachment is rejected for the record itself or for what is in the place already, and neither
can change. -/
theorem typeRecord_of_rejected {e : Failure}
    (h : store.attachedConstructor names filled id = .error e) (hsub : filled ⊆ filled') :
    store.typeRecord names (id :: filled') = store.typeRecord names filled' := by
  apply typeRecord_cons_of_same
  cases hr : TypeRecord.build store names id with
  | error e' => rw [typeRecord_of_error hr, typeRecord_of_error hr]
  | ok r =>
    have hx : store.typeRecord names filled id = _ := typeRecord_of_ok hr
    cases hctor : (if id ∈ filled then r.withStaticConstructor else r).staticConstructor with
    | none =>
      unfold Store.attachedConstructor at h
      rw [hx, except_ok_bind, hctor] at h
      cases h
    | some m =>
      rw [typeRecord_of_filled hx hctor hsub,
        typeRecord_of_filled hx hctor (List.subset_cons_of_subset id hsub)]

theorem expected_congr (h : store.typeRecord names filled = store.typeRecord names filled')
    (q : Request) : q.expected store names filled = q.expected store names filled' := by
  cases q with
  | type | everything | fillStaticConstructor =>
    simp only [Request.expected, Store.typeRecords, Store.attachedConstructor, h]
  | _ => rfl

/-- A rejected attachment leaves the catalog as a request for the record alone does. -/
theorem serve_of_rejected {c : Catalog} {e : Failure}
    (h : c.answer (.fillStaticConstructor id) = .error e) :
    c.serve (.fillStaticConstructor id) = c.serve (.type id) := by
  have hfill : Request.query (.fillStaticConstructor id) =
      fillStaticConstructor id >>= fun m => pure (.member m) := rfl
  have htype : Request.query (.type id) = typeRecord id >>= fun r => pure (.type r) := rfl
  unfold serve answer at *
  rw [hfill, fillStaticConstructor, ask_bind, ask_bind] at h ⊢
  rw [htype, ask_bind]
  rcases hask : (typeRecord id).ask c with ⟨e' | r, c'⟩
  · rfl
  · rw [hask] at h
    dsimp only at h ⊢
    cases hctor : r.staticConstructor with
    | some m =>
      rw [TypeRecord.fillStaticConstructor_of_some hctor]
      rfl
    | none =>
      rw [TypeRecord.fillStaticConstructor_of_none hctor] at h
      cases h

end Attached

/-! ## What history changes -/

/-- The record of a type is the fresh one, with a static constructor in its place if one was to be
attached before. -/
theorem answer_type_after (before : List Request) (id : TypeId) :
    (after store names before).answer (.type id) =
      (TypeRecord.build store names id).map fun r =>
        .type (if .fillStaticConstructor id ∈ before then r.withStaticConstructor else r) := by
  rw [answer_after, Request.expected, Store.typeRecord]
  simp only [Request.mem_flatMap_fills]
  cases TypeRecord.build store names id <;> rfl

section History

variable {store names} {before : List Request} {id : TypeId}

/-- What a type declares or what was attached to it stays in its place. -/
theorem answer_type_of_filled {r : TypeRecord} {m : Member}
    (h : (after store names before).answer (.type id) = .ok (.type r))
    (hm : r.staticConstructor = some m) (more : List Request) :
    (after store names (before ++ more)).answer (.type id) = .ok (.type r) := by
  rw [answer_type_eq_ok] at h ⊢
  exact typeRecord_of_filled h hm (Request.fills_subset_append before more)

/-- What is attached gets into its place, and nothing can be attached to the type after it. -/
theorem answer_of_attached {m : Member}
    (h : (after store names before).answer (.fillStaticConstructor id) = .ok (.member m))
    (more : List Request) :
    ∃ r, (after store names (before ++ .fillStaticConstructor id :: more)).answer (.type id) =
        .ok (.type r) ∧
      r.staticConstructor = some m ∧
      (after store names (before ++ .fillStaticConstructor id :: more)).answer
          (.fillStaticConstructor id) =
        .reject (.configuration r.fullName .staticConstructorPresent) := by
  rw [answer_after] at h
  obtain ⟨m', hm, heq⟩ := except_map_eq_ok.1 h
  cases heq
  obtain ⟨r, hr, hctor⟩ := attachedConstructor_eq_ok hm
  have hsub : id :: before.flatMap Request.fills ⊆
      (before ++ .fillStaticConstructor id :: more).flatMap Request.fills :=
    List.cons_subset.2 ⟨Request.mem_flatMap_fills.2
      (List.mem_append_right _ List.mem_cons_self), Request.fills_subset_append before _⟩
  have hkept := typeRecord_of_filled hr hctor hsub
  rw [answer_after, answer_after]
  exact ⟨r, congrArg (Except.map Reply.type) hkept, hctor,
    congrArg (Except.map Reply.member) (attachedConstructor_of_some hkept hctor)⟩

/-- No answer depends on an attachment that is rejected. -/
theorem answer_of_rejected {e : Failure}
    (h : (after store names before).answer (.fillStaticConstructor id) = .error e)
    (more : List Request) (q : Request) :
    (after store names (before ++ .fillStaticConstructor id :: more)).answer q =
      (after store names (before ++ more)).answer q := by
  rw [answer_after] at h
  have hrejected := except_map_eq_error.1 h
  rw [answer_after, answer_after]
  apply expected_congr
  rw [← typeRecord_of_rejected hrejected (Request.fills_subset_append before more)]
  refine typeRecord_congr fun id' => ?_
  simp only [List.flatMap_append, List.flatMap_cons, Request.fills, List.mem_append,
    List.mem_cons, List.singleton_append, or_left_comm]

/-- An attachment that is rejected might as well have been a request for the record. -/
theorem after_of_rejected {e : Failure}
    (h : (after store names before).answer (.fillStaticConstructor id) = .error e)
    (more : List Request) :
    after store names (before ++ .fillStaticConstructor id :: more) =
      after store names (before ++ .type id :: more) := by
  rw [after_append, after_append]
  exact congrArg (fun c => Catalog.serveAll c more) (serve_of_rejected h)

end History

/-- Remembering is transparent. Whatever was asked before, an answer is what the store alone gives;
types are counted once; and the place of a static constructor keeps what first gets into it. -/
theorem remembering_is_transparent (store : Store) (names : Vocabulary) (before : List Request) :
    (∀ q, (after store names before).answer q =
      q.expected store names (before.flatMap Request.fills)) ∧
    (after store names before).askedTypeCount =
      (before.flatMap (Request.asks store names)).toFinset.card ∧
    (∀ id, (after store names before).answer (.type id) =
      (TypeRecord.build store names id).map fun r =>
        .type (if .fillStaticConstructor id ∈ before then r.withStaticConstructor else r)) ∧
    (∀ id r m, (after store names before).answer (.type id) = .ok (.type r) →
      r.staticConstructor = some m → ∀ more,
        (after store names (before ++ more)).answer (.type id) = .ok (.type r)) ∧
    (∀ id m, (after store names before).answer (.fillStaticConstructor id) = .ok (.member m) →
      ∀ more, let c := after store names (before ++ .fillStaticConstructor id :: more)
        ∃ r, c.answer (.type id) = .ok (.type r) ∧ r.staticConstructor = some m ∧
          c.answer (.fillStaticConstructor id) =
            .reject (.configuration r.fullName .staticConstructorPresent)) ∧
    ∀ id e, (after store names before).answer (.fillStaticConstructor id) = .error e →
      ∀ more, after store names (before ++ .fillStaticConstructor id :: more) =
          after store names (before ++ .type id :: more) ∧
        ∀ q, (after store names (before ++ .fillStaticConstructor id :: more)).answer q =
          (after store names (before ++ more)).answer q := by
  refine ⟨answer_after store names before, askedTypeCount_after store names before,
    answer_type_after store names before, ?_, ?_, ?_⟩
  · intro id r m h hm more
    exact answer_type_of_filled h hm more
  · intro id m h more
    exact answer_of_attached h more
  · intro id e h more
    exact ⟨after_of_rejected h more, answer_of_rejected h more⟩

/-- A store of one module with one type, which declares nothing. -/
def lonelyStore : Store where
  modules := #[{ name := "app.dll" }]
  types := #[
    { module := ⟨0⟩, scope := "App", name := "Main", fullName := "App.Main", kind := .classType }]

theorem second_attachment_is_rejected :
    let c := after lonelyStore {} [.fillStaticConstructor ⟨0⟩, .everything]
    (∃ r, c.answer (.type ⟨0⟩) = .ok (.type r) ∧
      r.staticConstructor = some (.implicitStaticConstructor ⟨0⟩ "App.Main" false) ∧
      c.answer (.fillStaticConstructor ⟨0⟩) =
        .reject (.configuration r.fullName .staticConstructorPresent)) ∧
    c.askedTypeCount = 1 := by
  obtain ⟨-, -, -, -, hattached, -⟩ := remembering_is_transparent lonelyStore {} []
  exact ⟨hattached ⟨0⟩ _ rfl [.everything], by decide +kernel⟩

end Catalog

end TypeModel
