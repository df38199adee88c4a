import TypeModel.Catalog.Request
import TypeModel.Proofs.Memo
import TypeModel.Proofs.ProxyIndex

/-!
# Catalogs answer what the store alone would

A catalog is sound (`Catalog.Sound`) if everything that it remembers is what the store alone gives,
up to the static constructors that have been attached. A query keeps a catalog sound, and from a
sound catalog it gives the answer that is worked out without any memo (`Query.Gives`). The cell of a
type is entered before the record is built, so that the invariant allows for empty cells; it is only
the types with an attached static constructor whose cells have to be filled.
-/

namespace TypeModel

/-! ## What the store alone gives -/

namespace TypeRecord

/-- The record with a static constructor in its place: its own, or else a synthesized one. -/
def withStaticConstructor (r : TypeRecord) : TypeRecord :=
  match r.staticConstructor with
  | some _ => r
  | none =>
    { r with
      staticConstructor := some (Member.implicitStaticConstructor r.id r.fullName r.ignored) }

/-- The place of the static constructor is written once. -/
theorem fillStaticConstructor_of_some {r : TypeRecord} {m : Member}
    (h : r.staticConstructor = some m) : r.fillStaticConstructor =
      .error (.configuration r.fullName .staticConstructorPresent) := by
  unfold fillStaticConstructor
  rw [h]

theorem fillStaticConstructor_of_none {r : TypeRecord} (h : r.staticConstructor = none) :
    r.fillStaticConstructor = .ok (r.withStaticConstructor,
      Member.implicitStaticConstructor r.id r.fullName r.ignored) := by
  unfold fillStaticConstructor withStaticConstructor
  rw [h]

theorem withStaticConstructor_of_some {r : TypeRecord} {m : Member}
    (h : r.staticConstructor = some m) : r.withStaticConstructor = r := by
  unfold withStaticConstructor
  rw [h]

theorem withStaticConstructor_of_none {r : TypeRecord} (h : r.staticConstructor = none) :
    r.withStaticConstructor = { r with
      staticConstructor := some (Member.implicitStaticConstructor r.id r.fullName r.ignored) } := by
  unfold withStaticConstructor
  rw [h]

@[simp] theorem memberOfDecl?_withStaticConstructor (r : TypeRecord) (decl : DeclId) :
    r.withStaticConstructor.memberOfDecl? decl = r.memberOfDecl? decl := by
  unfold withStaticConstructor
  split <;> rfl

@[simp] theorem fullName_withStaticConstructor (r : TypeRecord) :
    r.withStaticConstructor.fullName = r.fullName := by
  unfold withStaticConstructor
  split <;> rfl

end TypeRecord

namespace Store

variable (store : Store) (names : Vocabulary) (filled : List TypeId)

/-- The record of a type, once static constructors have been attached to some types. -/
def typeRecord (id : TypeId) : Answer TypeRecord :=
  (TypeRecord.build store names id).map fun r => if id ∈ filled then r.withStaticConstructor else r

/-- The record of a member. -/
def memberRecord (decl : DeclId) : Answer Member := do
  let m ← store.asMember decl
  let owner ← .inRange (store.ownerOf? m)
  let r ← TypeRecord.build store names owner
  match r.memberOfDecl? decl with
  | some member => return member
  | none =>
    let name ← .inRange (store.qualifiedName? decl)
    .reject (.configuration name (.unlistedMember r.fullName))

/-- The types whose records are asked for when those of the given types are, which ends at the first
failure. -/
def upToFailure : List TypeId → List TypeId
  | [] => []
  | id :: rest =>
    id :: match TypeRecord.build store names id with
      | .ok _ => upToFailure rest
      | .error _ => []

/-- The type whose record is asked for when that of a member is. -/
def askedForMember (decl : DeclId) : List TypeId :=
  match store.asMember decl with
  | .ok m => (store.ownerOf? m).toList
  | .error _ => []

/-- The types whose records are asked for when all proxies that carry the marker and all types are:
none if a proxy cannot be built. -/
def askedForEverything : List TypeId :=
  match (store.markedTypes names).mapM (Proxy.build store names) with
  | .ok _ => store.upToFailure names store.typeIds
  | .error _ => []

/-- All proxies that carry the marker are built, then all types. -/
def typeRecords : Answer (List TypeRecord) := do
  let _ ← (store.markedTypes names).mapM (Proxy.build store names)
  store.typeIds.mapM (store.typeRecord names filled)

/-- The static constructor that an attachment puts into the record of a type. -/
def attachedConstructor (id : TypeId) : Answer Member := do
  let r ← store.typeRecord names filled id
  match r.staticConstructor with
  | some _ => .reject (.configuration r.fullName .staticConstructorPresent)
  | none => return Member.implicitStaticConstructor r.id r.fullName r.ignored

end Store

/-! ## Queries step by step -/

namespace Query

variable {α β : Type}

/-- A sequence of queries passes the catalog on, also when the first one fails. -/
theorem ask_bind (q : Query α) (f : α → Query β) (c : Catalog) :
    (q >>= f).ask c = match q.ask c with
      | (.ok a, c') => (f a).ask c'
      | (.error e, c') => (.error e, c') := by
  have h : (q >>= f).ask c = ExceptT.bindCont f (q.ask c).1 (q.ask c).2 := rfl
  rw [h]
  rcases q.ask c with ⟨_ | _, c'⟩ <;> rfl

/-- From every catalog with the first property the query gives the answer, and it leaves a catalog
with the second property. -/
def Gives (q : Query α) (answer : Answer α) (I J : Catalog → Prop) : Prop :=
  ∀ c, I c → (q.ask c).1 = answer ∧ J (q.ask c).2

variable {I J K : Catalog → Prop}

theorem gives_pure (a : α) : Gives (pure a) (.ok a) I I :=
  fun _ h => ⟨rfl, h⟩

theorem gives_ofAnswer (a : Answer α) : Gives (ofAnswer a) a I I :=
  fun _ h => ⟨rfl, h⟩

theorem gives_inRange (a : Option α) : Gives (inRange a) (Answer.inRange a) I I :=
  fun _ h => ⟨rfl, h⟩

theorem gives_throw (e : Failure) : Gives (throw e : Query α) (.error e) I I :=
  fun _ h => ⟨rfl, h⟩

/-- What is read from the catalog may be used if the answer does not depend on it. -/
theorem gives_get_bind {f : Catalog → Query β} {b : Answer β} (h : ∀ c, I c → Gives (f c) b I J) :
    Gives (get >>= f) b I J :=
  fun c hc => h c hc c hc

/-- A query goes on with the value of another only if that has one. -/
theorem Gives.bind {q : Query α} {f : α → Query β} {a : Answer α} {b : α → Answer β}
    (hq : Gives q a I J) (hok : ∀ x, a = .ok x → Gives (f x) (b x) J K)
    (herror : ∀ e, a = .error e → ∀ c, J c → K c) : Gives (q >>= f) (a >>= b) I K := by
  intro c hc
  obtain ⟨hanswer, hJ⟩ := hq c hc
  rw [ask_bind]
  rcases hask : q.ask c with ⟨e | x, c'⟩
  · rw [hask] at hanswer hJ
    subst hanswer
    exact ⟨rfl, herror e rfl c' hJ⟩
  · rw [hask] at hanswer hJ
    subst hanswer
    exact hok x rfl c' hJ

theorem Gives.bind_same {q : Query α} {f : α → Query β} {a : Answer α} {b : α → Answer β}
    (hq : Gives q a I I) (hf : ∀ x, a = .ok x → Gives (f x) (b x) I I) :
    Gives (q >>= f) (a >>= b) I I :=
  hq.bind hf fun _ _ _ h => h

theorem Gives.map {q : Query α} {a : Answer α} (hq : Gives q a I J) (f : α → β) :
    Gives (f <$> q) (a.map f) I J := by
  have h := hq.bind (f := fun x => pure (f x)) (b := fun x => .ok (f x)) (K := J)
    (fun x _ => gives_pure (f x)) fun _ _ _ h => h
  cases a with
  | error e => exact h
  | ok x => exact h

theorem Gives.mapM {f : α → Query β} {b : α → Answer β} {xs : List α}
    (h : ∀ x ∈ xs, Gives (f x) (b x) I I) : Gives (xs.mapM f) (xs.mapM b) I I := by
  induction xs with
  | nil => exact gives_pure []
  | cons x xs ih =>
    rw [List.mapM_cons, List.mapM_cons]
    refine (h x List.mem_cons_self).bind_same fun y _ => ?_
    refine (ih fun z hz => h z (List.mem_cons_of_mem _ hz)).bind_same fun ys _ => ?_
    exact gives_pure (y :: ys)

section Remember

variable {κ : Type} [DecidableEq κ] {memo : Catalog → Memo κ α}
  {withMemo : Catalog → Memo κ α → Catalog} {key : κ} {workOut : Query α}

/-- An answer that is remembered is given again, and nothing is worked out. -/
theorem ask_remember_of_some {c : Catalog} {a : Answer α} (h : (memo c).find? key = some a) :
    (remember memo withMemo key workOut).ask c = (a, c) := by
  unfold remember ask
  dsimp only [ExceptT.run, ExceptT.mk, bind, StateT.bind, get, getThe, MonadStateOf.get, StateT.get,
    pure]
  rw [h]
  rfl

/-- An answer that is not remembered is worked out after its cell has been entered. -/
theorem ask_remember_of_none {c : Catalog} (h : (memo c).find? key = none) :
    (remember memo withMemo key workOut).ask c =
      let r := workOut.ask (withMemo c ((memo c).enter key))
      (r.1, withMemo r.2 ((memo r.2).fill key r.1)) := by
  unfold remember ask
  dsimp only [ExceptT.run, ExceptT.mk, bind, StateT.bind, get, getThe, MonadStateOf.get, StateT.get,
    pure]
  rw [h]
  rfl

/-- What is remembered has to be the answer, and working it out has to give it. -/
theorem gives_remember {a : Answer α}
    (hfound : ∀ c, I c → ∀ a', (memo c).find? key = some a' → a' = a ∧ K c)
    (hmissing : ∀ c, I c → (memo c).find? key = none →
      J (withMemo c ((memo c).enter key)) ∧ Gives workOut a J J)
    (hfill : ∀ c, J c → K (withMemo c ((memo c).fill key a))) :
    Gives (remember memo withMemo key workOut) a I K := by
  intro c hc
  cases hfind : (memo c).find? key with
  | some a' =>
    obtain ⟨rfl, hK⟩ := hfound c hc a' hfind
    rw [ask_remember_of_some hfind]
    exact ⟨rfl, hK⟩
  | none =>
    obtain ⟨hJ, hwork⟩ := hmissing c hc hfind
    obtain ⟨hanswer, hJ'⟩ := hwork _ hJ
    rw [ask_remember_of_none hfind]
    refine ⟨hanswer, ?_⟩
    simp only [hanswer]
    exact hfill _ hJ'

end Remember

end Query

/-! ## Sound catalogs -/

/-- Everything that the catalog remembers is what the store alone gives, once static constructors
have been attached to the types in `filled`; and it has been asked for the types in `asked`. -/
structure Catalog.Sound (store : Store) (names : Vocabulary) (filled asked : List TypeId)
    (c : Catalog) : Prop where
  store_eq : c.store = store
  names_eq : c.names = names
  index_eq : ∀ index, c.index = some index → index = .ofStore store names
  modules : c.modules.Holds fun id => .inRange (ModuleRecord.build? store names id)
  proxies : c.proxies.Holds (Proxy.build store names)
  types : c.types.Holds (store.typeRecord names filled)
  kept : ∀ id ∈ filled, ∃ answer, c.types.find? id = some answer
  nodup : c.types.asked.Nodup
  asked_iff : ∀ id, id ∈ c.types.asked ↔ id ∈ asked

namespace Catalog

open Query

variable {store : Store} {names : Vocabulary} {filled asked : List TypeId}

/-- A catalog that remembers nothing is sound. -/
theorem sound_ofStore : Sound store names [] [] (ofStore store names) where
  store_eq := rfl
  names_eq := rfl
  index_eq := nofun
  modules := Memo.holds_empty
  proxies := Memo.holds_empty
  types := Memo.holds_empty
  kept := nofun
  nodup := List.Pairwise.nil
  asked_iff _ := Iff.rfl

theorem Sound.withModules {c : Catalog} (h : Sound store names filled asked c)
    {m : Memo ModuleId ModuleRecord}
    (hm : m.Holds fun id => .inRange (ModuleRecord.build? store names id)) :
    Sound store names filled asked (c.withModules m) :=
  ⟨h.store_eq, h.names_eq, h.index_eq, hm, h.proxies, h.types, h.kept, h.nodup, h.asked_iff⟩

theorem Sound.withProxies {c : Catalog} (h : Sound store names filled asked c)
    {m : Memo TypeId Proxy} (hm : m.Holds (Proxy.build store names)) :
    Sound store names filled asked (c.withProxies m) :=
  ⟨h.store_eq, h.names_eq, h.index_eq, h.modules, hm, h.types, h.kept, h.nodup, h.asked_iff⟩

/-- Only which types were asked for matters, not how often or in what order. -/
theorem Sound.congr_asked {c : Catalog} {asked' : List TypeId}
    (h : Sound store names filled asked c) (hasked : ∀ id, id ∈ asked ↔ id ∈ asked') :
    Sound store names filled asked' c :=
  { h with asked_iff := fun id => (h.asked_iff id).trans (hasked id) }

/-- The cell of a type may be entered before its record is known. -/
theorem Sound.enter {c : Catalog} (h : Sound store names filled asked c) (id : TypeId) :
    Sound store names filled (id :: asked) (c.withTypes (c.types.enter id)) where
  store_eq := h.store_eq
  names_eq := h.names_eq
  index_eq := h.index_eq
  modules := h.modules
  proxies := h.proxies
  types := h.types.enter id
  kept id' hid' := by
    obtain ⟨answer, hanswer⟩ := h.kept id' hid'
    exact ⟨answer, (c.types.find?_enter id id').trans hanswer⟩
  nodup := Memo.nodup_asked_enter _ _ h.nodup
  asked_iff id' := by
    refine (Memo.mem_asked_enter _ _ _).trans ?_
    rw [h.asked_iff, List.mem_cons, or_comm]

/-- Filling the cell of a type may go along with attaching a static constructor to it. -/
theorem Sound.fill {c : Catalog} {filled' : List TypeId} {id : TypeId}
    (h : Sound store names filled asked c) (hid : id ∈ asked)
    (hsub : ∀ id' ∈ filled', id' ∈ filled ∨ id' = id)
    (hne : ∀ id', id' ≠ id →
      store.typeRecord names filled' id' = store.typeRecord names filled id') :
    Sound store names filled' asked
      (c.withTypes (c.types.fill id (store.typeRecord names filled' id))) where
  store_eq := h.store_eq
  names_eq := h.names_eq
  index_eq := h.index_eq
  modules := h.modules
  proxies := h.proxies
  types := h.types.fill hne
  kept id' hid' := by
    by_cases heq : id' = id
    · subst heq
      exact ⟨_, Memo.find?_fill_self _ _ _ ((h.asked_iff id').2 hid)⟩
    · obtain ⟨answer, hanswer⟩ := h.kept id' ((hsub id' hid').resolve_right heq)
      exact ⟨answer, (Memo.find?_fill_of_ne _ _ _ heq).trans hanswer⟩
  nodup := by
    show (c.types.fill id _).asked.Nodup
    rw [Memo.asked_fill]
    exact h.nodup
  asked_iff id' := by
    show id' ∈ (c.types.fill id _).asked ↔ _
    rw [Memo.asked_fill]
    exact h.asked_iff id'

/-! ## Records -/

section Records

theorem gives_moduleRecord (id : ModuleId) :
    Gives (moduleRecord id) (.inRange (ModuleRecord.build? store names id))
      (Sound store names filled asked) (Sound store names filled asked) := by
  refine gives_remember (J := Sound store names filled asked)
    (fun c hc a' ha' => ⟨hc.modules id a' ha', hc⟩)
    (fun c hc _ => ⟨hc.withModules (hc.modules.enter id), ?_⟩)
    (fun c hc => hc.withModules (hc.modules.fill fun _ _ => rfl))
  refine gives_get_bind fun c' hc' => ?_
  rw [hc'.store_eq, hc'.names_eq]
  exact gives_inRange _

theorem gives_proxyRecord (id : TypeId) :
    Gives (proxyRecord id) (Proxy.build store names id)
      (Sound store names filled asked) (Sound store names filled asked) := by
  refine gives_remember (J := Sound store names filled asked)
    (fun c hc a' ha' => ⟨hc.proxies id a' ha', hc⟩)
    (fun c hc _ => ⟨hc.withProxies (hc.proxies.enter id), ?_⟩)
    (fun c hc => hc.withProxies (hc.proxies.fill fun _ _ => rfl))
  refine gives_get_bind fun c' hc' => ?_
  rw [hc'.store_eq, hc'.names_eq]
  exact gives_ofAnswer _

/-- The index of proxies is the one that a scan of the store gives, whenever it was made. -/
theorem gives_proxyIndex :
    Gives proxyIndex (.ok (ProxyIndex.ofStore store names))
      (Sound store names filled asked) (Sound store names filled asked) := by
  refine gives_get_bind fun c hc => ?_
  cases hindex : c.index with
  | some index =>
    rw [hc.index_eq index hindex]
    exact gives_pure _
  | none =>
    rw [hc.store_eq, hc.names_eq]
    intro c' hc'
    refine ⟨rfl, { hc' with index_eq := ?_ }⟩
    rintro index heq
    exact (Option.some.inj heq).symm

/-- The proxies of a type are those that the index names, each built once. -/
theorem gives_proxyRecords (id : TypeId) :
    Gives (proxyRecords id) (store.proxiesOf names id)
      (Sound store names filled asked) (Sound store names filled asked) := by
  refine gives_get_bind fun c hc => ?_
  rw [hc.store_eq]
  refine (gives_inRange _).bind_same fun t _ => ?_
  refine gives_proxyIndex.bind_same
    (b := fun index => (index.proxiesOf t.fullName).mapM (Proxy.build store names))
    fun index _ => ?_
  exact Gives.mapM fun p _ => gives_proxyRecord p

/-- Building a record asks for the module and the proxies of the type, and for no other record. -/
theorem gives_workOutTypeRecord (id : TypeId) :
    Gives (workOutTypeRecord id) (TypeRecord.build store names id)
      (Sound store names filled asked) (Sound store names filled asked) := by
  refine gives_get_bind fun c hc => ?_
  rw [hc.store_eq, hc.names_eq]
  refine (gives_inRange _).bind_same fun t _ => ?_
  refine (gives_moduleRecord t.module).bind_same fun module _ => ?_
  refine (gives_proxyRecords id).bind_same fun proxies _ => ?_
  exact gives_ofAnswer _

theorem typeRecord_of_not_mem {id : TypeId} (h : id ∉ filled) :
    store.typeRecord names filled id = TypeRecord.build store names id := by
  unfold Store.typeRecord
  simp only [if_neg h]
  exact congrFun Except.map_id _

/-- The record of a type is worked out at most once, before a static constructor is attached. -/
theorem gives_typeRecord (id : TypeId) :
    Gives (typeRecord id) (store.typeRecord names filled id) (Sound store names filled asked)
      fun c => Sound store names filled (id :: asked) c ∧
        ∃ answer, c.types.find? id = some answer := by
  refine gives_remember (J := Sound store names filled (id :: asked)) ?_ ?_ ?_
  · intro c hc a' ha'
    have hasked : id ∈ asked := (hc.asked_iff id).1 (Memo.mem_asked_of_find? _ _ ha')
    refine ⟨hc.types id a' ha', hc.congr_asked fun id' => ?_, a', ha'⟩
    rw [List.mem_cons]
    refine ⟨.inr, ?_⟩
    rintro (rfl | h)
    · exact hasked
    · exact h
  · intro c hc hnone
    have hunfilled : id ∉ filled := by
      intro hid
      obtain ⟨answer, hanswer⟩ := hc.kept id hid
      rw [hnone] at hanswer
      cases hanswer
    rw [typeRecord_of_not_mem hunfilled]
    exact ⟨hc.enter id, gives_workOutTypeRecord id⟩
  · intro c hc
    have hid : id ∈ id :: asked := List.mem_cons_self
    exact ⟨hc.fill hid (fun _ => .inl) fun _ _ => rfl, store.typeRecord names filled id,
      Memo.find?_fill_self _ _ _ ((hc.asked_iff id).2 hid)⟩

end Records

/-! ## Members, attached constructors and the whole store -/

section Composite

/-- A record with a static constructor attached differs from the one that is built in that alone. -/
theorem typeRecord_eq_ok {id : TypeId} {x : TypeRecord}
    (h : store.typeRecord names filled id = .ok x) :
    ∃ r, TypeRecord.build store names id = .ok r ∧
      x = if id ∈ filled then r.withStaticConstructor else r := by
  unfold Store.typeRecord at h
  cases hr : TypeRecord.build store names id with
  | error e => rw [hr] at h; cases h
  | ok r => rw [hr] at h; cases h; exact ⟨r, rfl, rfl⟩

/-- A record that cannot be built cannot be had with a static constructor attached either. -/
theorem typeRecord_of_error {id : TypeId} {e : Failure}
    (h : TypeRecord.build store names id = .error e) :
    store.typeRecord names filled id = .error e := by
  unfold Store.typeRecord
  rw [h]
  rfl

theorem typeRecord_of_ok {id : TypeId} {r : TypeRecord}
    (h : TypeRecord.build store names id = .ok r) :
    store.typeRecord names filled id =
      .ok (if id ∈ filled then r.withStaticConstructor else r) := by
  unfold Store.typeRecord
  rw [h]
  rfl

/-- Members are the same whether or not a static constructor has been attached. -/
theorem memberRecord_eq (filled : List TypeId) (decl : DeclId) : store.memberRecord names decl = (do
    let m ← store.asMember decl
    let owner ← .inRange (store.ownerOf? m)
    let r ← store.typeRecord names filled owner
    match r.memberOfDecl? decl with
    | some member => return member
    | none =>
      let name ← .inRange (store.qualifiedName? decl)
      .reject (.configuration name (.unlistedMember r.fullName))) := by
  unfold Store.memberRecord
  refine bind_congr fun m => bind_congr fun owner => ?_
  cases hr : TypeRecord.build store names owner with
  | error e => rw [typeRecord_of_error hr]
  | ok r =>
    rw [typeRecord_of_ok hr]
    by_cases hid : owner ∈ filled
    · simp only [if_pos hid, bind, Except.bind, TypeRecord.memberOfDecl?_withStaticConstructor,
        TypeRecord.fullName_withStaticConstructor]
    · simp only [if_neg hid]

/-- Asking for a member asks for the record of the type that declares it. -/
theorem askedForMember_of_ok {decl : DeclId} {m : MemberId} (h : store.asMember decl = .ok m) :
    store.askedForMember decl = (store.ownerOf? m).toList := by
  unfold Store.askedForMember
  rw [h]

theorem askedForMember_of_error {decl : DeclId} {e : Failure}
    (h : store.asMember decl = .error e) : store.askedForMember decl = [] := by
  unfold Store.askedForMember
  rw [h]

/-- Members are looked up in the record of the type that declares them. -/
theorem gives_memberRecord (decl : DeclId) :
    Gives (memberRecord decl) (store.memberRecord names decl) (Sound store names filled asked)
      (Sound store names filled (store.askedForMember decl ++ asked)) := by
  rw [memberRecord_eq filled]
  refine gives_get_bind fun c hc => ?_
  rw [hc.store_eq]
  refine (gives_ofAnswer _).bind (fun m hm => ?_) fun e he => ?_
  · rw [askedForMember_of_ok hm]
    refine (gives_inRange _).bind (fun owner howner => ?_) fun e he => ?_
    · rw [inRange_eq_ok.1 howner]
      refine (gives_typeRecord owner).bind (fun r _ => ?_) fun _ _ _ h => h.1
      intro c' hc'
      cases r.memberOfDecl? decl with
      | some member => exact ⟨rfl, hc'.1⟩
      | none =>
        exact Gives.bind (gives_inRange _) (fun name _ => gives_throw _) (fun _ _ _ h => h) c' hc'.1
    · intro c' hc'
      cases howner : store.ownerOf? m with
      | none => exact hc'
      | some owner => rw [howner] at he; cases he
  · rw [askedForMember_of_error he]
    exact fun _ h => h

/-- All types are asked for in order until one fails. -/
theorem gives_mapM_typeRecord (ids : List TypeId) :
    Gives (ids.mapM typeRecord) (ids.mapM (store.typeRecord names filled))
      (Sound store names filled asked)
      (Sound store names filled (store.upToFailure names ids ++ asked)) := by
  induction ids generalizing asked with
  | nil => exact gives_pure []
  | cons id rest ih =>
    rw [List.mapM_cons, List.mapM_cons, Store.upToFailure]
    refine (gives_typeRecord id).bind (fun x hx => ?_) fun e he => ?_
    · obtain ⟨r, hr, -⟩ := typeRecord_eq_ok hx
      rw [hr]
      have hasked : ∀ id', id' ∈ store.upToFailure names rest ++ id :: asked ↔
          id' ∈ (id :: store.upToFailure names rest) ++ asked := fun id' =>
        List.perm_middle.mem_iff
      have hrest : Gives (rest.mapM typeRecord) (rest.mapM (store.typeRecord names filled))
          (Sound store names filled (id :: asked)) _ := ih
      intro c hc
      refine hrest.bind (K := Sound store names filled _)
        (fun xs _ => ?_) (fun _ _ c h => h.congr_asked hasked) c hc.1
      exact fun c' hc' => ⟨rfl, hc'.congr_asked hasked⟩
    · cases hr : TypeRecord.build store names id with
      | error e' => exact fun c hc => hc.1
      | ok r => rw [typeRecord_of_ok hr] at he; cases he

/-- Building everything stops at the first failure, as the store alone does. -/
theorem gives_buildAll :
    Gives buildAll (store.typeRecords names filled) (Sound store names filled asked)
      (Sound store names filled (store.askedForEverything names ++ asked)) := by
  unfold Store.typeRecords Store.askedForEverything
  rw [← ProxyIndex.marked_ofStore]
  refine gives_proxyIndex.bind (b := fun index => do
    let _ ← index.marked.mapM (Proxy.build store names)
    store.typeIds.mapM (store.typeRecord names filled)) (fun index hindex => ?_) nofun
  cases hindex
  refine (Gives.mapM fun p _ => gives_proxyRecord p).bind (fun proxies hproxies => ?_)
    fun e he => ?_
  · refine gives_get_bind fun c hc => ?_
    rw [hc.store_eq, hproxies]
    exact gives_mapM_typeRecord store.typeIds
  · rw [he]
    exact fun _ h => h

/-- Attaching to another type leaves the record as it is. -/
theorem typeRecord_cons {id id' : TypeId} (h : id' ≠ id) :
    store.typeRecord names (id :: filled) id' = store.typeRecord names filled id' := by
  unfold Store.typeRecord
  simp only [List.mem_cons, h, false_or]

/-- An attachment that changes nothing for its own type changes nothing at all. -/
theorem typeRecord_cons_of_same {id : TypeId}
    (h : store.typeRecord names (id :: filled) id = store.typeRecord names filled id) :
    store.typeRecord names (id :: filled) = store.typeRecord names filled := by
  funext id'
  by_cases hid : id' = id
  · rw [hid, h]
  · exact typeRecord_cons hid

theorem typeRecord_cons_self {id : TypeId} {x : TypeRecord}
    (h : store.typeRecord names filled id = .ok x) :
    store.typeRecord names (id :: filled) id = .ok x.withStaticConstructor := by
  obtain ⟨r, hr, rfl⟩ := typeRecord_eq_ok h
  rw [typeRecord_of_ok hr, if_pos List.mem_cons_self]
  by_cases hid : id ∈ filled
  · rw [if_pos hid]
    cases hctor : r.staticConstructor with
    | some m =>
      have hsame := TypeRecord.withStaticConstructor_of_some hctor
      rw [hsame, hsame]
    | none =>
      rw [TypeRecord.withStaticConstructor_of_none hctor]
      rfl
  · rw [if_neg hid]

/-- A request to attach a static constructor counts, whether or not it is rejected. -/
theorem Sound.cons_filled {c : Catalog} {id : TypeId} (h : Sound store names filled asked c)
    (hkept : ∃ answer, c.types.find? id = some answer)
    (hsame : store.typeRecord names (id :: filled) id = store.typeRecord names filled id) :
    Sound store names (id :: filled) asked c := by
  refine { h with types := ?_, kept := ?_ }
  · rw [typeRecord_cons_of_same hsame]
    exact h.types
  · intro id' hid'
    rcases List.mem_cons.1 hid' with rfl | hid'
    · exact hkept
    · exact h.kept id' hid'

/-- An attachment writes to the remembered record, from which the next answer is taken. -/
theorem gives_fillStaticConstructor (id : TypeId) :
    Gives (fillStaticConstructor id) (store.attachedConstructor names filled id)
      (Sound store names filled asked) (Sound store names (id :: filled) (id :: asked)) := by
  refine (gives_typeRecord id).bind (fun x hx => ?_) fun e he c hc => ?_
  · rintro c ⟨hc, hkept⟩
    have hself := typeRecord_cons_self hx
    cases hctor : x.staticConstructor with
    | some m =>
      rw [TypeRecord.withStaticConstructor_of_some hctor, ← hx] at hself
      rw [TypeRecord.fillStaticConstructor_of_some hctor]
      exact ⟨rfl, hc.cons_filled hkept hself⟩
    | none =>
      rw [TypeRecord.fillStaticConstructor_of_none hctor]
      refine ⟨rfl, ?_⟩
      have hfill : Sound store names (id :: filled) _ _ := hc.fill List.mem_cons_self
        (fun id' hid' => (List.mem_cons.1 hid').symm) fun id' hid' => typeRecord_cons hid'
      rw [hself] at hfill
      exact hfill
  · refine hc.1.cons_filled hc.2 ?_
    rw [he]
    cases hr : TypeRecord.build store names id with
    | error e' => rw [typeRecord_of_error hr, ← he, typeRecord_of_error hr]
    | ok r => rw [typeRecord_of_ok hr] at he; cases he

end Composite

end Catalog

end TypeModel
