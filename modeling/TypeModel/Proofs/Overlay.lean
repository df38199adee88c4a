import TypeModel.Proofs.TypeRecord

/-!
# What proxies add to a record

The record of a type has the members that the type lists itself, followed by what each of its
proxies contributes, in order. Nothing that a proxy offers gets lost: some member of the record
agrees with it. And nothing is there twice: a contributed member agrees with no other member, though
agreement is not transitive and the table grows while it is searched
(`TypeRecord.overlay_of_build`).
-/

namespace TypeModel

namespace TypeRecord

/-- The entries of a record, parted into those that the type has of its own and what each proxy
contributes. -/
structure Overlay (store : Store) (t : TypeDecl) (r : TypeRecord)
    (own : List (Identifier × Member)) (contributed : List (List (Identifier × Member))) :
    Prop where
  entries_eq : r.members.entries = own ++ contributed.flatten
  /-- Members stand under the identifiers of their declarations. -/
  keyed : ∀ e ∈ r.members.entries, ∃ m, e.2.decl = .member m ∧ store.identifier? m = some e.1
  /-- A type's own members are those that it lists and their accessors. -/
  own_iff : ∀ m, (∃ e ∈ own, e.2.decl = .member m) ↔ m ∈ store.ownMembers t
  not_own : ∀ e ∈ contributed.flatten, ∀ m ∈ store.ownMembers t, e.2.decl ≠ .member m
  /-- What a proxy offers is what its type lists. -/
  offered : ∀ p ∈ r.proxies, ∃ u, store.type? p.id = some u ∧ p.members.values = u.offeredMembers
  /-- For whatever a proxy offers, a lookup finds a member that agrees with it. -/
  complete : ∀ p ∈ r.proxies, ∀ entry ∈ p.members.entries,
    store.identifier? entry.2 = some entry.1 ∧
    ∃ e ∈ r.members.entries, e.1.agrees entry.1 ∧ r.member? entry.1 = some e.2
  /-- A contributed member agrees with no other member. -/
  distinct : ∀ i j e e', i ≠ j → own.length ≤ i → r.members.entries[i]? = some e →
    r.members.entries[j]? = some e' → e.1.agrees e'.1 = false
  /-- A contributed member backs itself, and it is no overload. -/
  plain : ∀ e ∈ contributed.flatten,
    e.2.backing = e.2.decl ∧ e.2.details.overloadIndex = none
  /-- What a proxy contributes it offers, or it is an accessor of something else that it
  contributes. -/
  source : List.Forall₂ (fun p chunk => ∀ e ∈ chunk,
    (∃ m ∈ p.members.values, e.2.decl = .member m) ∨
    ∃ owner ∈ chunk, ∃ o d, owner.2.decl = .member o ∧ store.member? o = some d ∧
      ∃ a ∈ d.accessors, e.2.decl = .member (.method a)) r.proxies contributed

/-! ## Members and their slots -/

/-- What a member takes over from its slot. -/
structure Fills (t : TypeDecl) (slot : Slot) (m : Member) : Prop where
  decl_eq : m.decl = .member slot.member
  backing_eq : slot.origin = .proxy → m.backing = .member slot.member
  not_overload : (∀ id ∈ t.methods, slot.member ≠ .method id) → m.details.overloadIndex = none

section Fills

variable {store : Store} {names : Vocabulary} {id : TypeId} {t : TypeDecl} {proxies : List Proxy}
  {typeIgnored : Bool} {drafts : IdentifierMap MemberDraft} {slot : Slot} {draft : MemberDraft}
  {m : Member} {r : TypeRecord}

theorem overloadIndex_withOverloadIndex_none (details : MemberDetails) :
    (details.withOverloadIndex none).overloadIndex = none := by
  cases details <;> rfl

/-- What is finished from a draft of a slot fills the slot. -/
theorem fills_of_finish (hdraft : MemberDraft.ofSlot? store names proxies slot = some draft)
    (hm : finishMember names id typeIgnored (.ofDrafts t drafts) draft = .ok m) :
    Fills t slot m := by
  obtain ⟨inherited, d, -, -, hmember, hcore, -, -⟩ := MemberDraft.ofSlot?_eq_some hdraft
  obtain ⟨visible, -, rfl⟩ := finishMember_eq_ok hm
  refine ⟨congrArg DeclId.member hmember, fun horigin => ?_, fun hnone => ?_⟩
  · rw [horigin] at hcore
    exact congrArg DeclId.member (MemberCore.backing_of_proxy hcore)
  · have hindex : (Overloads.ofDrafts t drafts).index? draft.member = none := by
      cases h : (Overloads.ofDrafts t drafts).index? draft.member with
      | none => rfl
      | some i =>
        obtain ⟨method, hmethod, heq⟩ := Overloads.mem_methods_of_index? h
        exact absurd (hmember.symm.trans heq) (hnone method hmethod)
    show (draft.details.withOverloadIndex _).overloadIndex = none
    rw [hindex]
    exact overloadIndex_withOverloadIndex_none _

/-- The members of a record fill the slots of the roster, one for one and under the same
identifiers. -/
theorem fills_of_build (h : build store names id = .ok r) : ∃ t roster,
    store.type? id = some t ∧ store.proxiesOf names id = .ok r.proxies ∧
    Roster.build? store t r.proxies = some roster ∧ roster.Replaces (Fills t) r.members := by
  obtain ⟨t, roster, drafts, ht, hproxies, hroster, hdrafts, hmembers⟩ := roster_of_build h
  refine ⟨t, roster, ht, hproxies, hroster, ?_⟩
  have htrans := hdrafts.trans hmembers
  refine ⟨htrans.buckets_eq, htrans.entries.imp fun e e' he => ?_⟩
  obtain ⟨hkey, draft, hdraft, hm⟩ := he
  exact ⟨hkey, fills_of_finish hdraft hm⟩

/-- An entry has the identifier of the member that it declares. -/
theorem keyed_of_fills {roster : Roster} (hfills : roster.Replaces (Fills t) r.members)
    (hsound : Roster.Sound store roster) {e : Identifier × Member} (he : e ∈ r.members.entries) :
    ∃ m, e.2.decl = .member m ∧ store.identifier? m = some e.1 := by
  obtain ⟨entry, hentry, hkey, hmember⟩ := exists_of_mem_right hfills.entries he
  rw [hkey]
  exact ⟨entry.2.member, hmember.decl_eq, hsound.keyed entry hentry⟩

/-- Members stand under the identifiers of their declarations. -/
theorem keyed_of_build (h : build store names id = .ok r) {e : Identifier × Member}
    (he : e ∈ r.members.entries) : ∃ m, e.2.decl = .member m ∧ store.identifier? m = some e.1 := by
  obtain ⟨t, roster, ht, hproxies, hroster, hfills⟩ := fills_of_build h
  have htabulated := Proxy.tabulated_of_proxiesOf ht hproxies
  exact keyed_of_fills hfills (Roster.sound_of_build? hroster htabulated) he

end Fills

/-! ## The overlay -/

section Overlay

variable {store : Store} {names : Vocabulary} {id : TypeId} {t : TypeDecl} {r : TypeRecord}

/-- Related entries: the same identifier, and a member that fills the slot. -/
def FillsEntry (t : TypeDecl) (e : Identifier × Slot) (e' : Identifier × Member) : Prop :=
  e'.1 = e.1 ∧ Fills t e.2 e'.2

/-- What a proxy contributes is a member that it offers or an accessor of such a member. -/
theorem source_of_chunks {proxies : List Proxy} {chunks : List (List (Identifier × Slot))}
    {contributed : List (List (Identifier × Member))}
    (hchunks : List.Forall₂ (fun p chunk => ∀ entry ∈ chunk,
      entry.2.origin = .proxy ∧ Roster.Reached store p.members.values chunk entry.2) proxies chunks)
    (hfills : List.Forall₂ (List.Forall₂ (FillsEntry t)) chunks contributed) :
    List.Forall₂ (fun p chunk => ∀ e ∈ chunk,
      (∃ m ∈ p.members.values, e.2.decl = .member m) ∨
      ∃ owner ∈ chunk, ∃ o d, owner.2.decl = .member o ∧ store.member? o = some d ∧
        ∃ a ∈ d.accessors, e.2.decl = .member (.method a)) proxies contributed := by
  induction hchunks generalizing contributed with
  | nil =>
    cases hfills
    exact .nil
  | cons hchunk _ ih =>
    cases hfills with
    | cons hfill hrest =>
      refine .cons (fun e he => ?_) (ih hrest)
      obtain ⟨entry, hentry, -, hmember⟩ := exists_of_mem_right hfill he
      have hreached := (hchunk entry hentry).2
      unfold Roster.Reached at hreached
      rw [hmember.decl_eq]
      cases haccessor : entry.2.accessorOf with
      | none =>
        rw [haccessor] at hreached
        exact .inl ⟨_, hreached, rfl⟩
      | some o =>
        rw [haccessor] at hreached
        obtain ⟨⟨slot, hslot, heq⟩, d, hd, a, ha, hmethod⟩ := hreached
        obtain ⟨owner, howner, -, hfilled⟩ := exists_of_mem_left hfill hslot
        refine .inr ⟨owner, howner, o, d, ?_, hd, a, ha, congrArg DeclId.member hmethod⟩
        rw [hfilled.decl_eq, heq]

theorem exists_of_contains {roster : Roster} (hfills : roster.Replaces (Fills t) r.members)
    (hsound : Roster.Sound store roster) {key : Identifier} (hkey : roster.contains key) :
    ∃ e ∈ r.members.entries, e.1.agrees key ∧ r.member? key = some e.2 := by
  have hfiled := hsound.filed.replaces hfills
  obtain ⟨entry, hentry, hagrees⟩ := (hsound.filed.contains_iff key).1 hkey
  obtain ⟨e, he, hkeyEq, -⟩ := exists_of_mem_left hfills.entries hentry
  rw [← hkeyEq] at hagrees
  obtain ⟨m, hm⟩ := hfiled.exists_get? ((hfiled.contains_iff key).2 ⟨e, he, hagrees⟩)
  obtain ⟨found, hfound, hfoundAgrees, rfl⟩ := hfiled.get?_eq_some hm
  exact ⟨found, hfound, hfoundAgrees, hm⟩

/-- No contributed member agrees with a member before it. -/
theorem distinct_of_fresh {roster : Roster} {n : Nat}
    (hfills : roster.Replaces (Fills t) r.members) (hfresh : Roster.FreshFrom n roster) (i j : Nat)
    (e e' : Identifier × Member) (hij : i ≠ j) (hi : n ≤ i)
    (he : r.members.entries[i]? = some e) (he' : r.members.entries[j]? = some e') :
    e.1.agrees e'.1 = false := by
  obtain ⟨x, hx, hkey, -⟩ := exists_of_getElem?_right hfills.entries he
  obtain ⟨x', hx', hkey', -⟩ := exists_of_getElem?_right hfills.entries he'
  rw [hkey, hkey']
  rcases Nat.lt_or_gt_of_ne hij with hlt | hgt
  · exact hfresh i j x x' hlt (by omega) hx hx'
  · rw [Identifier.agrees_comm]
    exact hfresh j i x' x hgt hi hx' hx

/-- The record of a type is an overlay of what its proxies contribute on what it lists itself. -/
theorem overlay_of_build (h : build store names id = .ok r) :
    ∃ t own contributed, store.type? id = some t ∧ store.proxiesOf names id = .ok r.proxies ∧
      r.Overlay store t own contributed := by
  obtain ⟨t, roster, ht, hproxies, hroster, hfills⟩ := fills_of_build h
  have hbuilt : ∀ p ∈ r.proxies, Proxy.build store names p.id = .ok p :=
    fun p hp => ((Store.mem_proxiesOf ht hproxies p).1 hp).1
  have htabulated : ∀ p ∈ r.proxies, Roster.Tabulated store p :=
    fun p hp => Proxy.tabulated_of_build (hbuilt p hp)
  obtain ⟨base, hbase, -, hsound, hfresh, ⟨chunks, heq, hchunks⟩, hcontains⟩ :=
    Roster.build?_eq_some hroster htabulated
  have hentries : List.Forall₂ (FillsEntry t) (base.entries ++ chunks.flatten) r.members.entries :=
    heq ▸ hfills.entries
  obtain ⟨own, rest, hown, hownFills, hrestFills⟩ := split_of_forall₂_append hentries
  obtain ⟨contributed, rfl, hchunkFills⟩ := split_of_forall₂_flatten hrestFills
  have hforeign : ∀ entry ∈ chunks.flatten, ∀ m ∈ store.ownMembers t, entry.2.member ≠ m := by
    rintro entry hentry m hm rfl
    exact hfresh.not_lists hsound heq hentry ((Roster.lists_of_ofType? hbase _).2 hm)
  have hflat : List.Forall₂ (FillsEntry t) chunks.flatten contributed.flatten := hrestFills
  have hproxyOrigin : ∀ entry ∈ chunks.flatten, entry.2.origin = .proxy := by
    intro entry hentry
    obtain ⟨chunk, hchunk, hmem⟩ := List.mem_flatten.1 hentry
    obtain ⟨p, -, hp⟩ := exists_of_mem_right hchunks hchunk
    exact (hp entry hmem).1
  refine ⟨t, own, contributed, ht, hproxies, ?_⟩
  constructor
  case entries_eq => exact hown
  case keyed => exact fun e he => keyed_of_fills hfills hsound he
  case own_iff =>
    intro m
    rw [← Roster.lists_of_ofType? hbase, Roster.lists_iff]
    constructor
    · rintro ⟨e, he, hdecl⟩
      obtain ⟨entry, hentry, -, hmember⟩ := exists_of_mem_right hownFills he
      rw [hmember.decl_eq] at hdecl
      exact ⟨entry, hentry, DeclId.member.inj hdecl⟩
    · rintro ⟨entry, hentry, rfl⟩
      obtain ⟨e, he, -, hmember⟩ := exists_of_mem_left hownFills hentry
      exact ⟨e, he, hmember.decl_eq⟩
  case not_own =>
    intro e he m hm hdecl
    obtain ⟨entry, hentry, -, hmember⟩ := exists_of_mem_right hflat he
    rw [hmember.decl_eq] at hdecl
    exact hforeign entry hentry m hm (DeclId.member.inj hdecl)
  case offered =>
    intro p hp
    exact Proxy.values_of_build (hbuilt p hp)
  case complete =>
    intro p hp entry hentry
    exact ⟨htabulated p hp entry hentry,
      exists_of_contains hfills hsound (hcontains p hp entry hentry)⟩
  case distinct =>
    rw [← hownFills.length_eq]
    exact distinct_of_fresh hfills hfresh
  case plain =>
    intro e he
    obtain ⟨entry, hentry, -, hmember⟩ := exists_of_mem_right hflat he
    refine ⟨?_, hmember.not_overload fun method hmethod => ?_⟩
    · rw [hmember.decl_eq]
      exact hmember.backing_eq (hproxyOrigin entry hentry)
    · exact hforeign entry hentry _ (List.mem_append_right _ (List.mem_map_of_mem hmethod))
  case source => exact source_of_chunks hchunks hchunkFills

/-- A store with a type that lists a field, and a proxy that lists a field like it and a property
with a getter. -/
def lendingStore : Store where
  modules := #[{ name := "app.dll" }]
  types := #[
    { module := ⟨0⟩, scope := "", name := "Main", fullName := "Main", kind := .classType
      fields := [⟨0⟩] },
    { module := ⟨0⟩, scope := "", name := "Lender", fullName := "Lender", kind := .classType
      fields := [⟨1⟩], properties := [⟨0⟩]
      annotations := [{ kind := "Xlate.Meta.ProxyAttribute", args := [.str "Main"] }] }]
  fields := #[
    { owner := ⟨0⟩, name := "size", type := .plain "System.Int32" },
    { owner := ⟨1⟩, name := "size", type := .param .type 0 "T" }]
  properties := #[
    { owner := ⟨1⟩, name := "Size", type := .plain "System.Int32", getter := some ⟨0⟩ }]
  methods := #[{ owner := ⟨1⟩, name := "get_Size", returns := .plain "System.Int32" }]

/-- The getter of a property that a proxy lends comes with it, right behind it. -/
theorem lent_property_brings_its_getter :
    ∃ r, build lendingStore {} ⟨0⟩ = .ok r ∧
      r.members.values.map Member.decl = [.member (.field ⟨0⟩), .member (.property ⟨0⟩),
        .member (.method ⟨0⟩)] ∧
      ∃ t own contributed, lendingStore.type? ⟨0⟩ = some t ∧
        lendingStore.proxiesOf {} ⟨0⟩ = .ok r.proxies ∧
        r.Overlay lendingStore t own contributed :=
  ⟨_, rfl, rfl, overlay_of_build rfl⟩

end Overlay

end TypeRecord

end TypeModel
