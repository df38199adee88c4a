import TypeModel.Proofs.CatalogRun
import TypeModel.Proofs.Listing
import TypeModel.Proofs.Overlay
import TypeModel.Proofs.Slots

/-!
# Records cover their members

If the lists of a type name no member twice, neither does its record, and looking for a declaration
finds the only member made from it (`TypeRecord.Covers`). Methods come into a record through
properties, through events and from the list of methods, which exclude each other by declaration;
what proxies contribute is guarded by identifier alone, and a member agrees with itself. In a store
filled by registration every member can so be had from the record of the type that declares it
(`Catalog.members_are_covered`).
-/

namespace TypeModel

/-! ## Lists without repetition -/

/-- No list of a type names a member twice. -/
structure TypeDecl.ListsOnce (t : TypeDecl) : Prop where
  fields : t.fields.Nodup
  properties : t.properties.Nodup
  events : t.events.Nodup
  methods : t.methods.Nodup

namespace TypeDecl

variable {t : TypeDecl}

theorem ListsOnce.nodup_dataMembers (h : t.ListsOnce) : t.dataMembers.Nodup := by
  have hfields : (t.fields.map MemberId.field).Nodup := h.fields.map fun _ _ => MemberId.field.inj
  have hproperties : (t.properties.map MemberId.property).Nodup :=
    h.properties.map fun _ _ => MemberId.property.inj
  have hevents : (t.events.map MemberId.event).Nodup := h.events.map fun _ _ => MemberId.event.inj
  unfold dataMembers
  refine List.nodup_append.2 ⟨List.nodup_append.2 ⟨hfields, hproperties, ?_⟩, hevents, ?_⟩
  · intro m hm m' hm' heq
    obtain ⟨id, -, rfl⟩ := List.mem_map.1 hm
    obtain ⟨id', -, rfl⟩ := List.mem_map.1 hm'
    cases heq
  · intro m hm m' hm' heq
    obtain ⟨id', -, rfl⟩ := List.mem_map.1 hm'
    rcases List.mem_append.1 hm with hm | hm
    · obtain ⟨id, -, rfl⟩ := List.mem_map.1 hm
      cases heq
    · obtain ⟨id, -, rfl⟩ := List.mem_map.1 hm
      cases heq

theorem listsOnce_of_nodup (h : t.offeredMembers.Nodup) : t.ListsOnce := by
  unfold offeredMembers at h
  obtain ⟨hdata, hmethods, -⟩ := List.nodup_append.1 h
  obtain ⟨hrest, hfields, -⟩ := List.nodup_append.1 hdata
  obtain ⟨hproperties, hevents, -⟩ := List.nodup_append.1 hrest
  exact ⟨hfields.of_map _, hproperties.of_map _, hevents.of_map _, hmethods.of_map _⟩

end TypeDecl

/-- What a type lists is its own. -/
theorem Store.mem_ownMembers_of_listed {store : Store} {t : TypeDecl} {m : MemberId}
    (h : m ∈ t.offeredMembers) : m ∈ store.ownMembers t := by
  unfold Store.ownMembers
  rw [List.mem_append, List.mem_flatMap]
  by_cases hmethod : m ∈ t.methods.map MemberId.method
  · exact .inr hmethod
  · refine .inl ⟨m, ?_, List.mem_cons_self⟩
    unfold TypeDecl.offeredMembers at h
    unfold TypeDecl.dataMembers
    simp only [List.mem_append] at h ⊢
    grind

/-! ## What a record covers -/

/-- Whether a declaration is that of an instance constructor. -/
def Store.declaresConstructor (store : Store) : DeclId → Bool
  | .member (.method id) => (store.method? id).any MethodDecl.isConstructor
  | _ => false

namespace TypeRecord

/-- A record has one member for each declaration, in particular for each of the type's own. -/
structure Covers (store : Store) (id : TypeId) (t : TypeDecl) (r : TypeRecord) : Prop where
  nodup : (r.members.values.map Member.decl).Nodup
  memberOfDecl?_eq_some : ∀ decl x,
    r.memberOfDecl? decl = some x ↔ x ∈ r.members.values ∧ x.decl = decl
  memberOfDecl?_eq_none : ∀ decl,
    r.memberOfDecl? decl = none ↔ ∀ x ∈ r.members.values, x.decl ≠ decl
  /-- A listed member or an accessor of one has a member of its kind, and no second one. -/
  own : ∀ m ∈ store.ownMembers t, ∃ x ∈ r.members.values, x.decl = .member m ∧
    x.kind = m.kind ∧ x.owner = id ∧ ∀ y ∈ r.members.values, y.decl = .member m → y = x
  constructors_eq : r.constructors =
    r.members.values.filter fun x => store.declaresConstructor x.decl

section Covers

variable {store : Store} {names : Vocabulary} {id : TypeId} {t : TypeDecl} {r : TypeRecord}
  {x : Member} {decl : DeclId}

theorem mem_of_memberOfDecl? (h : r.memberOfDecl? decl = some x) :
    x ∈ r.members.values ∧ x.decl = decl := by
  refine ⟨List.mem_reverse.1 (List.mem_of_find?_eq_some h), ?_⟩
  simpa using List.find?_some h

/-- Nothing is found under a declaration from which no member was made. -/
theorem memberOfDecl?_eq_none_iff :
    r.memberOfDecl? decl = none ↔ ∀ x ∈ r.members.values, x.decl ≠ decl := by
  unfold memberOfDecl?
  rw [List.find?_eq_none]
  simp only [List.mem_reverse, decide_eq_true_eq, ne_eq]

/-- A declaration that a record covers is found, and what is found is made from it. -/
theorem exists_memberOfDecl? (hx : x ∈ r.members.values) (hdecl : x.decl = decl) :
    ∃ y, r.memberOfDecl? decl = some y := by
  cases h : r.memberOfDecl? decl with
  | some y => exact ⟨y, rfl⟩
  | none => exact absurd hdecl (memberOfDecl?_eq_none_iff.1 h x hx)

/-- Members are made from the declarations in the slots of the roster, one after another. -/
theorem decls_of_fills {roster : Roster} (h : roster.Replaces (Fills t) r.members) :
    r.members.values.map Member.decl =
      roster.entries.map fun entry => .member entry.2.member := by
  unfold IdentifierMap.values
  rw [List.map_map]
  exact map_eq_of_forall₂ h.entries fun e e' he => he.2.decl_eq

/-- No two members of a record are made from one declaration. -/
theorem nodup_decls_of_build (h : build store names id = .ok r) (ht : store.type? id = some t)
    (hlists : t.ListsOnce) : (r.members.values.map Member.decl).Nodup := by
  obtain ⟨t', roster, ht', hproxies, hroster, hfills⟩ := fills_of_build h
  obtain rfl : t = t' := Option.some.inj (ht.symm.trans ht')
  have htabulated := Proxy.tabulated_of_proxiesOf ht hproxies
  have hnodup : Roster.NodupOn (fun _ => True) roster :=
    Roster.nodupOn_of_build? hroster htabulated
      (hlists.nodup_dataMembers.imp fun hne _ => hne)
  rw [decls_of_fills hfills]
  exact List.pairwise_map.2 (hnodup.imp fun hne heq => hne trivial (DeclId.member.inj heq))

/-- No record has two members of one method, whatever its type lists twice. -/
theorem memberOfDecl?_of_method (h : build store names id = .ok r) {a : MethodId}
    (hx : x ∈ r.members.values) (hdecl : x.decl = .member (.method a)) :
    r.memberOfDecl? (.member (.method a)) = some x := by
  obtain ⟨t, roster, ht, hproxies, hroster, hfills⟩ := fills_of_build h
  have hnodup := Roster.nodupOn_methods_of_build? hroster (Proxy.tabulated_of_proxiesOf ht hproxies)
  have hpair : r.members.values.Pairwise fun y z =>
      y.decl = .member (.method a) → y.decl ≠ z.decl := by
    refine pairwise_of_map_eq (f := fun entry : Identifier × Slot => .member entry.2.member)
      (S := fun d d' : DeclId => d = .member (.method a) → d ≠ d') (decls_of_fills hfills) ?_
    refine hnodup.imp fun hne hmethod heq => ?_
    exact hne (congrArg MemberId.kind (DeclId.member.inj hmethod)) (DeclId.member.inj heq)
  obtain ⟨y, hy⟩ := exists_memberOfDecl? hx hdecl
  obtain ⟨hymem, hydecl⟩ := mem_of_memberOfDecl? hy
  have heq : y = x := eq_of_pairwise_ne (P := fun d => d = .member (.method a)) hpair hymem hx
    hydecl (hydecl.trans hdecl.symm)
  rw [hy, heq]

/-- What a type lists, and the accessors of that, have members, whether or not lists repeat. -/
theorem exists_own_of_build (h : build store names id = .ok r) (ht : store.type? id = some t)
    {m : MemberId} (hm : m ∈ store.ownMembers t) :
    ∃ x ∈ r.members.values, x.decl = .member m := by
  obtain ⟨t', roster, ht', hproxies, hroster, hfills⟩ := fills_of_build h
  obtain rfl : t = t' := Option.some.inj (ht.symm.trans ht')
  have htabulated := Proxy.tabulated_of_proxiesOf ht hproxies
  obtain ⟨base, new, hbase, heq, -⟩ := Roster.parts_of_build? hroster htabulated
  obtain ⟨entry, hentry, hmember⟩ := Roster.lists_iff.1 ((Roster.lists_of_ofType? hbase m).2 hm)
  have hmem : entry ∈ roster.entries := by
    rw [heq]
    exact List.mem_append_left _ hentry
  obtain ⟨e, he, -, hfilled⟩ := exists_of_mem_left hfills.entries hmem
  exact ⟨e.2, List.mem_map_of_mem he, hfilled.decl_eq.trans (congrArg DeclId.member hmember)⟩

/-- Every member of a record belongs to the type and is of the kind of its declaration. -/
theorem kind_and_owner_of_build (h : build store names id = .ok r) (hx : x ∈ r.members.values) :
    x.owner = id ∧ ∀ m, x.decl = .member m → x.kind = m.kind := by
  obtain ⟨t, drafts, slot, draft, hdraft, hfinish⟩ := exists_slot_of_build h hx
  refine ⟨?_, fun m hm => ?_⟩
  · obtain ⟨visible, -, hfinished⟩ := finishMember_eq_ok hfinish
    rw [hfinished]
  · rw [(fills_of_finish hdraft hfinish).decl_eq] at hm
    rw [kind_of_finish hdraft hfinish, DeclId.member.inj hm]

theorem isConstructor_withOverloadIndex (details : MemberDetails) (index : Option Nat) :
    (details.withOverloadIndex index).isConstructor = details.isConstructor := by
  cases details <;> rfl

theorem isConstructor_of_decl {accessorOf : Option MemberId} {m : MemberId} {d : MemberDecl}
    {details : MemberDetails} (hd : store.member? m = some d)
    (hdetails : MemberDetails.ofDecl accessorOf m d = some details) :
    details.isConstructor = store.declaresConstructor (.member m) := by
  cases m with
  | method a =>
    obtain ⟨e, he, rfl⟩ := Option.map_eq_some_iff.1 hd
    cases hdetails
    show e.isConstructor = (store.method? a).any MethodDecl.isConstructor
    rw [he]
    rfl
  | field a | property a | event a =>
    obtain ⟨e, -, rfl⟩ := Option.map_eq_some_iff.1 hd
    cases hdetails
    rfl

theorem isConstructor_of_build (h : build store names id = .ok r) (hx : x ∈ r.members.values) :
    x.details.isConstructor = store.declaresConstructor x.decl := by
  obtain ⟨t, drafts, slot, draft, hdraft, hfinish⟩ := exists_slot_of_build h hx
  obtain ⟨inherited, d, -, hd, hmember, -, hdetails, -⟩ := MemberDraft.ofSlot?_eq_some hdraft
  obtain ⟨visible, -, hfinished⟩ := finishMember_eq_ok hfinish
  rw [hfinished]
  show (draft.details.withOverloadIndex _).isConstructor = store.declaresConstructor _
  rw [isConstructor_withOverloadIndex, hmember]
  exact isConstructor_of_decl hd hdetails

/-- A record that can be built covers what its type lists. -/
theorem covers_of_build (h : build store names id = .ok r) (ht : store.type? id = some t)
    (hlists : t.ListsOnce) : r.Covers store id t := by
  have hnodup := nodup_decls_of_build h ht hlists
  have hunique : ∀ x ∈ r.members.values, ∀ y ∈ r.members.values, x.decl = y.decl → x = y :=
    fun x hx y hy heq => List.inj_on_of_nodup_map hnodup hx hy heq
  constructor
  case nodup => exact hnodup
  case memberOfDecl?_eq_some =>
    intro decl x
    refine ⟨mem_of_memberOfDecl?, ?_⟩
    rintro ⟨hx, hdecl⟩
    obtain ⟨y, hy⟩ := exists_memberOfDecl? hx hdecl
    obtain ⟨hymem, hydecl⟩ := mem_of_memberOfDecl? hy
    rw [hy, hunique y hymem x hx (hydecl.trans hdecl.symm)]
  case memberOfDecl?_eq_none => exact fun decl => memberOfDecl?_eq_none_iff
  case own =>
    intro m hm
    obtain ⟨x, hx, hdecl⟩ := exists_own_of_build h ht hm
    obtain ⟨howner, hkind⟩ := kind_and_owner_of_build h hx
    exact ⟨x, hx, hdecl, hkind m hdecl, howner,
      fun y hy hydecl => hunique y hy x hx (hydecl.trans hdecl.symm)⟩
  case constructors_eq =>
    exact List.filter_congr fun x hx => isConstructor_of_build h hx

end Covers

end TypeRecord

/-! ## Members by way of the catalog -/

namespace Catalog

variable {store : Store} {names : Vocabulary}

/-- The record of a member that the type declaring it lists is in the record of that type. -/
theorem memberRecord_of_listing (hlisting : store.Listing) {m : MemberId} {d : MemberDecl}
    (hd : store.member? m = some d) {r : TypeRecord}
    (hr : TypeRecord.build store names d.owner = .ok r) :
    ∃ x, store.memberRecord names (.member m) = .ok x ∧ x.decl = .member m ∧
      x.owner = d.owner := by
  have howner := Store.ownerOf?_of_member? hd
  obtain ⟨list, hlist, hmem⟩ := hlisting.listed m d.owner howner
  obtain ⟨t, ht, rfl⟩ := Option.map_eq_some_iff.1 hlist
  obtain ⟨x, hx, hdecl⟩ :=
    TypeRecord.exists_own_of_build hr ht (Store.mem_ownMembers_of_listed hmem)
  obtain ⟨y, hy⟩ := TypeRecord.exists_memberOfDecl? hx hdecl
  obtain ⟨hymem, hydecl⟩ := TypeRecord.mem_of_memberOfDecl? hy
  refine ⟨y, ?_, hydecl, (TypeRecord.kind_and_owner_of_build hr hymem).1⟩
  unfold Store.memberRecord
  simp only [Store.asMember, howner, Answer.inRange, except_ok_bind, hr, hy]
  rfl

/-- A member cannot be had if the record of its type cannot be built. -/
theorem memberRecord_of_error {m : MemberId} {d : MemberDecl} (hd : store.member? m = some d)
    {e : Failure} (he : TypeRecord.build store names d.owner = .error e) :
    store.memberRecord names (.member m) = .error e := by
  have howner := Store.ownerOf?_of_member? hd
  unfold Store.memberRecord
  simp only [Store.asMember, howner, Answer.inRange, except_ok_bind, he]
  rfl

/-- The record of a type that lists no member twice has one member for each declaration. If a store
was filled by registration, no type lists a member twice, and, whatever was requested before, a
member is answered with exactly if the record of the type that declares it can be built, and then
it is a member of that type made from that declaration. -/
theorem members_are_covered (store : Store) (names : Vocabulary) :
    (∀ id t r, store.type? id = some t → t.ListsOnce →
      TypeRecord.build store names id = .ok r → r.Covers store id t) ∧
    ∀ registrations, Store.registerAll? {} registrations = some store →
      (∀ id t, store.type? id = some t → t.ListsOnce) ∧
      ∀ before m d, store.member? m = some d →
        ((∃ reply, (after store names before).answer (.member (.member m)) = .ok reply) ↔
          ∃ r, TypeRecord.build store names d.owner = .ok r) ∧
        ∀ reply, (after store names before).answer (.member (.member m)) = .ok reply →
          ∃ x, reply = .member x ∧ x.decl = .member m ∧ x.owner = d.owner := by
  refine ⟨fun id t r ht hlists hr => TypeRecord.covers_of_build hr ht hlists, ?_⟩
  intro registrations hregistered
  have hlisting := Store.listing_empty.registerAll? hregistered
  refine ⟨fun id t ht => ?_, fun before m d hd => ?_⟩
  · have hlist : store.listOf? id = some t.offeredMembers := by
      unfold Store.listOf?
      rw [ht]
      rfl
    exact TypeDecl.listsOnce_of_nodup (hlisting.nodup id _ hlist)
  · have hanswer : (after store names before).answer (.member (.member m)) =
        (store.memberRecord names (.member m)).map .member := answer_after store names before _
    rw [hanswer]
    cases hr : TypeRecord.build store names d.owner with
    | ok r =>
      obtain ⟨x, hx, hdecl, howner⟩ := memberRecord_of_listing hlisting hd hr
      rw [hx]
      refine ⟨⟨fun _ => ⟨r, rfl⟩, fun _ => ⟨.member x, rfl⟩⟩, ?_⟩
      rintro reply hreply
      exact ⟨x, (Except.ok.inj hreply).symm, hdecl, howner⟩
    | error e =>
      rw [memberRecord_of_error hd hr]
      refine ⟨⟨?_, ?_⟩, ?_⟩
      · rintro ⟨reply, hreply⟩
        cases hreply
      · rintro ⟨r, hr⟩
        cases hr
      · intro reply hreply
        cases hreply

/-- A type with a property and its getter, registered one after another. -/
def accessorRegistrations : List Registration := [
  .module "app.dll",
  .type ⟨0⟩ "" "Main" .classType,
  .member (.method { owner := ⟨0⟩, name := "get_Size", returns := .plain "System.Int32" }),
  .member (.property {
    owner := ⟨0⟩, name := "Size", type := .plain "System.Int32", getter := some ⟨0⟩ })]

theorem registered_getter_is_covered_once :
    ∃ store t r, Store.registerAll? {} accessorRegistrations = some store ∧
      store.type? ⟨0⟩ = some t ∧ TypeRecord.build store {} ⟨0⟩ = .ok r ∧
      r.members.values.map Member.decl = [.member (.property ⟨0⟩), .member (.method ⟨0⟩)] ∧
      r.Covers store ⟨0⟩ t ∧
      ∃ reply, (after store {} [.everything]).answer (.member (.member (.method ⟨0⟩))) =
        .ok reply := by
  obtain ⟨store, hstore, t, ht, r, hr, hdecls, d, hd⟩ :
      ∃ store, Store.registerAll? {} accessorRegistrations = some store ∧
        ∃ t, store.type? ⟨0⟩ = some t ∧ ∃ r, TypeRecord.build store {} ⟨0⟩ = .ok r ∧
          r.members.values.map Member.decl = [.member (.property ⟨0⟩), .member (.method ⟨0⟩)] ∧
          ∃ d, store.member? (.method ⟨0⟩) = some (.method d) ∧ d.owner = ⟨0⟩ :=
    ⟨_, rfl, _, rfl, _, rfl, rfl, _, rfl, rfl⟩
  obtain ⟨hcovers, hregistered⟩ := members_are_covered store {}
  obtain ⟨hlists, hmember⟩ := hregistered accessorRegistrations hstore
  refine ⟨store, t, r, hstore, ht, hr, hdecls, hcovers ⟨0⟩ t r ht (hlists ⟨0⟩ t ht) hr, ?_⟩
  refine (hmember [.everything] (.method ⟨0⟩) (.method d) hd.1).1.2 ⟨r, ?_⟩
  rw [← hr]
  exact congrArg _ hd.2

end Catalog

end TypeModel
