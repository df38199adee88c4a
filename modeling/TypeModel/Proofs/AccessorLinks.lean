import TypeModel.Proofs.Coverage
import TypeModel.Proofs.IgnoreCascade
import TypeModel.Proofs.Substitution

/-!
# Accessors and what they belong to

A method that was reached through a property or event carries a link to it. Links are sound: they
lead to a member of the same record, and of the same origin. How complete they are depends on the
origin. Accessors of what the type lists itself are guarded by declaration alone, so that each has a
link, if not to one owner then to another. An accessor of what a proxy contributes takes its turn
right behind its owner, and is passed over if some member that is there by then agrees with it
(`TookTurn`). Either way a lookup finds a member for the accessor
(`TypeRecord.accessors_are_linked`).
-/

namespace TypeModel

/-- An element of two lists put together stands in the first or in the second. -/
theorem place_of_append {α : Type} {xs ys before rest : List α} {e : α}
    (h : xs ++ ys = before ++ e :: rest) :
    (∃ rest', xs = before ++ e :: rest' ∧ rest = rest' ++ ys) ∨
      ∃ before', before = xs ++ before' ∧ ys = before' ++ e :: rest := by
  rcases List.append_eq_append_iff.1 h with ⟨between, hbefore, hys⟩ | ⟨old, hxs, hrest⟩
  · exact .inr ⟨between, hbefore, hys⟩
  · cases old with
    | nil => exact .inr ⟨[], by simpa using hxs.symm, hrest.symm⟩
    | cons first old =>
      obtain ⟨rfl, rfl⟩ := List.cons_eq_cons.1 hrest
      exact .inl ⟨old, hxs, rfl⟩

/-- An accessor has taken its turn among the entries behind those that were there. First stands what
earlier accessors of the same owner have brought; then the accessor comes next, unless an entry
before it agrees with it. -/
def TookTurn {α : Type} (store : Store) (brings : MethodId → α → Prop) (earlier : List MethodId)
    (a : MethodId) (there rest : List (Identifier × α)) : Prop :=
  ∃ key, store.identifier? (.method a) = some key ∧ ∃ brought after, rest = brought ++ after ∧
    (∀ e ∈ brought, ∃ b ∈ earlier, brings b e.2) ∧
    ((∃ e ∈ there ++ brought, e.1.agrees key) ∨
      ∃ e later, after = e :: later ∧ e.1 = key ∧ brings a e.2)

section TookTurn

variable {α β : Type} {store : Store} {brings : MethodId → α → Prop} {earlier : List MethodId}
  {a : MethodId} {there rest : List (Identifier × α)}

/-- Whatever comes later changes nothing. -/
theorem TookTurn.append (h : TookTurn store brings earlier a there rest)
    (more : List (Identifier × α)) : TookTurn store brings earlier a there (rest ++ more) := by
  obtain ⟨key, hkey, brought, after, rfl, hbrought, hturn⟩ := h
  refine ⟨key, hkey, brought, after ++ more, List.append_assoc .., hbrought, ?_⟩
  rcases hturn with hagrees | ⟨e, later, rfl, he⟩
  · exact .inl hagrees
  · exact .inr ⟨e, later ++ more, rfl, he⟩

/-- Some entry agrees with the accessor afterwards. -/
theorem TookTurn.exists_agrees (h : TookTurn store brings earlier a there rest) :
    ∃ key, store.identifier? (.method a) = some key ∧ ∃ e ∈ there ++ rest, e.1.agrees key := by
  obtain ⟨key, hkey, brought, after, rfl, -, hturn⟩ := h
  refine ⟨key, hkey, ?_⟩
  rcases hturn with ⟨e, he, hagrees⟩ | ⟨e, later, rfl, rfl, -⟩
  · refine ⟨e, ?_, hagrees⟩
    rw [← List.append_assoc]
    exact List.mem_append_left _ he
  · exact ⟨e, by simp, Identifier.agrees_refl e.1⟩

/-- Entries may be replaced by others under the same identifiers. -/
theorem TookTurn.replace {R : α → β → Prop} {brings' : MethodId → β → Prop}
    {there' rest' : List (Identifier × β)} (h : TookTurn store brings earlier a there rest)
    (hthere : List.Forall₂ (fun e e' => e'.1 = e.1 ∧ R e.2 e'.2) there there')
    (hrest : List.Forall₂ (fun e e' => e'.1 = e.1 ∧ R e.2 e'.2) rest rest')
    (hbrings : ∀ b x y, brings b x → R x y → brings' b y) :
    TookTurn store brings' earlier a there' rest' := by
  obtain ⟨key, hkey, brought, after, rfl, hbrought, hturn⟩ := h
  obtain ⟨brought', after', rfl, hbroughtRel, hafterRel⟩ := split_of_forall₂_append hrest
  refine ⟨key, hkey, brought', after', rfl, fun e' he' => ?_, ?_⟩
  · obtain ⟨e, he, -, hR⟩ := exists_of_mem_right hbroughtRel he'
    obtain ⟨b, hb, hbrings'⟩ := hbrought e he
    exact ⟨b, hb, hbrings b _ _ hbrings' hR⟩
  · rcases hturn with ⟨e, he, hagrees⟩ | ⟨e, later, rfl, rfl, hjoined⟩
    · obtain ⟨e', he', hkeyEq, -⟩ :=
        exists_of_mem_left (List.rel_append hthere hbroughtRel) he
      exact .inl ⟨e', he', by rw [hkeyEq]; exact hagrees⟩
    · obtain ⟨e', later', ⟨hkeyEq, hR⟩, -, rfl⟩ := List.forall₂_cons_left_iff.1 hafterRel
      exact .inr ⟨e', later', rfl, hkeyEq, hbrings a _ _ hjoined hR⟩

end TookTurn

/-! ## Turns in a roster -/

namespace Roster

variable {store : Store} {t : TypeDecl} {proxies : List Proxy} {r r' : Roster} {o m : MemberId}

/-- The slot of an accessor that is linked to what it was reached through. -/
def LinkedSlot (o : MemberId) (a : MethodId) (slot : Slot) : Prop :=
  slot = ⟨.method a, .proxy, some o⟩

/-- Accessors that are offered one after another bring slots of their own. -/
theorem brought_of_offers {accessors : List MethodId}
    (h : accessors.foldlM (fun r a => offer? store r ⟨.method a, .proxy, some o⟩) r = some r') :
    ∃ brought, r'.entries = r.entries ++ brought ∧
      ∀ e ∈ brought, ∃ b ∈ accessors, LinkedSlot o b e.2 := by
  refine option_foldlM_induct (P := fun c : Roster => ∃ brought, c.entries = r.entries ++ brought ∧
    ∀ e ∈ brought, ∃ b ∈ accessors, LinkedSlot o b e.2) h ⟨[], by simp⟩ ?_
  rintro a ha c c' ⟨brought, heq, hbrought⟩ hoffer
  obtain ⟨key, -, rfl⟩ := offer?_eq_some hoffer
  split
  · refine ⟨brought ++ [(key, ⟨.method a, .proxy, some o⟩)], by simp [heq], fun e he => ?_⟩
    rcases List.mem_append.1 he with he | he
    · exact hbrought e he
    · rw [List.mem_singleton.1 he]
      exact ⟨a, ha, rfl⟩
  · exact ⟨brought, heq, hbrought⟩

/-- An accessor of a contributed member is passed over only if some slot agrees with it. -/
theorem turn_of_offer? {a : MethodId} (hr : Sound store r)
    (h : offer? store r ⟨.method a, .proxy, some o⟩ = some r') :
    ∃ key, store.identifier? (.method a) = some key ∧
      ((r.contains key = true ∧ r' = r) ∨ r' = r.push key ⟨.method a, .proxy, some o⟩) := by
  obtain ⟨key, hkey, rfl⟩ := offer?_eq_some h
  refine ⟨key, hkey, ?_⟩
  by_cases hcontains : r.contains key = true
  · refine .inl ⟨hcontains, if_neg ?_⟩
    simp [admits, hcontains]
  · have hlists : r.lists (.method a) = false :=
      Bool.eq_false_iff.2 fun hlists => hcontains (hr.contains_of_lists hlists hkey)
    refine .inr (if_pos ?_)
    simp [admits, hcontains, hlists]

/-- Of accessors that are offered one after another, each takes its turn. -/
theorem tookTurn_of_offers {accessors : List MethodId} (hr : Sound store r)
    (h : accessors.foldlM (fun r a => offer? store r ⟨.method a, .proxy, some o⟩) r = some r') :
    ∃ brought, r'.entries = r.entries ++ brought ∧
      (∀ e ∈ brought, ∃ b ∈ accessors, LinkedSlot o b e.2) ∧
      ∀ earlier a later, accessors = earlier ++ a :: later →
        TookTurn store (LinkedSlot o) earlier a r.entries brought := by
  obtain ⟨all, hall, hlinked⟩ := brought_of_offers h
  refine ⟨all, hall, hlinked, ?_⟩
  rintro earlier a later rfl
  rw [List.foldlM_append] at h
  obtain ⟨c, hearlier, h⟩ := Option.bind_eq_some_iff.1 h
  rw [List.foldlM_cons] at h
  obtain ⟨c', hturn, hlater⟩ := Option.bind_eq_some_iff.1 h
  obtain ⟨brought, hbrought, hbroughtLinked⟩ := brought_of_offers hearlier
  obtain ⟨rest, hrest, -⟩ := brought_of_offers hlater
  have hc : Sound store c := by
    refine option_foldlM_induct (P := Sound store) hearlier hr ?_
    intro b _ d d' hd hoffer
    obtain ⟨key, hkey, rfl⟩ := offer?_eq_some hoffer
    split
    · exact hd.push hkey
    · exact hd
  obtain ⟨key, hkey, ⟨hcontains, rfl⟩ | rfl⟩ := turn_of_offer? hc hturn
  · obtain ⟨e, he, hagrees⟩ := (hc.filed.contains_iff key).1 hcontains
    refine ⟨key, hkey, brought, rest, ?_, hbroughtLinked, .inl ⟨e, hbrought ▸ he, hagrees⟩⟩
    rw [hall, hbrought, List.append_assoc] at hrest
    exact List.append_cancel_left hrest
  · refine ⟨key, hkey, brought, (key, ⟨.method a, .proxy, some o⟩) :: rest, ?_, hbroughtLinked,
      .inr ⟨_, rest, rfl, rfl, rfl⟩⟩
    rw [hall, IdentifierMap.entries_push, hbrought, List.append_assoc, List.append_assoc] at hrest
    exact List.append_cancel_left hrest

/-- Behind each contributed property or event its accessors have taken their turns. -/
def Attended (store : Store) (slots : List (Identifier × Slot)) : Prop :=
  ∀ before entry rest, slots = before ++ entry :: rest → ∀ o d, entry.2 = ⟨o, .proxy, none⟩ →
    store.member? o = some d → ∀ earlier a later, d.accessors = earlier ++ a :: later →
      TookTurn store (LinkedSlot o) earlier a (before ++ [entry]) rest

theorem Attended.add? (h : Attended store r.entries) (hr : Sound store r)
    (hadd : add? store .proxy r m = some r') : Attended store r'.entries := by
  obtain ⟨key, d, hkey, hd, hoffers⟩ := add?_eq_some hadd
  have hpush : Sound store (r.push key ⟨m, .proxy, none⟩) := hr.push hkey
  obtain ⟨brought, hbrought, hlinked, hturns⟩ := tookTurn_of_offers hpush hoffers
  rw [IdentifierMap.entries_push, List.append_assoc, List.singleton_append] at hbrought
  intro before entry rest heq o' d' hentry hd' earlier a later haccessors
  rw [hbrought] at heq
  rcases place_of_append heq with ⟨old, hold, rfl⟩ | ⟨between, rfl, hnew⟩
  · exact (h before entry old hold o' d' hentry hd' earlier a later haccessors).append _
  · cases between with
    | nil =>
      -- The member that was added itself.
      obtain ⟨rfl, rfl⟩ := List.cons_eq_cons.1 hnew
      obtain rfl : m = o' := congrArg Slot.member hentry
      obtain rfl : d = d' := Option.some.inj (hd.symm.trans hd')
      rw [List.append_nil]
      exact hturns earlier a later haccessors
    | cons first between =>
      -- An accessor of it, which is linked and so has none itself.
      obtain ⟨-, hnew⟩ := List.cons_eq_cons.1 hnew
      have hmem : entry ∈ brought := hnew ▸ List.mem_append_right _ List.mem_cons_self
      obtain ⟨b, -, hslot⟩ := hlinked entry hmem
      rw [hslot] at hentry
      cases hentry

theorem attended_of_build? (h : build? store t proxies = some r)
    (hproxies : ∀ p ∈ proxies, Tabulated store p) : Attended store r.entries := by
  obtain ⟨base, hbase, hrest⟩ := Option.bind_eq_some_iff.1 h
  have hgrows := grows_of_ofType? hbase
  refine contribute_induct (P := fun c => Attended store c.entries) hrest
    (hgrows.sound sound_empty) hproxies ?_ ?_
  · intro before entry rest heq o d hentry
    have horigin := (hgrows.of_added entry (by
      show entry ∈ base.entries
      rw [heq]
      simp)).1
    rw [hentry] at horigin
    cases horigin
  · intro c m c' key hc hattended _ _ hadd
    exact hattended.add? hc hadd

/-! ## Accessors of a type's own members -/

/-- What has accessors and belongs to the type itself is listed by it: it is neither a method nor an
accessor. -/
theorem mem_dataMembers_of_accessor {d : MemberDecl} {a : MethodId}
    (ho : o ∈ store.ownMembers t) (hd : store.member? o = some d) (ha : a ∈ d.accessors) :
    o ∈ t.dataMembers := by
  have hmethod : ∀ b, o ≠ .method b := by
    rintro b rfl
    rw [not_accessor_of_method hd] at ha
    exact absurd ha List.not_mem_nil
  unfold Store.ownMembers at ho
  rw [List.mem_append, List.mem_flatMap] at ho
  rcases ho with ⟨owner, howner, ho⟩ | ho
  · rcases mem_withAccessors.1 ho with rfl | ⟨-, -, b, -, rfl⟩
    · exact howner
    · exact absurd rfl (hmethod b)
  · obtain ⟨b, -, rfl⟩ := List.mem_map.1 ho
    exact absurd rfl (hmethod b)

/-- An accessor of what the type lists has a linked slot: when methods are listed, those that were
reached through a property or event are there already. -/
theorem exists_link_of_ofType? (h : ofType? store t = some r) {d : MemberDecl} {a : MethodId}
    (ho : o ∈ t.dataMembers) (hd : store.member? o = some d) (ha : a ∈ d.accessors) :
    ∃ entry ∈ r.entries, entry.2.member = .method a ∧ ∃ o' d', entry.2.accessorOf = some o' ∧
      store.member? o' = some d' ∧ a ∈ d'.accessors := by
  obtain ⟨base, hbase, hmethods⟩ := Option.bind_eq_some_iff.1 h
  have hsub : base.entries ⊆ r.entries :=
    option_foldlM_induct (P := fun c : Roster => base.entries ⊆ c.entries) hmethods
      (List.Subset.refl _) fun _ _ _ _ hc hoffer =>
        List.Subset.trans hc (subset_of_offer? hoffer)
  have hlists : base.lists (.method a) :=
    lists_withAccessors hbase o ho _ (mem_withAccessors.2 (.inr ⟨d, hd, a, ha, rfl⟩))
  obtain ⟨entry, hentry, hmember⟩ := lists_iff.1 hlists
  obtain ⟨-, hreached⟩ := (grows_of_members hbase).of_added entry hentry
  refine ⟨entry, hsub hentry, hmember, ?_⟩
  unfold Reached at hreached
  cases haccessor : entry.2.accessorOf with
  | none =>
    simp only [haccessor, hmember] at hreached
    exact absurd rfl (data_of_mem_dataMembers hreached)
  | some o' =>
    simp only [haccessor] at hreached
    obtain ⟨-, d', hd', a', ha', hmethod⟩ := hreached
    obtain rfl : a = a' := MemberId.method.inj (hmember.symm.trans hmethod)
    exact ⟨o', d', rfl, hd', ha'⟩

/-! ## Accessors in the roster as a whole -/

section Whole

variable {entry : Identifier × Slot} {d : MemberDecl} {a : MethodId}

theorem origin_eq_own_iff (h : build? store t proxies = some r)
    (hproxies : ∀ p ∈ proxies, Tabulated store p) (hentry : entry ∈ r.entries) :
    entry.2.origin = .own ↔ entry.2.member ∈ store.ownMembers t := by
  refine ⟨fun horigin => ?_, origin_of_mem_ownMembers h hproxies hentry⟩
  obtain ⟨base, new, hbase, heq, -, hnew⟩ := parts_of_build? h hproxies
  rw [heq] at hentry
  rcases List.mem_append.1 hentry with hentry | hentry
  · exact (lists_of_ofType? hbase _).1 (lists_iff.2 ⟨entry, hentry, rfl⟩)
  · have hproxy := (hnew entry hentry).1
    rw [horigin] at hproxy
    cases hproxy

/-- What has accessors was not reached as one. -/
theorem Linked.accessorOf_eq_none {slots : List (Identifier × Slot)} {slot : Slot}
    (h : Linked store slots slot) (hd : store.member? slot.member = some d) (ha : a ∈ d.accessors) :
    slot.accessorOf = none := by
  cases haccessor : slot.accessorOf with
  | none => rfl
  | some o =>
    obtain ⟨-, -, -, b, -, hmethod⟩ := h o haccessor
    rw [hmethod] at hd
    rw [not_accessor_of_method hd] at ha
    exact absurd ha List.not_mem_nil

/-- The accessors of a contributed member have taken their turns behind it. -/
theorem tookTurn_of_build? (h : build? store t proxies = some r)
    (hproxies : ∀ p ∈ proxies, Tabulated store p) {before rest : List (Identifier × Slot)}
    (heq : r.entries = before ++ entry :: rest) (hforeign : entry.2.member ∉ store.ownMembers t)
    (hd : store.member? entry.2.member = some d) {earlier later : List MethodId}
    (haccessors : d.accessors = earlier ++ a :: later) :
    TookTurn store (LinkedSlot entry.2.member) earlier a (before ++ [entry]) rest := by
  have hentry : entry ∈ r.entries := heq ▸ List.mem_append_right _ List.mem_cons_self
  have ha : a ∈ d.accessors := haccessors ▸ List.mem_append_right _ List.mem_cons_self
  have horigin : entry.2.origin = .proxy := by
    cases horigin : entry.2.origin with
    | own => exact absurd ((origin_eq_own_iff h hproxies hentry).1 horigin) hforeign
    | proxy => rfl
  have hslot : entry.2 = ⟨entry.2.member, .proxy, none⟩ := by
    rw [← horigin, ← (owner_of_build? h hproxies hentry).accessorOf_eq_none hd ha]
  exact attended_of_build? h hproxies before entry rest heq _ d hslot hd earlier a later haccessors

/-- Some slot agrees with each accessor of each member. -/
theorem contains_accessor_of_build? (h : build? store t proxies = some r)
    (hproxies : ∀ p ∈ proxies, Tabulated store p) (hentry : entry ∈ r.entries)
    (hd : store.member? entry.2.member = some d) (ha : a ∈ d.accessors) :
    ∃ key, store.identifier? (.method a) = some key ∧ r.contains key := by
  have hsound := sound_of_build? h hproxies
  by_cases hown : entry.2.member ∈ store.ownMembers t
  · obtain ⟨base, new, hbase, heq, -⟩ := parts_of_build? h hproxies
    obtain ⟨link, hlink, hmember, -⟩ :=
      exists_link_of_ofType? hbase (mem_dataMembers_of_accessor hown hd ha) hd ha
    have hmem : link ∈ r.entries := heq ▸ List.mem_append_left _ hlink
    have hkey : store.identifier? (.method a) = some link.1 := hmember ▸ hsound.keyed link hmem
    exact ⟨link.1, hkey, hsound.contains_of_lists (lists_iff.2 ⟨link, hmem, hmember⟩) hkey⟩
  · obtain ⟨before, rest, heq⟩ := List.append_of_mem hentry
    obtain ⟨earlier, later, haccessors⟩ := List.append_of_mem ha
    obtain ⟨key, hkey, e, he, hagrees⟩ :=
      (tookTurn_of_build? h hproxies heq hown hd haccessors).exists_agrees
    rw [List.append_assoc, List.singleton_append, ← heq] at he
    exact ⟨key, hkey, (hsound.filed.contains_iff key).2 ⟨e, he, hagrees⟩⟩

end Whole

end Roster

/-! ## Links in a record -/

/-- No method is an accessor of two properties or events. -/
def Store.AccessorsApart (store : Store) : Prop :=
  ∀ a o o' d d', store.member? o = some d → store.member? o' = some d' →
    a ∈ d.accessors → a ∈ d'.accessors → o = o'

/-- A member is the type's own if it is made from what the type lists or from an accessor of that.
All others are contributed by proxies: see `TypeRecord.Overlay.own_iff` and
`TypeRecord.Overlay.not_own`. -/
def Member.IsOwn (store : Store) (t : TypeDecl) (x : Member) : Prop :=
  ∃ m ∈ store.ownMembers t, x.decl = .member m

/-- A member is made from a method and linked to what that was reached through. -/
def Member.LinkedTo (o : MemberId) (a : MethodId) (x : Member) : Prop :=
  x.decl = .member (.method a) ∧ x.details.accessorOf = some o

namespace TypeRecord

/-- The links between the accessors in a record and the properties and events that they belong
to. -/
structure AccessorsLinked (store : Store) (t : TypeDecl) (r : TypeRecord) : Prop where
  /-- A link leads to a property or event of the record that has the method as an accessor, and it
  joins own members or contributed ones. -/
  sound : ∀ x ∈ r.members.values, ∀ o, x.details.accessorOf = some o →
    (o.kind = .property ∨ o.kind = .event) ∧ ∃ y ∈ r.members.values, ∃ d, ∃ a ∈ d.accessors,
      y.decl = .member o ∧ store.member? o = some d ∧ x.decl = .member (.method a) ∧
      (x.IsOwn store t ↔ y.IsOwn store t)
  /-- Unless accessors are shared, those of own members are linked to them. -/
  own : store.AccessorsApart → ∀ y ∈ r.members.values, y.IsOwn store t →
    ∀ o d, y.decl = .member o → store.member? o = some d → ∀ a ∈ d.accessors,
      ∃ x, r.memberOfDecl? (.member (.method a)) = some x ∧ x.LinkedTo o a
  /-- Each accessor of a contributed member is linked to it, unless a member that was there when
  the turn of the accessor came agrees with it. -/
  contributed : ∀ before e rest, r.members.entries = before ++ e :: rest → ¬e.2.IsOwn store t →
    ∀ o d, e.2.decl = .member o → store.member? o = some d →
    ∀ earlier a later, d.accessors = earlier ++ a :: later →
      TookTurn store (Member.LinkedTo o) earlier a (before ++ [e]) rest
  /-- For every accessor a lookup finds a member that agrees with it. -/
  found : ∀ y ∈ r.members.values, ∀ o d, y.decl = .member o → store.member? o = some d →
    ∀ a ∈ d.accessors, ∃ key, store.identifier? (.method a) = some key ∧
      ∃ e ∈ r.members.entries, e.1.agrees key ∧ r.member? key = some e.2

/-- What a member shows of its slot. -/
structure Mirrors (slot : Slot) (x : Member) : Prop where
  decl_eq : x.decl = .member slot.member
  accessorOf_eq : x.details.accessorOf = slot.accessorOf

section Links

variable {store : Store} {names : Vocabulary} {id : TypeId} {t : TypeDecl} {r : TypeRecord}
  {roster : Roster} {slot : Slot} {x : Member}

theorem mirrors_of_build (h : build store names id = .ok r) : ∃ t roster,
    store.type? id = some t ∧ store.proxiesOf names id = .ok r.proxies ∧
    Roster.build? store t r.proxies = some roster ∧ roster.Replaces Mirrors r.members := by
  obtain ⟨t, roster, drafts, ht, hproxies, hroster, hdrafts, hmembers⟩ := roster_of_build h
  have htabulated := Proxy.tabulated_of_proxiesOf ht hproxies
  have htrans := hdrafts.trans hmembers
  refine ⟨t, roster, ht, hproxies, hroster, htrans.buckets_eq, ?_⟩
  refine forall₂_imp_of_mem htrans.entries fun entry hentry e he => ?_
  obtain ⟨hkey, draft, hdraft, hfinish⟩ := he
  exact ⟨hkey, (fills_of_finish hdraft hfinish).decl_eq,
    accessorOf_of_finish hdraft hfinish (Roster.owner_of_build? hroster htabulated hentry)⟩

theorem Mirrors.isOwn_iff (h : Mirrors slot x) :
    x.IsOwn store t ↔ slot.member ∈ store.ownMembers t := by
  unfold Member.IsOwn
  rw [h.decl_eq]
  constructor
  · rintro ⟨m, hm, heq⟩
    rwa [DeclId.member.inj heq]
  · intro hm
    exact ⟨slot.member, hm, rfl⟩

/-- In every record, links lead to the properties and events that methods are accessors of, and
accessors are linked unless they are shared or passed over. -/
theorem accessors_are_linked (h : build store names id = .ok r) :
    ∃ t, store.type? id = some t ∧ r.AccessorsLinked store t := by
  obtain ⟨t, roster, ht, hproxies, hroster, hmirrors⟩ := mirrors_of_build h
  have htabulated := Proxy.tabulated_of_proxiesOf ht hproxies
  have hentries := hmirrors.entries
  refine ⟨t, ht, ?_⟩
  constructor
  case sound =>
    intro x hx o ho
    obtain ⟨e, he, rfl⟩ := List.mem_map.1 hx
    obtain ⟨entry, hentry, -, hmirror⟩ := exists_of_mem_right hentries he
    rw [hmirror.accessorOf_eq] at ho
    obtain ⟨⟨owner, howner, hslot⟩, d, hd, a, ha, hmethod⟩ :=
      Roster.owner_of_build? hroster htabulated hentry o ho
    obtain ⟨y, hy, -, hmirror'⟩ := exists_of_mem_left hentries howner
    have hmember : owner.2.member = o := by rw [hslot]
    have horigin : owner.2.origin = entry.2.origin := by rw [hslot]
    refine ⟨kind_of_accessor hd ha, y.2, List.mem_map_of_mem hy, d, a, ha, ?_, hd, ?_, ?_⟩
    · rw [hmirror'.decl_eq, hmember]
    · rw [hmirror.decl_eq, hmethod]
    · rw [hmirror.isOwn_iff, hmirror'.isOwn_iff,
        ← Roster.origin_eq_own_iff hroster htabulated hentry,
        ← Roster.origin_eq_own_iff hroster htabulated howner, horigin]
  case own =>
    rintro hapart y hy ⟨o', ho', hdecl'⟩ o d hdecl hd a ha
    obtain rfl : o = o' := DeclId.member.inj (hdecl.symm.trans hdecl')
    obtain ⟨base, new, hbase, heq, -⟩ := Roster.parts_of_build? hroster htabulated
    obtain ⟨link, hlink, hmember, owner, d', howner, hd', ha'⟩ := Roster.exists_link_of_ofType?
      hbase (Roster.mem_dataMembers_of_accessor ho' hd ha) hd ha
    have hmem : link ∈ roster.entries := heq ▸ List.mem_append_left _ hlink
    obtain ⟨e, he, -, hmirror⟩ := exists_of_mem_left hentries hmem
    have hlinked : e.2.LinkedTo o a := by
      refine ⟨by rw [hmirror.decl_eq, hmember], ?_⟩
      rw [hmirror.accessorOf_eq, howner, hapart a o owner d d' hd hd' ha ha']
    exact ⟨e.2, memberOfDecl?_of_method h (List.mem_map_of_mem he) hlinked.1, hlinked⟩
  case contributed =>
    intro before e rest heq hforeign o d hdecl hd earlier a later haccessors
    have hsplit : List.Forall₂ (fun e entry => e.1 = entry.1 ∧ Mirrors entry.2 e.2)
        (before ++ e :: rest) roster.entries := heq ▸ hentries.flip
    obtain ⟨slots, behind, hslots, hbefore, hbehind⟩ := split_of_forall₂_append hsplit
    obtain ⟨entry, after, ⟨hkey, hmirror⟩, hrest, rfl⟩ := List.forall₂_cons_left_iff.1 hbehind
    obtain rfl : entry.2.member = o := DeclId.member.inj (hmirror.decl_eq.symm.trans hdecl)
    rw [hmirror.isOwn_iff] at hforeign
    have hturn := Roster.tookTurn_of_build? hroster htabulated hslots hforeign hd haccessors
    refine hturn.replace (R := Mirrors) ?_ hrest.flip ?_
    · exact List.rel_append hbefore.flip (.cons ⟨hkey, hmirror⟩ .nil)
    · rintro b slot x hslot hx
      exact ⟨by rw [hx.decl_eq, hslot], by rw [hx.accessorOf_eq, hslot]⟩
  case found =>
    intro y hy o d hdecl hd a ha
    obtain ⟨e, he, rfl⟩ := List.mem_map.1 hy
    obtain ⟨entry, hentry, -, hmirror⟩ := exists_of_mem_right hentries he
    obtain rfl : entry.2.member = o := DeclId.member.inj (hmirror.decl_eq.symm.trans hdecl)
    obtain ⟨key, hkey, hcontains⟩ :=
      Roster.contains_accessor_of_build? hroster htabulated hentry hd ha
    obtain ⟨t', roster', ht', -, hroster', hfills⟩ := fills_of_build h
    obtain rfl : t = t' := Option.some.inj (ht.symm.trans ht')
    obtain rfl : roster = roster' := Option.some.inj (hroster.symm.trans hroster')
    have hsound := Roster.sound_of_build? hroster htabulated
    exact ⟨key, hkey, exists_of_contains hfills hsound hcontains⟩

/-- A type with an event and a method, and a proxy that lists a property; the getter of the property
looks like the method. -/
def shadowingStore : Store where
  modules := #[{ name := "app.dll" }]
  types := #[
    { module := ⟨0⟩, scope := "", name := "Main", fullName := "Main", kind := .classType
      events := [⟨0⟩], methods := [⟨0⟩, ⟨1⟩] },
    { module := ⟨0⟩, scope := "", name := "Lender", fullName := "Lender", kind := .classType
      properties := [⟨0⟩], methods := [⟨2⟩, ⟨3⟩]
      annotations := [{ kind := "Xlate.Meta.ProxyAttribute", args := [.str "Main"] }] }]
  events := #[
    { owner := ⟨0⟩, name := "Changed", type := .plain "System.EventHandler", adder := some ⟨0⟩ }]
  properties := #[
    { owner := ⟨1⟩, name := "Size", type := .plain "System.Int32", getter := some ⟨2⟩
      setter := some ⟨3⟩ }]
  methods := #[
    { owner := ⟨0⟩, name := "add_Changed", params := [.plain "System.EventHandler"] },
    { owner := ⟨0⟩, name := "get_Size", returns := .plain "System.Int32" },
    { owner := ⟨1⟩, name := "get_Size", returns := .param .type 0 "T" },
    { owner := ⟨1⟩, name := "set_Size", params := [.plain "System.Int32"] }]

theorem accessorsApart_shadowingStore : shadowingStore.AccessorsApart := by
  have howner : ∀ o d a, shadowingStore.member? o = some d → a ∈ d.accessors →
      o = if a = ⟨0⟩ then .event ⟨0⟩ else .property ⟨0⟩ := by
    rintro (⟨_ | n⟩ | ⟨_ | n⟩ | ⟨_ | n⟩ | ⟨n⟩) d a hd ha
    case property.zero =>
      cases hd
      have hmem : a ∈ ([⟨2⟩, ⟨3⟩] : List MethodId) := ha
      obtain rfl | rfl : a = ⟨2⟩ ∨ a = ⟨3⟩ := by simpa using hmem
      · rfl
      · rfl
    case event.zero =>
      cases hd
      obtain rfl : a = ⟨0⟩ := List.mem_singleton.1 ha
      rfl
    case method =>
      rw [Roster.not_accessor_of_method hd] at ha
      exact absurd ha List.not_mem_nil
    all_goals cases hd
  intro a o o' d d' hd hd' ha ha'
  exact (howner o d a hd ha).trans (howner o' d' a hd' ha').symm

theorem lent_getter_is_passed_over :
    ∃ t r, shadowingStore.type? ⟨0⟩ = some t ∧ build shadowingStore {} ⟨0⟩ = .ok r ∧
      r.members.values.map (fun x => (x.decl, x.details.accessorOf)) = [
        (.member (.event ⟨0⟩), none), (.member (.method ⟨0⟩), some (.event ⟨0⟩)),
        (.member (.method ⟨1⟩), none), (.member (.property ⟨0⟩), none),
        (.member (.method ⟨3⟩), some (.property ⟨0⟩))] ∧
      r.AccessorsLinked shadowingStore t ∧
      ∃ x, r.memberOfDecl? (.member (.method ⟨0⟩)) = some x ∧ x.LinkedTo (.event ⟨0⟩) ⟨0⟩ := by
  obtain ⟨r, y, hr, hmembers, hy, hdecl⟩ : ∃ r y, build shadowingStore {} ⟨0⟩ = .ok r ∧
      r.members.values.map (fun x => (x.decl, x.details.accessorOf)) = [
        (.member (.event ⟨0⟩), none), (.member (.method ⟨0⟩), some (.event ⟨0⟩)),
        (.member (.method ⟨1⟩), none), (.member (.property ⟨0⟩), none),
        (.member (.method ⟨3⟩), some (.property ⟨0⟩))] ∧
      y ∈ r.members.values ∧ y.decl = .member (.event ⟨0⟩) :=
    ⟨_, _, rfl, rfl, .head _, rfl⟩
  obtain ⟨t, ht, hlinked⟩ := accessors_are_linked hr
  have hown : y.IsOwn shadowingStore t := by
    cases ht
    exact ⟨.event ⟨0⟩, .head _, hdecl⟩
  exact ⟨t, r, ht, hr, hmembers, hlinked, hlinked.own accessorsApart_shadowingStore y hy hown _ _
    hdecl rfl ⟨0⟩ (.head _)⟩

end Links

end TypeRecord

end TypeModel
