import TypeModel.Proofs.Roster

/-!
# The slots of a roster

A slot that is reached through a property or event shares its origin with a slot of that property
or event (`Roster.owner_of_build?`), and slots of one member have one origin
(`Roster.origin_eq_of_build?`). No method has two slots, and no member has if the type lists none
twice (`Roster.nodupOn_of_build?`): what the type itself lists is guarded by declaration for methods
alone, and what proxies contribute by identifier, which a member shares with itself.
-/

namespace TypeModel.Roster

variable {store : Store} {t : TypeDecl} {proxies : List Proxy} {r r' : Roster} {m : MemberId}

/-! ## Links to owners -/

/-- Each slot reached through a property or event has an owner among the slots. -/
def Linked (store : Store) (slots : List (Identifier × Slot)) (slot : Slot) : Prop :=
  ∀ o, slot.accessorOf = some o → (∃ entry ∈ slots, entry.2 = ⟨o, slot.origin, none⟩) ∧
    ∃ d, store.member? o = some d ∧ ∃ a ∈ d.accessors, slot.member = .method a

theorem Reached.linked {offered : List MemberId} {slots slots' : List (Identifier × Slot)}
    {slot : Slot} (h : Reached store offered slots slot) (hsub : slots ⊆ slots') :
    Linked store slots' slot := by
  intro o ho
  unfold Reached at h
  rw [ho] at h
  obtain ⟨⟨entry, hentry, heq⟩, haccessor⟩ := h
  exact ⟨⟨entry, hsub hentry, heq⟩, haccessor⟩

/-- The slots of a roster in two parts: those of the type itself and those of its proxies. -/
theorem parts_of_build? (h : build? store t proxies = some r)
    (hproxies : ∀ p ∈ proxies, Tabulated store p) :
    ∃ base new, ofType? store t = some base ∧ r.entries = base.entries ++ new ∧
      (∀ entry ∈ base.entries, entry.2.origin = .own ∧ Linked store r.entries entry.2) ∧
      (∀ entry ∈ new, entry.2.origin = .proxy ∧ Linked store r.entries entry.2 ∧
        ¬base.lists entry.2.member) := by
  obtain ⟨base, hbase, -, hsound, hfresh, ⟨chunks, heq, hchunks⟩, -⟩ :=
    build?_eq_some h hproxies
  refine ⟨base, chunks.flatten, hbase, heq, fun entry hentry => ?_, fun entry hentry => ?_⟩
  · obtain ⟨horigin, hreached⟩ := (grows_of_ofType? hbase).of_added entry hentry
    have hsub : base.entries ⊆ r.entries := by
      rw [heq]
      exact List.subset_append_left _ _
    exact ⟨horigin, hreached.linked hsub⟩
  · obtain ⟨chunk, hchunk, hmem⟩ := List.mem_flatten.1 hentry
    obtain ⟨p, -, hp⟩ := exists_of_mem_right hchunks hchunk
    obtain ⟨horigin, hreached⟩ := hp entry hmem
    have hsub : chunk ⊆ r.entries := by
      intro e he
      rw [heq]
      exact List.mem_append_right _ (List.mem_flatten.2 ⟨chunk, hchunk, he⟩)
    exact ⟨horigin, hreached.linked hsub, hfresh.not_lists hsound heq hentry⟩

/-- Every slot of a type's roster is linked among its entries. -/
theorem owner_of_build? (h : build? store t proxies = some r)
    (hproxies : ∀ p ∈ proxies, Tabulated store p) {entry : Identifier × Slot}
    (hentry : entry ∈ r.entries) : Linked store r.entries entry.2 := by
  obtain ⟨base, new, -, heq, hown, hnew⟩ := parts_of_build? h hproxies
  rw [heq] at hentry
  rcases List.mem_append.1 hentry with hentry | hentry
  · exact (hown entry hentry).2
  · exact (hnew entry hentry).2.1

/-- All slots of one member have one origin. -/
theorem origin_eq_of_build? (h : build? store t proxies = some r)
    (hproxies : ∀ p ∈ proxies, Tabulated store p) {e e' : Identifier × Slot}
    (he : e ∈ r.entries) (he' : e' ∈ r.entries) (hmember : e.2.member = e'.2.member) :
    e.2.origin = e'.2.origin := by
  obtain ⟨base, new, -, heq, hown, hnew⟩ := parts_of_build? h hproxies
  rw [heq] at he he'
  rcases List.mem_append.1 he with he | he <;> rcases List.mem_append.1 he' with he' | he'
  · rw [(hown e he).1, (hown e' he').1]
  · exact absurd (lists_iff.2 ⟨e, he, hmember⟩) (hnew e' he').2.2
  · exact absurd (lists_iff.2 ⟨e', he', hmember.symm⟩) (hnew e he).2.2
  · rw [(hnew e he).1, (hnew e' he').1]

/-! ## No member has two slots -/

/-- No member with the property has two slots. -/
def NodupOn (P : MemberId → Prop) (r : Roster) : Prop :=
  r.entries.Pairwise fun e e' => P e.2.member → e.2.member ≠ e'.2.member

section Nodup

variable {P : MemberId → Prop} {origin : Origin} {slot : Slot}

theorem nodupOn_empty : NodupOn P .empty :=
  List.Pairwise.nil

theorem NodupOn.push (h : NodupOn P r) (key : Identifier)
    (hnew : P slot.member → ¬r.lists slot.member) : NodupOn P (r.push key slot) := by
  refine List.pairwise_append.2 ⟨h, List.pairwise_singleton _ _, ?_⟩
  intro e he e' he' hP heq
  rw [List.mem_singleton.1 he'] at heq
  rw [show e.2.member = slot.member from heq] at hP
  exact hnew hP (lists_iff.2 ⟨e, he, heq⟩)

theorem NodupOn.offer? (h : NodupOn P r) (hoffer : offer? store r slot = some r') :
    NodupOn P r' := by
  obtain ⟨key, -, rfl⟩ := offer?_eq_some hoffer
  split
  · next hadmits =>
    unfold admits at hadmits
    refine h.push key fun _ hlists => ?_
    rw [hlists] at hadmits
    exact absurd hadmits (by simp)
  · exact h

/-- Adding a member that is not listed yet lists nothing twice. -/
theorem NodupOn.add? (h : NodupOn P r) (hadd : add? store origin r m = some r')
    (hnew : P m → ¬r.lists m) : NodupOn P r' := by
  obtain ⟨key, d, -, -, hrest⟩ := add?_eq_some hadd
  have hpush : NodupOn P (r.push key ⟨m, origin, none⟩) := h.push key hnew
  exact option_foldlM_induct (P := NodupOn P) hrest hpush fun a _ c c' hc hstep => hc.offer? hstep

/-- Adding a member adds slots of that member and of methods. -/
theorem lists_of_add? (h : add? store origin r m = some r') {m' : MemberId}
    (hm' : r'.lists m') (hmethod : m'.kind ≠ .method) : r.lists m' ∨ m' = m := by
  obtain ⟨key, d, -, -, hrest⟩ := add?_eq_some h
  have hmain : ∀ m', m'.kind ≠ .method → r'.lists m' → r.lists m' ∨ m' = m := by
    refine option_foldlM_induct (P := fun c : Roster =>
      ∀ m', m'.kind ≠ .method → c.lists m' → r.lists m' ∨ m' = m) hrest ?_ ?_
    · intro m' _ hm'
      obtain ⟨e, he, rfl⟩ := lists_iff.1 hm'
      rcases List.mem_append.1 he with he | he
      · exact .inl (lists_iff.2 ⟨e, he, rfl⟩)
      · exact .inr (by rw [List.mem_singleton.1 he])
    · intro a _ c c' ih hoffer m' hkind hm'
      obtain ⟨key', -, rfl⟩ := offer?_eq_some hoffer
      split at hm'
      · obtain ⟨e, he, rfl⟩ := lists_iff.1 hm'
        rcases List.mem_append.1 he with he | he
        · exact ih _ hkind (lists_iff.2 ⟨e, he, rfl⟩)
        · rw [List.mem_singleton.1 he] at hkind
          exact absurd rfl hkind
      · exact ih m' hkind hm'
  exact hmain m' hmethod hm'

/-- The members that a type lists are added one by one, so that each is new in its turn. -/
theorem NodupOn.addAll {members : List MemberId} (h : NodupOn P r)
    (hadd : members.foldlM (Roster.add? store origin) r = some r')
    (hdata : ∀ m ∈ members, m.kind ≠ .method)
    (hnodup : members.Pairwise fun m m' => P m' → m ≠ m')
    (hnew : ∀ m ∈ members, P m → ¬r.lists m) : NodupOn P r' := by
  induction members generalizing r with
  | nil =>
    cases hadd
    exact h
  | cons m rest ih =>
    rw [List.foldlM_cons] at hadd
    obtain ⟨c, hc, hadd⟩ := Option.bind_eq_some_iff.1 hadd
    obtain ⟨hhead, htail⟩ := List.pairwise_cons.1 hnodup
    have hcm : NodupOn P c := h.add? hc (hnew m List.mem_cons_self)
    refine ih hcm hadd (fun m' hm' => hdata m' (List.mem_cons_of_mem _ hm')) htail ?_
    intro m' hm' hP hlists
    have hmem : m' ∈ m :: rest := List.mem_cons_of_mem _ hm'
    rcases lists_of_add? hc hlists (hdata m' hmem) with hlists | rfl
    · exact hnew m' hmem hP hlists
    · exact hhead m' hm' hP rfl

theorem data_of_mem_dataMembers (hm : m ∈ t.dataMembers) : m.kind ≠ .method := by
  unfold TypeDecl.dataMembers at hm
  rcases List.mem_append.1 hm with hm | hm
  · rcases List.mem_append.1 hm with hm | hm
    · obtain ⟨id, -, rfl⟩ := List.mem_map.1 hm
      exact nofun
    · obtain ⟨id, -, rfl⟩ := List.mem_map.1 hm
      exact nofun
  · obtain ⟨id, -, rfl⟩ := List.mem_map.1 hm
    exact nofun

/-- Contributions list nothing twice, since a proxy's member is only pushed under a new identifier.
-/
theorem NodupOn.contribute (h : NodupOn P r) (hr : Sound store r)
    (hcontribute : proxies.foldlM (contribute? store) r = some r')
    (hproxies : ∀ p ∈ proxies, Tabulated store p) : NodupOn P r' := by
  refine contribute_induct hcontribute hr hproxies h ?_
  intro c m c' key hc hnodup hkey hnew hadd
  refine hnodup.add? hadd fun _ hlists => ?_
  -- What is there already agrees with itself, so that a fresh identifier is a fresh member.
  rw [hc.contains_of_lists hlists hkey] at hnew
  cases hnew

end Nodup

/-- No member with the property has two slots if the type lists none with the property twice; for
methods, which are listed last, that does not matter. -/
theorem nodupOn_of_build? {P : MemberId → Prop} (h : build? store t proxies = some r)
    (hproxies : ∀ p ∈ proxies, Tabulated store p)
    (hnodup : t.dataMembers.Pairwise fun m m' => P m' → m ≠ m') : NodupOn P r := by
  obtain ⟨own, hown, hrest⟩ := Option.bind_eq_some_iff.1 h
  obtain ⟨base, hbase, hmethods⟩ := Option.bind_eq_some_iff.1 hown
  have hdata : NodupOn P base := nodupOn_empty.addAll hbase
    (fun m hm => data_of_mem_dataMembers hm) hnodup fun m _ _ hlists => by
      obtain ⟨e, he, -⟩ := lists_iff.1 hlists
      exact absurd he List.not_mem_nil
  have hall : NodupOn P own := option_foldlM_induct (P := NodupOn P) hmethods hdata
    fun id _ c c' hc hoffer => hc.offer? hoffer
  exact hall.contribute ((grows_of_ofType? hown).sound sound_empty) hrest hproxies

/-- No method has two slots, whatever the type lists twice. -/
theorem nodupOn_methods_of_build? (h : build? store t proxies = some r)
    (hproxies : ∀ p ∈ proxies, Tabulated store p) : NodupOn (fun m => m.kind = .method) r := by
  refine nodupOn_of_build? h hproxies ?_
  refine List.pairwise_of_forall_mem_list fun m _ m' hm' hkind => ?_
  exact absurd hkind (data_of_mem_dataMembers hm')

end TypeModel.Roster
