import TypeModel.Proofs.OverloadClusters
import TypeModel.Proofs.ProxyLookup
import TypeModel.Proofs.Roster

/-!
# What a type record is made of

A record that can be built comes out of its roster slot by slot: each slot becomes a draft, and each
draft a member, under the same identifier (`TypeRecord.roster_of_build`). What is said of the slots
of a roster can so be said of the members of a record.
-/

namespace TypeModel

/-! ## Proxies -/

namespace Proxy

variable {store : Store} {names : Vocabulary} {id : TypeId} {p : Proxy}

/-- A table files its members under their identifiers. -/
theorem tabulated_of_keyed? {members : List MemberId} {table : IdentifierMap MemberId}
    (h : keyed? store members = some table) :
    ∀ entry ∈ table.entries, store.identifier? entry.2 = some entry.1 := by
  refine option_foldlM_induct (P := fun c : IdentifierMap MemberId =>
    ∀ entry ∈ c.entries, store.identifier? entry.2 = some entry.1) h
    (fun _ h => absurd h List.not_mem_nil) ?_
  intro m _ c c' hc hstep entry hentry
  obtain ⟨key, hkey, hstep⟩ := Option.bind_eq_some_iff.1 hstep
  cases hstep
  rcases List.mem_append.1 hentry with hentry | hentry
  · exact hc entry hentry
  · rw [List.mem_singleton.1 hentry]
    exact hkey

theorem values_of_keyed? {members : List MemberId} {table : IdentifierMap MemberId}
    (h : keyed? store members = some table) : table.values = members := by
  have hmain : ∀ {c : IdentifierMap MemberId},
      members.foldlM (fun t m => return t.push (← store.identifier? m) m) c = some table →
        table.values = c.values ++ members := by
    clear h
    induction members with
    | nil =>
      intro c h
      cases h
      exact (List.append_nil _).symm
    | cons m rest ih =>
      intro c h
      rw [List.foldlM_cons] at h
      obtain ⟨c', hc', h⟩ := Option.bind_eq_some_iff.1 h
      obtain ⟨key, -, hc'⟩ := Option.bind_eq_some_iff.1 hc'
      cases hc'
      rw [ih h, IdentifierMap.values_push, List.append_assoc]
      rfl
  exact hmain h

theorem values_of_build (h : build store names id = .ok p) :
    ∃ t, store.type? id = some t ∧ p.members.values = t.offeredMembers := by
  obtain ⟨t, marker, members, ht, -, hmembers, rfl⟩ := build_eq_ok h
  exact ⟨t, ht, values_of_keyed? hmembers⟩

theorem tabulated_of_build (h : build store names id = .ok p) : Roster.Tabulated store p := by
  obtain ⟨t, marker, members, -, -, hmembers, rfl⟩ := build_eq_ok h
  exact tabulated_of_keyed? hmembers

theorem filed_of_build (h : build store names id = .ok p) : p.members.Filed := by
  obtain ⟨t, marker, members, -, -, hmembers, rfl⟩ := Proxy.build_eq_ok h
  refine option_foldlM_induct (P := IdentifierMap.Filed) hmembers IdentifierMap.filed_empty ?_
  intro m _ c c' hc hstep
  obtain ⟨key, -, hstep⟩ := Option.bind_eq_some_iff.1 hstep
  cases hstep
  exact hc.push key m

theorem tabulated_of_proxiesOf {t : TypeDecl} {proxies : List Proxy} (ht : store.type? id = some t)
    (h : store.proxiesOf names id = .ok proxies) : ∀ p ∈ proxies, Roster.Tabulated store p :=
  fun p hp => tabulated_of_build ((Store.mem_proxiesOf ht h p).1 hp).1

end Proxy

/-! ## Overloads -/

namespace Overloads

theorem mem_of_lastIndexOf? {α : Type} [DecidableEq α] {x : α} {xs : List α} {i : Nat}
    (h : lastIndexOf? x xs = some i) : x ∈ xs := by
  induction xs generalizing i with
  | nil => cases h
  | cons y rest ih =>
    rw [lastIndexOf?] at h
    cases hrest : lastIndexOf? x rest with
    | some j => exact List.mem_cons_of_mem _ (ih hrest)
    | none =>
      simp only [hrest] at h
      by_cases heq : y = x
      · rw [heq]
        exact List.mem_cons_self
      · rw [if_neg heq] at h
        cases h

theorem mem_of_mem_group {methods : List (MethodId × OverloadKey)} {g : OverloadGroup}
    (hg : g ∈ (ofMethods methods).groups) {id : MethodId} (hid : id ∈ g.methods) :
    id ∈ methods.map Prod.fst := by
  obtain ⟨key, -, rfl⟩ := mem_groups_iff.1 hg
  exact List.mem_map_of_mem (f := Prod.fst) (mem_sharing.1 hid)

/-- A method takes part in the grouping through a draft of it that is not ignored. -/
theorem exists_draft_of_candidate? {drafts : IdentifierMap MemberDraft} {id : MethodId}
    {c : MethodId × OverloadKey} (h : candidate? drafts id = some c) :
    ∃ e ∈ drafts.entries, e.2.member = .method id ∧ e.2.ignored = false ∧
      c = (id, ⟨e.1.name, e.2.details.isStaticMethod⟩) := by
  obtain ⟨e, hfind, h⟩ := Option.bind_eq_some_iff.1 h
  have hmember := List.find?_some hfind
  dsimp only at h
  split at h
  · cases h
  · next hignored =>
    cases h
    exact ⟨e, List.mem_of_find?_eq_some hfind, of_decide_eq_true hmember,
      Bool.eq_false_iff.2 hignored, rfl⟩

theorem candidate?_fst {drafts : IdentifierMap MemberDraft} {id : MethodId}
    {c : MethodId × OverloadKey} (h : candidate? drafts id = some c) : c.1 = id := by
  obtain ⟨e, -, -, -, rfl⟩ := exists_draft_of_candidate? h
  rfl

theorem mem_methods_of_mem_group {t : TypeDecl} {drafts : IdentifierMap MemberDraft}
    {g : OverloadGroup} (hg : g ∈ (ofDrafts t drafts).groups) {id : MethodId}
    (hid : id ∈ g.methods) : id ∈ t.methods := by
  obtain ⟨c, hc, rfl⟩ := List.mem_map.1 (mem_of_mem_group hg hid)
  obtain ⟨listed, hlisted, hcandidate⟩ := List.mem_filterMap.1 hc
  rw [candidate?_fst hcandidate]
  exact hlisted

/-- Only methods that the type itself lists are numbered. -/
theorem mem_methods_of_index? {t : TypeDecl} {drafts : IdentifierMap MemberDraft} {m : MemberId}
    {i : Nat} (h : (ofDrafts t drafts).index? m = some i) : ∃ id ∈ t.methods, m = .method id := by
  cases m with
  | method id =>
    obtain ⟨g, hg, hindex⟩ := List.exists_of_findSome?_eq_some h
    exact ⟨id, mem_methods_of_mem_group hg (mem_of_lastIndexOf? hindex), rfl⟩
  | _ => cases h

end Overloads

/-! ## Members -/

section Members

variable {store : Store} {names : Vocabulary} {proxies : List Proxy} {slot : Slot}
  {draft : MemberDraft} {m : Member}

/-- What goes into the core of a member, and when it is hidden. -/
theorem MemberCore.ofMember?_eq_some {origin : Origin} {id : MemberId} {core : MemberCore}
    (h : ofMember? store names proxies origin id = some core) :
    ∃ d, store.member? id = some d ∧ backing? store proxies origin id = some core.backing ∧
      backedMetadata? store id core.backing = some core.metadata ∧
      store.qualifiedMemberName? id = some core.qualifiedName ∧
      store.declaredMemberName? id = some core.name ∧
      core.hidden = (isHiddenName core.qualifiedName || core.metadata.has names.ignore ||
        d.mentionsPointer) := by
  obtain ⟨d, hd, h⟩ := Option.bind_eq_some_iff.1 h
  obtain ⟨backing, hbacking, h⟩ := Option.bind_eq_some_iff.1 h
  obtain ⟨metadata, hmetadata, h⟩ := Option.bind_eq_some_iff.1 h
  obtain ⟨qualifiedName, hqualified, h⟩ := Option.bind_eq_some_iff.1 h
  obtain ⟨name, hname, h⟩ := Option.bind_eq_some_iff.1 h
  cases h
  exact ⟨d, hd, hbacking, hmetadata, hqualified, hname, rfl⟩

/-- A contributed member is backed by itself. -/
theorem MemberCore.backing_of_proxy {id : MemberId} {core : MemberCore}
    (h : MemberCore.ofMember? store names proxies .proxy id = some core) : core.backing = id := by
  obtain ⟨-, -, hbacking, -⟩ := MemberCore.ofMember?_eq_some h
  exact (Option.some.inj hbacking).symm

/-- What goes into the draft of a slot, and when it is ignored. -/
theorem MemberDraft.ofSlot?_eq_some
    (h : MemberDraft.ofSlot? store names proxies slot = some draft) :
    ∃ inherited d, inheritsHidden? store names proxies slot = some inherited ∧
      store.member? slot.member = some d ∧ draft.member = slot.member ∧
      MemberCore.ofMember? store names proxies slot.origin slot.member = some draft.core ∧
      MemberDetails.ofDecl slot.accessorOf slot.member d = some draft.details ∧
      draft.ignored = (draft.core.hidden || inherited) := by
  obtain ⟨core, hcore, h⟩ := Option.bind_eq_some_iff.1 h
  obtain ⟨inherited, hinherited, h⟩ := Option.bind_eq_some_iff.1 h
  obtain ⟨d, hd, h⟩ := Option.bind_eq_some_iff.1 h
  obtain ⟨details, hdetails, h⟩ := Option.bind_eq_some_iff.1 h
  cases h
  exact ⟨inherited, d, hinherited, hd, rfl, hcore, hdetails, rfl⟩

theorem MemberDetails.kind_ofDecl {accessorOf : Option MemberId} {m : MemberId} {d : MemberDecl}
    {details : MemberDetails} (h : ofDecl accessorOf m d = some details) :
    details.kind = m.kind := by
  cases m <;> cases d <;> cases h <;> rfl

@[simp] theorem MemberDetails.kind_withOverloadIndex (details : MemberDetails)
    (index : Option Nat) : (details.withOverloadIndex index).kind = details.kind := by
  cases details <;> rfl

end Members

namespace TypeRecord

section Finish

variable {names : Vocabulary} {id : TypeId} {t : TypeDecl} {proxies : List Proxy}
  {outline : Outline} {moduleIgnored typeIgnored : Bool} {overloads : Overloads}
  {draft : MemberDraft} {m : Member} {r : TypeRecord}

/-- A draft is finished with the one visible name that its metadata and overload index give. -/
theorem finishMember_eq_ok (h : finishMember names id typeIgnored overloads draft = .ok m) :
    ∃ visible, names.visibleName draft.core.metadata draft.core.name
        (overloads.index? draft.member) = .ok visible ∧
      m = {
        owner := id
        decl := .member draft.member
        backing := .member draft.core.backing
        qualifiedName := draft.core.qualifiedName
        name := draft.core.name
        visibleName := visible
        metadata := draft.core.metadata
        ignored := draft.ignored || typeIgnored
        details := draft.details.withOverloadIndex (overloads.index? draft.member) } := by
  obtain ⟨visible, hvisible, h⟩ := except_bind_eq_ok.1 h
  cases h
  exact ⟨visible, hvisible, rfl⟩

theorem kind_of_finish {store : Store} {slot : Slot}
    (hdraft : MemberDraft.ofSlot? store names proxies slot = some draft)
    (hm : finishMember names id typeIgnored overloads draft = .ok m) :
    m.kind = slot.member.kind := by
  obtain ⟨inherited, d, -, -, -, -, hdetails, -⟩ := MemberDraft.ofSlot?_eq_some hdraft
  obtain ⟨visible, -, rfl⟩ := finishMember_eq_ok hm
  show (draft.details.withOverloadIndex _).kind = _
  rw [MemberDetails.kind_withOverloadIndex, MemberDetails.kind_ofDecl hdetails]

/-- What goes into a record once its members are drafted. -/
theorem finish_eq_ok (h : finish names moduleIgnored proxies id t outline = .ok r) :
    ∃ visible, names.visibleName (mergedMetadata t proxies) t.fullName none = .ok visible ∧
      outline.drafts.mapM (fun _ draft =>
        finishMember names id r.ignored (.ofDrafts t outline.drafts) draft) = .ok r.members ∧
      r = {
        id
        fullName := t.fullName
        visibleName := visible
        kind := t.kind
        proxies
        metadata := mergedMetadata t proxies
        members := r.members
        staticConstructor := (Overloads.ofDrafts t outline.drafts).staticConstructor.bind fun m =>
          r.members.values.find? fun member => member.decl = .member (.method m)
        groups := (Overloads.ofDrafts t outline.drafts).groups
        literals := outline.literals
        combinesFlags := t.kind = .enumType &&
          (Metadata.ofAnnotations t.fullName t.annotations).has names.flags
        ignored := moduleIgnored || isHiddenName t.fullName ||
          (mergedMetadata t proxies).has names.ignore } := by
  obtain ⟨visible, hvisible, h⟩ := except_bind_eq_ok.1 h
  obtain ⟨members, hmembers, h⟩ := except_bind_eq_ok.1 h
  cases h
  exact ⟨visible, hvisible, hmembers, rfl⟩

end Finish

section Build

variable {store : Store} {names : Vocabulary} {id : TypeId} {r : TypeRecord}

/-- A record that is built has a type, a module, proxies and an outline behind it. -/
theorem build_eq_ok (h : build store names id = .ok r) : ∃ t module outline,
    store.type? id = some t ∧ ModuleRecord.build? store names t.module = some module ∧
    store.proxiesOf names id = .ok r.proxies ∧
    outline? store names r.proxies id t = some outline ∧
    finish names module.ignored r.proxies id t outline = .ok r := by
  obtain ⟨t, ht, h⟩ := except_bind_eq_ok.1 h
  obtain ⟨module, hmodule, h⟩ := except_bind_eq_ok.1 h
  obtain ⟨proxies, hproxies, h⟩ := except_bind_eq_ok.1 h
  obtain ⟨outline, houtline, h⟩ := except_bind_eq_ok.1 h
  have hfinish := judged_eq_ok.1 h
  obtain ⟨visible, -, -, hr⟩ := finish_eq_ok hfinish
  have heq : r.proxies = proxies := by rw [hr]
  rw [heq]
  exact ⟨t, module, outline, inRange_eq_ok.1 ht, inRange_eq_ok.1 hmodule, hproxies,
    inRange_eq_ok.1 houtline, hfinish⟩

/-- The drafts of an outline are those of the slots of the roster, under the same identifiers. -/
theorem roster_of_outline? {proxies : List Proxy} {t : TypeDecl} {outline : Outline}
    (h : outline? store names proxies id t = some outline) : ∃ roster,
      Roster.build? store t proxies = some roster ∧
      roster.Replaces (fun slot draft =>
        MemberDraft.ofSlot? store names proxies slot = some draft) outline.drafts := by
  obtain ⟨roster, hroster, h⟩ := Option.bind_eq_some_iff.1 h
  obtain ⟨drafts, hdrafts, h⟩ := Option.bind_eq_some_iff.1 h
  obtain ⟨literals, -, h⟩ := Option.bind_eq_some_iff.1 h
  cases h
  exact ⟨roster, hroster, IdentifierMap.replaces_of_option_mapM hdrafts⟩

/-- A record comes out of its roster slot by slot. -/
theorem roster_of_build (h : build store names id = .ok r) : ∃ t roster drafts,
    store.type? id = some t ∧ store.proxiesOf names id = .ok r.proxies ∧
    Roster.build? store t r.proxies = some roster ∧
    roster.Replaces (fun slot draft =>
      MemberDraft.ofSlot? store names r.proxies slot = some draft) drafts ∧
    drafts.Replaces (fun draft m =>
      finishMember names id r.ignored (.ofDrafts t drafts) draft = .ok m) r.members := by
  obtain ⟨t, module, outline, ht, -, hproxies, houtline, hfinish⟩ := build_eq_ok h
  obtain ⟨roster, hroster, hdrafts⟩ := roster_of_outline? houtline
  obtain ⟨visible, -, hmembers, -⟩ := finish_eq_ok hfinish
  exact ⟨t, roster, outline.drafts, ht, hproxies, hroster, hdrafts,
    IdentifierMap.replaces_of_except_mapM hmembers⟩

/-- Each member of a record has gone through the phases. -/
theorem exists_slot_of_build (h : build store names id = .ok r) {x : Member}
    (hx : x ∈ r.members.values) : ∃ t drafts slot draft,
      MemberDraft.ofSlot? store names r.proxies slot = some draft ∧
      finishMember names id r.ignored (.ofDrafts t drafts) draft = .ok x := by
  obtain ⟨t, roster, drafts, -, -, -, hdrafts, hmembers⟩ := roster_of_build h
  obtain ⟨e, he, rfl⟩ := List.mem_map.1 hx
  obtain ⟨entry, -, -, draft, hdraft, hfinish⟩ :=
    exists_of_mem_right (hdrafts.trans hmembers).entries he
  exact ⟨t, drafts, entry.2, draft, hdraft, hfinish⟩

end Build

end TypeRecord

end TypeModel
