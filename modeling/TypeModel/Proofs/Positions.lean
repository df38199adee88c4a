import TypeModel.Proofs.Overlay
import TypeModel.Proofs.OverloadNames
import TypeModel.TypeRecord.Positions

/-!
# Positions lead where they should

A position that was noted while a list grew leads into the list however far it has grown since
(`PositionTable.follow_fill_insert`, `PositionTable.follow_fill_insertIfNew`). So the lookups of a
record by position never fail, and they find what the plain lookups find (`TypeRecord.Located`); and
so does the grouping of methods, which goes by the positions of the type's own drafts
(`TypeRecord.Grouped`).
-/

namespace TypeModel

/-! ## Tables of positions -/

namespace PositionTable

variable {κ α : Type}

variable {note : PositionTable κ → κ → Nat → PositionTable κ} {keys : α → List κ}

theorem fill_append_singleton (xs : List α) (x : α) : fill note keys (xs ++ [x]) =
    (keys x).foldl (fun t key => note t key xs.length) (fill note keys xs) := by
  unfold fill
  rw [List.zipIdx_append, List.foldl_append, Nat.zero_add]
  rfl

variable [DecidableEq κ]

/-- A table that is followed without failure leads nowhere or to an element of the list. -/
theorem follow_eq_ok {t : PositionTable κ} {xs : List α} {key : κ} {o : Option α}
    (h : t.follow xs key = .ok o) : (t.get? key).bind (xs[·]?) = o ∧
      ((t.get? key).isSome → o.isSome) := by
  unfold follow at h
  cases hposition : t.get? key with
  | none =>
    rw [hposition] at h
    cases h
    exact ⟨rfl, nofun⟩
  | some i =>
    rw [hposition] at h
    obtain ⟨x, hx, rfl⟩ := except_map_eq_ok.1 h
    exact ⟨inRange_eq_ok.1 hx, fun _ => rfl⟩

theorem follow_of_none {t : PositionTable κ} {xs : List α} {key : κ}
    (h : t.get? key = none) : t.follow xs key = .ok none := by
  unfold follow
  rw [h]

theorem follow_of_some {t : PositionTable κ} {xs : List α} {key : κ} {i : Nat} {x : α}
    (h : t.get? key = some i) (hx : xs[i]? = some x) : t.follow xs key = .ok (some x) := by
  unfold follow
  rw [h]
  dsimp only
  rw [hx]
  rfl

/-- In a list that has grown since, a position that forgets earlier ones leads to the last element
with the key. -/
theorem follow_fill_insert (keys : α → List κ) (xs ys : List α) (key : κ) :
    (fill .insert keys xs).follow (xs ++ ys) key =
      .ok (xs.reverse.find? fun x => decide (key ∈ keys x)) := by
  induction xs using List.reverseRecOn generalizing ys with
  | nil => rfl
  | append_singleton xs x ih =>
    have hposition := (fill .insert keys xs).get?_foldl_insert key xs.length (keys x)
    rw [← fill_append_singleton] at hposition
    rw [List.reverse_append, List.reverse_singleton, List.singleton_append]
    by_cases hkey : key ∈ keys x
    · rw [if_pos hkey] at hposition
      rw [List.find?_cons_of_pos (by simpa using hkey)]
      exact follow_of_some hposition (by simp)
    · rw [if_neg hkey] at hposition
      rw [List.find?_cons_of_neg (by simpa using hkey), List.append_assoc, ← ih ([x] ++ ys)]
      unfold follow
      rw [hposition]

/-- A position that gives way to an earlier one leads to the first element with the key. -/
theorem follow_fill_insertIfNew (keys : α → List κ) (xs ys : List α) (key : κ) :
    (fill .insertIfNew keys xs).follow (xs ++ ys) key =
      .ok (xs.find? fun x => decide (key ∈ keys x)) := by
  induction xs using List.reverseRecOn generalizing ys with
  | nil => rfl
  | append_singleton xs x ih =>
    have hposition := (fill .insertIfNew keys xs).get?_foldl_insertIfNew key xs.length (keys x)
    rw [← fill_append_singleton] at hposition
    have hold := ih ([x] ++ ys)
    rw [List.find?_append, List.append_assoc]
    cases hearlier : (fill .insertIfNew keys xs).get? key with
    | some i =>
      rw [hearlier, Option.some_or] at hposition
      obtain ⟨hfound, hsome⟩ := follow_eq_ok hold
      obtain ⟨y, hy⟩ := Option.isSome_iff_exists.1 (hsome (by rw [hearlier]; rfl))
      rw [hearlier, Option.bind_some] at hfound
      rw [hy, Option.some_or, follow_of_some hposition (hfound.trans hy)]
    | none =>
      rw [hearlier, Option.none_or] at hposition
      rw [follow_of_none hearlier] at hold
      rw [← Except.ok.inj hold, Option.none_or]
      by_cases hkey : key ∈ keys x
      · rw [if_pos hkey] at hposition
        rw [List.find?_cons_of_pos (by simpa using hkey)]
        exact follow_of_some hposition (by simp)
      · rw [if_neg hkey] at hposition
        rw [List.find?_cons_of_neg (by simpa using hkey)]
        exact follow_of_none hposition

theorem follow_fill_insert_self (keys : α → List κ) (xs : List α) (key : κ) :
    (fill .insert keys xs).follow xs key =
      .ok (xs.reverse.find? fun x => decide (key ∈ keys x)) := by
  simpa using follow_fill_insert keys xs [] key

theorem follow_fill_insertIfNew_self (keys : α → List κ) (xs : List α) (key : κ) :
    (fill .insertIfNew keys xs).follow xs key = .ok (xs.find? fun x => decide (key ∈ keys x)) := by
  simpa using follow_fill_insertIfNew keys xs [] key

end PositionTable

/-! ## Tables keyed by identifier -/

namespace IdentifierMap

variable {α : Type}

/-- Whether candidates are searched before or after their positions are followed is the same. -/
theorem find?_followed {m : IdentifierMap α} {slots : List (Nat × Identifier)}
    {entries : List (Identifier × α)}
    (h : List.Forall₂ (fun slot e => m.entries[slot.1]? = some e) slots entries)
    (hkeys : ∀ slot ∈ slots, ∀ e, m.entries[slot.1]? = some e → e.1 = slot.2)
    (p : Identifier → Bool) :
    (slots.find? fun slot => p slot.2).bind (fun slot => m.entries[slot.1]?) =
      entries.find? fun e => p e.1 := by
  induction h with
  | nil => rfl
  | @cons slot e slots entries hhead _ ih =>
    have hkey : e.1 = slot.2 := hkeys slot List.mem_cons_self e hhead
    have hrest := ih fun slot hslot => hkeys slot (List.mem_cons_of_mem _ hslot)
    simp only [List.find?_cons, hkey]
    cases p slot.2 with
    | true => exact hhead
    | false => exact hrest

/-- In a filed map all candidates have their positions, so that following them finds what a lookup
finds. -/
theorem follow_of_filed {m : IdentifierMap α} (h : m.Filed) (key : Identifier) :
    m.follow key = .ok (m.get? key) := by
  have hslots : ∀ slot ∈ m.candidates key, ∃ e, m.entries[slot.1]? = some e ∧ e.1 = slot.2 := by
    rintro ⟨i, k⟩ hslot
    obtain ⟨⟨value, hvalue⟩, -⟩ := h.mem_candidates.1 hslot
    exact ⟨(k, value), hvalue, rfl⟩
  obtain ⟨entries, hentries⟩ :
      ∃ entries, (m.candidates key).mapM (fun slot => Answer.inRange m.entries[slot.1]?) =
        .ok entries :=
    except_mapM_isOk_iff.2 fun slot hslot => by
      obtain ⟨e, he, -⟩ := hslots slot hslot
      exact ⟨e, inRange_eq_ok.2 he⟩
  have hall : List.Forall₂ (fun slot e => m.entries[slot.1]? = some e) (m.candidates key) entries :=
    (except_mapM_eq_ok.1 hentries).imp fun slot e he => inRange_eq_ok.1 he
  have hkeys : ∀ slot ∈ m.candidates key, ∀ e, m.entries[slot.1]? = some e → e.1 = slot.2 := by
    intro slot hslot e he
    obtain ⟨e', he', hkey⟩ := hslots slot hslot
    rw [he] at he'
    cases he'
    exact hkey
  have hsame := find?_followed hall hkeys fun k => decide (k = key)
  have hagreeing := find?_followed hall hkeys fun k => k.agrees key
  unfold follow
  rw [hentries, except_ok_bind, ← hsame, ← hagreeing]
  refine congrArg Except.ok ?_
  unfold get? position?
  cases hidentical : (m.candidates key).find? fun slot => decide (slot.2 = key) with
  | none =>
    cases hfound : (m.candidates key).find? fun slot => slot.2.agrees key with
    | none => simp [hidentical, hfound]
    | some slot => cases hentry : m.entries[slot.1]? <;> simp [hidentical, hfound, hentry]
  | some slot =>
    obtain ⟨e, he, -⟩ := hslots slot (List.mem_of_find?_eq_some hidentical)
    simp [hidentical, he]

/-- A table that is filled by pushes can be followed at any time. -/
theorem follow_pushes (entries : List (Identifier × α)) (key : Identifier) :
    let m : IdentifierMap α := entries.foldl (fun m e => m.push e.1 e.2) .empty
    m.follow key = .ok (m.get? key) :=
  follow_of_filed (filed_ofList entries) key

end IdentifierMap

/-! ## Lookups in a record -/

namespace TypeRecord

/-- Constructors are noted by position, one after another. -/
theorem follow_constructorPositions (members later : List Member) :
    (constructorPositions members).mapM
        (fun i => Answer.inRange (members ++ later)[i]?) =
      .ok (members.filter fun m => m.details.isConstructor) := by
  induction members using List.reverseRecOn generalizing later with
  | nil => rfl
  | append_singleton members m ih =>
    have hpositions : constructorPositions (members ++ [m]) =
        constructorPositions members ++
          if m.details.isConstructor then [members.length] else [] := by
      unfold constructorPositions
      rw [List.zipIdx_append, List.filterMap_append, Nat.zero_add]
      cases hconstructor : m.details.isConstructor <;> simp [hconstructor]
    have hold := ih ([m] ++ later)
    rw [← List.append_assoc] at hold
    rw [hpositions, List.mapM_append, hold, List.filter_append]
    cases hconstructor : m.details.isConstructor with
    | false => simp [hconstructor]
    | true =>
      simp only [if_true, List.mapM_cons, List.mapM_nil, except_ok_bind, List.append_assoc,
        List.getElem?_append_right (Nat.le_refl _), Nat.sub_self, Answer.inRange]
      simp [hconstructor]

/-- The lookups of a record by position never fail, and they find what the plain lookups find. -/
structure Located (r : TypeRecord) : Prop where
  member : ∀ key, r.memberAt key = .ok (r.member? key)
  memberOfDecl : ∀ decl, r.memberOfDeclAt r.members.values decl = .ok (r.memberOfDecl? decl)
  /-- What was noted before all members were there leads to the same members. -/
  early : ∀ sofar, sofar <+: r.members.values → ∀ decl,
    r.memberOfDeclAt sofar decl = .ok (sofar.reverse.find? fun m => m.decl = decl)
  constructors : r.constructorsAt = .ok r.constructors
  group : ∀ id, r.groupAt id = .ok (r.groupOf? id)
  literalOfValue : ∀ value, r.literalOfValueAt value = .ok (r.literalOfValue? value)
  literalNamed : ∀ name, r.literalNamedAt name = .ok (r.literalNamed? name)

variable {store : Store} {names : Vocabulary} {id : TypeId} {r : TypeRecord}

/-- The record of a type can be followed by position. -/
theorem located_of_build (h : build store names id = .ok r) : r.Located := by
  obtain ⟨t, roster, ht, hproxies, hroster, hfills⟩ := fills_of_build h
  obtain ⟨t', module, outline, -, -, -, -, hfinish⟩ := build_eq_ok h
  obtain ⟨visible, -, -, hr⟩ := finish_eq_ok hfinish
  have hgroups : r.groups = (Overloads.ofDrafts t' outline.drafts).groups := by rw [hr]
  have hsound := Roster.sound_of_build? hroster (Proxy.tabulated_of_proxiesOf ht hproxies)
  have hearly : ∀ sofar, sofar <+: r.members.values → ∀ decl,
      r.memberOfDeclAt sofar decl = .ok (sofar.reverse.find? fun m => m.decl = decl) := by
    rintro sofar ⟨later, hlater⟩ decl
    have hfollow := PositionTable.follow_fill_insert (fun m : Member => [m.decl]) sofar later decl
    simp only [List.mem_singleton, eq_comm (a := decl)] at hfollow
    unfold memberOfDeclAt declPositions
    rw [← hlater, hfollow]
  constructor
  case member => exact fun key => IdentifierMap.follow_of_filed (hsound.filed.replaces hfills) key
  case memberOfDecl => exact fun decl => hearly _ (List.prefix_refl _) decl
  case early => exact hearly
  case constructors =>
    have hall := follow_constructorPositions r.members.values []
    rw [List.append_nil] at hall
    exact hall
  case group =>
    intro method
    have hfollow := PositionTable.follow_fill_insert_self OverloadGroup.methods r.groups method
    unfold groupAt groupPositions groupOf?
    rw [hfollow, find?_reverse_of_unique]
    · simp only [List.contains_eq_mem]
    · intro g hg g' hg' hid hid'
      rw [hgroups] at hg hg'
      exact (Overloads.keyed_candidates _ _).group_unique hg (of_decide_eq_true hid) hg'
        (of_decide_eq_true hid')
  case literalOfValue =>
    intro value
    have hfollow := PositionTable.follow_fill_insertIfNew_self (fun e : EnumLiteral => [e.value])
      r.literals value
    simp only [List.mem_singleton, eq_comm (a := value)] at hfollow
    exact hfollow
  case literalNamed =>
    intro name
    have hfollow := PositionTable.follow_fill_insertIfNew_self (fun e : EnumLiteral => [e.name])
      r.literals name
    simp only [List.mem_singleton, eq_comm (a := name)] at hfollow
    exact hfollow

end TypeRecord

/-! ## Grouping methods -/

namespace Overloads

theorem staticConstructor_mem {t : TypeDecl} {drafts : IdentifierMap MemberDraft} {id : MethodId}
    (h : (ofDrafts t drafts).staticConstructor = some id) : id ∈ t.methods := by
  have hmem := List.mem_of_getLast? h
  obtain ⟨cluster, hcluster, hconstructor⟩ := List.mem_filterMap.1 hmem
  obtain ⟨key, -, rfl⟩ := OverloadCluster.mem_ofMethods.1 hcluster
  obtain ⟨hsole, -⟩ := OverloadCluster.staticConstructor?_eq_some_iff.1 hconstructor
  have hsharing : id ∈ sharing (t.methods.filterMap (candidate? drafts)) key :=
    Eq.mpr (congrArg (id ∈ ·) hsole) (List.mem_singleton_self id)
  obtain ⟨listed, hlisted, hcandidate⟩ := List.mem_filterMap.1 (mem_sharing.1 hsharing)
  obtain rfl : id = listed := candidate?_fst hcandidate
  exact hlisted

variable {t : TypeDecl} {drafts : IdentifierMap MemberDraft}
  {own contributed : List (Identifier × MemberDraft)} {e : Identifier × MemberDraft}
  {id : MethodId}

/-- The draft of a method is found by position, whatever list its position is followed in. -/
theorem exists_position_of_own (hunique : UniqueDrafts drafts)
    (heq : drafts.entries = own ++ contributed) (he : e ∈ own)
    (hmember : e.2.member = .method id) :
    ∃ i, (draftPositions own).get? (.method id) = some i ∧ own[i]? = some e := by
  have hown : own ⊆ drafts.entries := by
    rw [heq]
    exact List.subset_append_left _ _
  have hfind :
      own.reverse.find? (fun entry => decide (.method id ∈ [entry.2.member])) = some e := by
    refine find?_eq_some_of_unique (List.mem_reverse.2 he) (by simp [hmember]) ?_
    intro e' he' hmember'
    have hmember' : e'.2.member = .method id := by simpa [eq_comm] using hmember'
    exact eq_of_unique_drafts hunique (hown (List.mem_reverse.1 he')) (hown he) hmember' hmember
  have hfollow := PositionTable.follow_fill_insert_self
    (fun entry : Identifier × MemberDraft => [entry.2.member]) own (.method id)
  rw [hfind] at hfollow
  obtain ⟨hfound, -⟩ := PositionTable.follow_eq_ok hfollow
  exact Option.bind_eq_some_iff.1 hfound

/-- Followed by position, a listed method has the draft that a search finds. -/
theorem candidateAt_eq_ok (hunique : UniqueDrafts drafts)
    (heq : drafts.entries = own ++ contributed) (he : e ∈ own)
    (hmember : e.2.member = .method id) : candidateAt own id = .ok (candidate? drafts id) := by
  obtain ⟨i, hi, hplace⟩ := exists_position_of_own hunique heq he hmember
  have hmem : e ∈ drafts.entries := by
    rw [heq]
    exact List.mem_append_left _ he
  have hfind : drafts.entries.find? (fun entry => entry.2.member = .method id) = some e :=
    find?_eq_some_of_unique hmem (decide_eq_true hmember) fun e' he' hmember' =>
      eq_of_unique_drafts hunique he' hmem (of_decide_eq_true hmember') hmember
  unfold candidateAt candidate?
  rw [PositionTable.follow_of_some hi hplace, hfind]
  rfl

/-- Found by position among the type's own drafts, methods are grouped as the record has them. -/
theorem byPosition_eq_ok (hunique : UniqueDrafts drafts)
    (heq : drafts.entries = own ++ contributed)
    (hown : ∀ id ∈ t.methods, ∃ e ∈ own, e.2.member = .method id) :
    byPosition t own = .ok (ofDrafts t drafts) := by
  have hcandidates : t.methods.mapM (candidateAt own) =
      .ok (t.methods.map (candidate? drafts)) := except_mapM_eq_map fun id hid => by
    obtain ⟨e, he, hmember⟩ := hown id hid
    exact candidateAt_eq_ok hunique heq he hmember
  unfold byPosition
  rw [hcandidates, except_ok_bind, List.filterMap_map]
  rfl

end Overloads

namespace TypeRecord

/-- The methods of a type are grouped and numbered, and its static constructor is found, by the
positions of its own drafts. -/
structure Grouped (r : TypeRecord) (t : TypeDecl) (own : List (Identifier × MemberDraft)) :
    Prop where
  overloads : ∃ o, Overloads.byPosition t own = .ok o ∧ o.groups = r.groups ∧
    o.staticConstructorAt own r.members.values = .ok r.staticConstructor
  numbered : ∀ g ∈ r.groups, ∀ id ∈ g.methods, ∃ e,
    (Overloads.draftPositions own).follow own (.method id) = .ok (some e) ∧
      e.2.member = .method id

variable {store : Store} {names : Vocabulary} {id : TypeId} {r : TypeRecord}

/-- The drafts of a type start with those of its own members. -/
theorem exists_own_drafts {t : TypeDecl} {proxies : List Proxy} {roster : Roster}
    {drafts : IdentifierMap MemberDraft} (hroster : Roster.build? store t proxies = some roster)
    (hproxies : ∀ p ∈ proxies, Roster.Tabulated store p)
    (hdrafts : roster.Replaces (fun slot draft =>
      MemberDraft.ofSlot? store names proxies slot = some draft) drafts) :
    ∃ own contributed, drafts.entries = own ++ contributed ∧
      ∀ m, (∃ e ∈ own, e.2.member = m) ↔ m ∈ store.ownMembers t := by
  obtain ⟨base, new, hbase, hentries, -⟩ := Roster.parts_of_build? hroster hproxies
  have hslots := hdrafts.entries
  rw [hentries] at hslots
  obtain ⟨own, contributed, heq, hownSlots, -⟩ := split_of_forall₂_append hslots
  refine ⟨own, contributed, heq, fun m => ?_⟩
  have hlist : own.map (fun e => e.2.member) = base.entries.map fun e => e.2.member :=
    map_eq_of_forall₂ hownSlots fun e e' he => by
      obtain ⟨-, -, -, -, hmember, -⟩ := MemberDraft.ofSlot?_eq_some he.2
      exact hmember
  rw [← Roster.lists_of_ofType? hbase, Roster.lists_iff, ← List.mem_map, ← List.mem_map, hlist]

/-- The position of a method among the own drafts is that of the member made from its draft. -/
theorem follow_own_draft {drafts : IdentifierMap MemberDraft} {typeIgnored : Bool}
    {overloads : Overloads} {members : IdentifierMap Member}
    (hunique : Overloads.UniqueDrafts drafts)
    (hmembers : drafts.Replaces (fun draft m =>
      finishMember names id typeIgnored overloads draft = .ok m) members)
    {own contributed : List (Identifier × MemberDraft)} (heq : drafts.entries = own ++ contributed)
    {e : Identifier × MemberDraft} (he : e ∈ own) {method : MethodId}
    (hmember : e.2.member = .method method) :
    (Overloads.draftPositions own).follow members.values (.method method) =
      .ok (members.values.find? fun m => m.decl = .member (.method method)) := by
  obtain ⟨i, hi, hplace⟩ := Overloads.exists_position_of_own hunique heq he hmember
  have hplaceAll : drafts.entries[i]? = some e := by
    rw [heq, List.getElem?_append_left (List.getElem?_eq_some_iff.1 hplace).1, hplace]
  obtain ⟨found, hfound, -, hfinishFound⟩ :=
    exists_of_getElem?_right hmembers.entries.flip hplaceAll
  have hvalue : members.values[i]? = some found.2 := by
    unfold IdentifierMap.values
    rw [List.getElem?_map, hfound]
    rfl
  rw [find?_eq_some_of_unique (List.mem_of_getElem? hvalue)]
  · exact PositionTable.follow_of_some hi hvalue
  · obtain ⟨visible, -, hx⟩ := finishMember_eq_ok hfinishFound
    rw [hx, hmember]
    exact decide_eq_true rfl
  · intro y hy hdecl
    obtain ⟨entry, hentry, rfl⟩ := List.mem_map.1 hy
    obtain ⟨draft, hdraft, -, hfinishEntry⟩ := exists_of_mem_right hmembers.entries hentry
    obtain ⟨visible, -, hx⟩ := finishMember_eq_ok hfinishEntry
    have hdecl : entry.2.decl = .member (.method method) := of_decide_eq_true hdecl
    rw [hx] at hdecl
    have hsame : draft = e := Overloads.eq_of_unique_drafts hunique hdraft
      (List.mem_of_getElem? hplaceAll) (DeclId.member.inj hdecl) hmember
    rw [hsame, hfinishFound] at hfinishEntry
    exact (Except.ok.inj hfinishEntry).symm

/-- The record of a type groups the type's own drafts as their positions do. -/
theorem grouped_of_build (h : build store names id = .ok r) :
    ∃ t outline own contributed, store.type? id = some t ∧
      outline? store names r.proxies id t = some outline ∧
      outline.drafts.entries = own ++ contributed ∧
      (∀ m, (∃ e ∈ own, e.2.member = m) ↔ m ∈ store.ownMembers t) ∧ r.Grouped t own := by
  obtain ⟨t, module, outline, ht, -, hproxies, houtline, hfinish⟩ := build_eq_ok h
  obtain ⟨roster, hroster, hdrafts⟩ := roster_of_outline? houtline
  obtain ⟨visible, -, hfinished, hr⟩ := finish_eq_ok hfinish
  have hmembers := IdentifierMap.replaces_of_except_mapM hfinished
  have htabulated := Proxy.tabulated_of_proxiesOf ht hproxies
  have hunique := Overloads.unique_drafts_of_roster
    (Roster.nodupOn_methods_of_build? hroster htabulated) hdrafts
  obtain ⟨own, contributed, heq, hown⟩ := exists_own_drafts hroster htabulated hdrafts
  have hlisted : ∀ method ∈ t.methods, ∃ e ∈ own, e.2.member = .method method := fun method hm =>
    (hown _).2 (List.mem_append_right _ (List.mem_map_of_mem hm))
  have hgroups : r.groups = (Overloads.ofDrafts t outline.drafts).groups := by rw [hr]
  have hconstructor : r.staticConstructor =
      (Overloads.ofDrafts t outline.drafts).staticConstructor.bind fun m =>
        r.members.values.find? fun member => member.decl = .member (.method m) := by rw [hr]
  refine ⟨t, outline, own, contributed, ht, houtline, heq, hown, ?_, ?_⟩
  · refine ⟨_, Overloads.byPosition_eq_ok hunique heq hlisted, hgroups.symm, ?_⟩
    unfold Overloads.staticConstructorAt
    rw [hconstructor]
    cases hstatic : (Overloads.ofDrafts t outline.drafts).staticConstructor with
    | none => rfl
    | some method =>
      obtain ⟨e, he, hmember⟩ := hlisted method (Overloads.staticConstructor_mem hstatic)
      exact follow_own_draft hunique hmembers heq he hmember
  · intro g hg method hmethod
    rw [hgroups] at hg
    obtain ⟨e, he, hmember⟩ := hlisted method (Overloads.mem_methods_of_mem_group hg hmethod)
    obtain ⟨i, hi, hplace⟩ := Overloads.exists_position_of_own hunique heq he hmember
    exact ⟨e, PositionTable.follow_of_some hi hplace, hmember⟩

end TypeRecord

end TypeModel
