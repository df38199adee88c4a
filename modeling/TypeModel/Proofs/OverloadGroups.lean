import TypeModel.Proofs.Coverage
import TypeModel.Proofs.FirstOccurrences
import TypeModel.Proofs.IgnoreCascade
import TypeModel.Proofs.OverloadNames

/-!
# Overload groups partition the overloaded methods

Of the methods that a type lists, those that are not concealed are eligible. Those with one name and
staticness are a group if they are two or more, so that the groups partition the eligible methods
that share their key with others. What a record says of overloads in three places, in its groups, in
the numbers of its members and in the lookup of a group, follows from this one partition
(`TypeRecord.overloads_are_partitioned`).
-/

namespace TypeModel

/-! ## Groups of methods with keys -/

/-- What the methods of a group share. -/
def OverloadGroup.key (g : OverloadGroup) : OverloadKey :=
  ⟨g.name, g.isStatic⟩

namespace Overloads

variable {methods : List (MethodId × OverloadKey)} {g : OverloadGroup}

/-- A group has all methods that share its key, and at least two. -/
theorem methods_of_mem_groups (hg : g ∈ (ofMethods methods).groups) :
    g.methods = sharing methods g.key ∧ 2 ≤ g.methods.length := by
  obtain ⟨key, htwo, rfl⟩ := mem_groups_iff.1 hg
  exact ⟨rfl, htwo⟩

/-- Groups come in the order in which their keys first occur. -/
theorem pairwise_groups (methods : List (MethodId × OverloadKey)) :
    (ofMethods methods).groups.Pairwise fun g g' =>
      Precedes (methods.map Prod.snd) g.key g'.key := by
  unfold ofMethods
  rw [OverloadCluster.ofMethods_eq, List.pairwise_filterMap, List.pairwise_map]
  refine (pairwise_eraseDups _).imp fun h g hg g' hg' => ?_
  obtain ⟨-, rfl⟩ := OverloadCluster.group?_eq_some.1 hg
  obtain ⟨-, rfl⟩ := OverloadCluster.group?_eq_some.1 hg'
  exact h

/-- A key with two methods or more has exactly one group. -/
theorem exists_group {key : OverloadKey} (htwo : 2 ≤ (sharing methods key).length) :
    ∃ front g rest, (ofMethods methods).groups = front ++ g :: rest ∧ g.key = key ∧
      ∀ g' ∈ front ++ rest, g'.key ≠ key := by
  obtain ⟨front, rest, heq⟩ := List.append_of_mem (mem_groups_iff.2 ⟨key, htwo, rfl⟩)
  refine ⟨front, _, rest, heq, rfl, fun g' hg' hkey => ?_⟩
  have hordered := pairwise_groups methods
  rw [heq, List.pairwise_append, List.pairwise_cons] at hordered
  obtain ⟨-, ⟨hrest, -⟩, hfront⟩ := hordered
  rcases List.mem_append.1 hg' with hg' | hg'
  · have hprecedes := hfront g' hg' _ List.mem_cons_self
    rw [hkey] at hprecedes
    exact not_precedes_self hprecedes
  · have hprecedes := hrest g' hg'
    rw [hkey] at hprecedes
    exact not_precedes_self hprecedes

/-- A method of a group without repetitions is numbered by its place in the group. -/
theorem Keyed.index?_of_getElem? (h : Keyed methods) (hg : g ∈ (ofMethods methods).groups)
    (hnodup : g.methods.Nodup) {i : Nat} {a : MethodId} (ha : g.methods[i]? = some a) :
    (ofMethods methods).index? (.method a) = some i := by
  obtain ⟨j, hj, hplace⟩ := h.exists_index? hg (List.mem_of_getElem? ha)
  rw [hj, (List.getElem?_inj (List.getElem?_eq_some_iff.1 ha).1 hnodup).1 (ha.trans hplace.symm)]

/-- Only methods of a group are numbered. -/
theorem exists_group_of_index? {m : MemberId} {i : Nat}
    (h : (ofMethods methods).index? m = some i) :
    ∃ a, m = .method a ∧ ∃ g ∈ (ofMethods methods).groups, a ∈ g.methods := by
  cases m with
  | method a =>
    obtain ⟨g, hg, hindex⟩ := List.exists_of_findSome?_eq_some h
    exact ⟨a, rfl, g, hg, mem_of_lastIndexOf? hindex⟩
  | field | property | event => cases h

/-! ## Methods with the keys that they are declared with -/

section Declared

variable {f : MethodId → Option OverloadKey} (hf : ∀ c ∈ methods, f c.1 = some c.2)
include hf

theorem sharing_eq_filter (key : OverloadKey) :
    sharing methods key = (methods.map Prod.fst).filter fun a => f a = some key := by
  unfold sharing
  rw [List.filter_map]
  congr 1
  refine List.filter_congr fun c hc => ?_
  simp [hf c hc]

theorem map_keys : (methods.map Prod.fst).map f = (methods.map Prod.snd).map some := by
  rw [List.map_map, List.map_map]
  exact List.map_congr_left hf

end Declared

/-- The listed methods that take part in the grouping. -/
def eligible (drafts : IdentifierMap MemberDraft) (listed : List MethodId) : List MethodId :=
  listed.filter fun a => (candidate? drafts a).isSome

/-- The candidates are the methods that take part, in the order in which they are listed. -/
theorem map_fst_candidates (drafts : IdentifierMap MemberDraft) (listed : List MethodId) :
    (listed.filterMap (candidate? drafts)).map Prod.fst = eligible drafts listed := by
  unfold eligible
  induction listed with
  | nil => rfl
  | cons a rest ih =>
    cases hcandidate : candidate? drafts a with
    | none => simp [hcandidate, ih]
    | some c => simp [hcandidate, ih, candidate?_fst hcandidate]

end Overloads

namespace MemberDetails

theorem overloadIndex_withOverloadIndex {details : MemberDetails} (h : details.kind = .method)
    (index : Option Nat) : (details.withOverloadIndex index).overloadIndex = index := by
  cases details with
  | method d => rfl
  | field | property | event => cases h

theorem index_of_overloadIndex {details : MemberDetails} {index : Option Nat} {i : Nat}
    (h : (details.withOverloadIndex index).overloadIndex = some i) : index = some i := by
  cases details with
  | method d => exact h
  | field | property | event => cases h

end MemberDetails

/-- The number of a member is the one that the grouping gives to its declaration. -/
def Member.NumberedBy (overloads : Overloads) (x : Member) : Prop :=
  ∃ (m : MemberId) (details : MemberDetails), x.decl = .member m ∧ details.kind = m.kind ∧
    x.details = details.withOverloadIndex (overloads.index? m)

namespace Member.NumberedBy

variable {overloads : Overloads} {x : Member}

/-- A method shows its own position among the overloads. -/
theorem overloadIndex_of_method (h : x.NumberedBy overloads) {a : MethodId}
    (hdecl : x.decl = .member (.method a)) :
    x.details.overloadIndex = overloads.index? (.method a) := by
  obtain ⟨m, details, hm, hkind, hdetails⟩ := h
  obtain rfl : m = .method a := DeclId.member.inj (hm.symm.trans hdecl)
  rw [hdetails]
  exact MemberDetails.overloadIndex_withOverloadIndex hkind _

/-- Only a method of some group has an overload index. -/
theorem exists_group {methods : List (MethodId × OverloadKey)}
    (h : x.NumberedBy (.ofMethods methods)) {i : Nat} (hindex : x.details.overloadIndex = some i) :
    ∃ a, x.decl = .member (.method a) ∧
      ∃ g ∈ (Overloads.ofMethods methods).groups, a ∈ g.methods := by
  obtain ⟨m, details, hm, -, hdetails⟩ := h
  rw [hdetails] at hindex
  obtain ⟨a, rfl, hgroup⟩ :=
    Overloads.exists_group_of_index? (MemberDetails.index_of_overloadIndex hindex)
  exact ⟨a, hm, hgroup⟩

end Member.NumberedBy

/-! ## Eligible methods -/

/-- The key that a method is declared with. -/
def Store.overloadKey? (store : Store) (m : MethodId) : Option OverloadKey :=
  (store.method? m).map fun d => ⟨d.name, d.modifiers.isStatic⟩

namespace TypeRecord

section Phases

variable {store : Store} {names : Vocabulary} {id : TypeId} {t : TypeDecl} {r : TypeRecord}
  {roster : Roster} {drafts : IdentifierMap MemberDraft} {a : MethodId}

/-- A method takes part in the grouping under the key that it is declared with. -/
theorem overloadKey?_of_candidate? (hsound : Roster.Sound store roster)
    (hdrafts : roster.Replaces (fun slot draft =>
      MemberDraft.ofSlot? store names r.proxies slot = some draft) drafts)
    {c : MethodId × OverloadKey} (h : Overloads.candidate? drafts a = some c) :
    store.overloadKey? c.1 = some c.2 := by
  obtain ⟨e, he, hmember, -, rfl⟩ := Overloads.exists_draft_of_candidate? h
  obtain ⟨d, hd, hname, hstatic⟩ := key_of_draft hsound hdrafts he hmember
  unfold Store.overloadKey?
  rw [hd, hname, hstatic]
  rfl

/-- A listed method takes part in the grouping if the record has a member of it that is not
concealed. -/
theorem exists_candidate?_iff (hroster : Roster.build? store t r.proxies = some roster)
    (htabulated : ∀ p ∈ r.proxies, Roster.Tabulated store p)
    (hdrafts : roster.Replaces (fun slot draft =>
      MemberDraft.ofSlot? store names r.proxies slot = some draft) drafts)
    (hmembers : drafts.Replaces (fun draft m =>
      finishMember names id r.ignored (.ofDrafts t drafts) draft = .ok m) r.members) :
    (Overloads.candidate? drafts a).isSome = true ↔
      ∃ x ∈ r.members.values, x.decl = .member (.method a) ∧ ¬x.Concealed store names r := by
  have hunique := Overloads.unique_drafts_of_roster
    (Roster.nodupOn_methods_of_build? hroster htabulated) hdrafts
  have hconcealed : ∀ {e : Identifier × MemberDraft} {x : Member}, e ∈ drafts.entries →
      finishMember names id r.ignored (.ofDrafts t drafts) e.2 = .ok x →
        (e.2.ignored = true ↔ x.Concealed store names r) := by
    intro e x he hfinish
    obtain ⟨entry, hentry, -, hdraft⟩ := exists_of_mem_right hdrafts.entries he
    exact draft_ignored_iff_concealed hroster htabulated hdrafts hmembers hentry hdraft hfinish
  constructor
  · intro h
    obtain ⟨c, h⟩ := Option.isSome_iff_exists.1 h
    obtain ⟨e, he, hmember, hignored, -⟩ := Overloads.exists_draft_of_candidate? h
    obtain ⟨y, hy, -, hfinish⟩ := exists_of_mem_left hmembers.entries he
    refine ⟨y.2, List.mem_map_of_mem hy, ?_, ?_⟩
    · obtain ⟨visible, -, hfinished⟩ := finishMember_eq_ok hfinish
      rw [hfinished, hmember]
    · rw [← hconcealed he hfinish, hignored]
      exact Bool.false_ne_true
  · rintro ⟨x, hx, hdecl, hnot⟩
    obtain ⟨y, hy, rfl⟩ := List.mem_map.1 hx
    obtain ⟨e, he, -, hfinish⟩ := exists_of_mem_right hmembers.entries hy
    rw [← hconcealed he hfinish] at hnot
    obtain ⟨visible, -, hfinished⟩ := finishMember_eq_ok hfinish
    rw [hfinished] at hdecl
    rw [Overloads.candidate?_eq_some hunique he (DeclId.member.inj hdecl)
      (Bool.eq_false_iff.2 hnot)]
    rfl

theorem numberedBy_of_mem
    (hdrafts : roster.Replaces (fun slot draft =>
      MemberDraft.ofSlot? store names r.proxies slot = some draft) drafts)
    (hmembers : drafts.Replaces (fun draft m =>
      finishMember names id r.ignored (.ofDrafts t drafts) draft = .ok m) r.members)
    {x : Member} (hx : x ∈ r.members.values) : x.NumberedBy (.ofDrafts t drafts) := by
  obtain ⟨y, hy, rfl⟩ := List.mem_map.1 hx
  obtain ⟨e, he, -, hfinish⟩ := exists_of_mem_right hmembers.entries hy
  obtain ⟨entry, -, -, hdraft⟩ := exists_of_mem_right hdrafts.entries he
  obtain ⟨-, d, -, -, hmember, -, hdetails, -⟩ := MemberDraft.ofSlot?_eq_some hdraft
  obtain ⟨visible, -, hfinished⟩ := finishMember_eq_ok hfinish
  have hkind : e.2.details.kind = e.2.member.kind := by
    rw [MemberDetails.kind_ofDecl hdetails, hmember]
  exact ⟨e.2.member, e.2.details, by rw [hfinished], hkind, by rw [hfinished]⟩

end Phases

/-! ## The partition -/

/-- The groups of a record, the numbers of its members and the lookup of a group all tell how the
eligible methods share their keys. -/
structure PartitionsOverloads (store : Store) (r : TypeRecord) (eligible : List MethodId) :
    Prop where
  /-- A group is made of the eligible methods with its key, in order. -/
  methods : ∀ g ∈ r.groups,
    g.methods = eligible.filter fun a => store.overloadKey? a = some g.key
  several : ∀ g ∈ r.groups, 2 ≤ g.methods.length
  /-- A key of several eligible methods has a group, and no second one. -/
  complete : ∀ key, 2 ≤ (eligible.filter fun a => store.overloadKey? a = some key).length →
    ∃ front g rest, r.groups = front ++ g :: rest ∧ g.key = key ∧
      ∀ g' ∈ front ++ rest, g'.key ≠ key
  /-- Groups come in the order in which their keys first occur. -/
  ordered : r.groups.Pairwise fun g g' =>
    Precedes (eligible.map store.overloadKey?) (some g.key) (some g'.key)
  numbered : ∀ g ∈ r.groups, ∀ i a, g.methods[i]? = some a →
    ∃ x, r.memberOfDecl? (.member (.method a)) = some x ∧ x.details.overloadIndex = some i
  unnumbered : ∀ x ∈ r.members.values,
    (∀ g ∈ r.groups, ∀ a ∈ g.methods, r.memberOfDecl? (.member (.method a)) ≠ some x) →
      x.details.overloadIndex = none
  groupOf : ∀ a g, r.groupOf? a = some g ↔ g ∈ r.groups ∧ a ∈ g.methods
  groupOf_none : ∀ a, r.groupOf? a = none ↔ ∀ g ∈ r.groups, a ∉ g.methods

section Partition

variable {store : Store} {names : Vocabulary} {id : TypeId} {t : TypeDecl} {r : TypeRecord}

theorem groupOf?_eq_none_iff {a : MethodId} :
    r.groupOf? a = none ↔ ∀ g ∈ r.groups, a ∉ g.methods := by
  unfold groupOf?
  simp

/-- Where groups share no method, the group that is found is the one that has the method. -/
theorem groupOf?_eq_some_iff {a : MethodId} {g : OverloadGroup}
    (hunique : ∀ g ∈ r.groups, ∀ g' ∈ r.groups, a ∈ g.methods → a ∈ g'.methods → g = g') :
    r.groupOf? a = some g ↔ g ∈ r.groups ∧ a ∈ g.methods := by
  unfold groupOf?
  constructor
  · intro h
    have hfound := List.find?_some h
    exact ⟨List.mem_of_find?_eq_some h, by simpa using hfound⟩
  · rintro ⟨hg, ha⟩
    refine find?_eq_some_of_unique hg (by simpa using ha) fun g' hg' ha' => ?_
    exact hunique g' hg' g hg (by simpa using ha') ha

/-- The grouping partitions the methods that take part in it, provided that their keys are those
that they are declared with and that members are numbered as the grouping says. -/
theorem partitionsOverloads_of_drafts {drafts : IdentifierMap MemberDraft}
    (hnodup : t.methods.Nodup) (hgroups : r.groups = (Overloads.ofDrafts t drafts).groups)
    (hdeclared : ∀ a c, Overloads.candidate? drafts a = some c → store.overloadKey? c.1 = some c.2)
    (hlisted : ∀ a ∈ t.methods, ∃ x ∈ r.members.values, x.decl = .member (.method a))
    (hfound : ∀ x ∈ r.members.values, ∀ a, x.decl = .member (.method a) →
      r.memberOfDecl? (.member (.method a)) = some x)
    (hnumbered : ∀ x ∈ r.members.values, x.NumberedBy (.ofDrafts t drafts)) :
    r.PartitionsOverloads store (Overloads.eligible drafts t.methods) := by
  have hkeyed := Overloads.keyed_candidates t drafts
  have hcandidates : ∀ c ∈ t.methods.filterMap (Overloads.candidate? drafts),
      store.overloadKey? c.1 = some c.2 := by
    intro c hc
    obtain ⟨a, -, hcandidate⟩ := List.mem_filterMap.1 hc
    exact hdeclared a c hcandidate
  have hsharing := Overloads.sharing_eq_filter hcandidates
  have hkeys := Overloads.map_keys hcandidates
  simp only [Overloads.map_fst_candidates] at hsharing hkeys
  have hmethods : ∀ g ∈ r.groups, g.methods = (Overloads.eligible drafts t.methods).filter
      fun a => store.overloadKey? a = some g.key := by
    intro g hg
    rw [hgroups] at hg
    rw [← hsharing]
    exact (Overloads.methods_of_mem_groups hg).1
  have hunique : ∀ a, ∀ g ∈ r.groups, ∀ g' ∈ r.groups, a ∈ g.methods → a ∈ g'.methods →
      g = g' := by
    rw [hgroups]
    exact fun a g hg g' hg' ha ha' => hkeyed.group_unique hg ha hg' ha'
  constructor
  case methods => exact hmethods
  case several =>
    rw [hgroups]
    exact fun g hg => (Overloads.methods_of_mem_groups hg).2
  case complete =>
    intro key htwo
    rw [← hsharing] at htwo
    rw [hgroups]
    exact Overloads.exists_group htwo
  case ordered =>
    rw [hgroups, hkeys]
    exact (Overloads.pairwise_groups _).imp fun h => h.map (Option.some_injective _)
  case numbered =>
    intro g hg i a ha
    have hsub : g.methods.Nodup := by
      rw [hmethods g hg]
      exact (hnodup.filter _).filter _
    rw [hgroups] at hg
    obtain ⟨x, hx, hdecl⟩ :=
      hlisted a (Overloads.mem_methods_of_mem_group hg (List.mem_of_getElem? ha))
    refine ⟨x, hfound x hx a hdecl, ?_⟩
    rw [(hnumbered x hx).overloadIndex_of_method hdecl]
    exact hkeyed.index?_of_getElem? hg hsub ha
  case unnumbered =>
    intro x hx hnot
    cases hindex : x.details.overloadIndex with
    | none => rfl
    | some i =>
      obtain ⟨a, hdecl, g, hg, ha⟩ := (hnumbered x hx).exists_group hindex
      exact absurd (hfound x hx a hdecl) (hnot g (hgroups ▸ hg) a ha)
  case groupOf => exact fun a g => groupOf?_eq_some_iff (hunique a)
  case groupOf_none => exact fun a => groupOf?_eq_none_iff

/-- The methods that a type lists and that are not concealed are partitioned by their keys into
overload groups. -/
theorem overloads_are_partitioned (h : build store names id = .ok r)
    (ht : store.type? id = some t) (hnodup : t.methods.Nodup) :
    ∃ eligible : List MethodId, eligible.Sublist t.methods ∧
      (∀ a, a ∈ eligible ↔ a ∈ t.methods ∧
        ∃ x ∈ r.members.values, x.decl = .member (.method a) ∧ ¬x.Concealed store names r) ∧
      r.PartitionsOverloads store eligible := by
  obtain ⟨t', module, outline, ht', -, hproxies, houtline, hfinish⟩ := build_eq_ok h
  obtain rfl : t = t' := Option.some.inj (ht.symm.trans ht')
  obtain ⟨roster, hroster, hdrafts⟩ := roster_of_outline? houtline
  obtain ⟨visible, -, hfinished, hr⟩ := finish_eq_ok hfinish
  have hmembers := IdentifierMap.replaces_of_except_mapM hfinished
  have htabulated := Proxy.tabulated_of_proxiesOf ht hproxies
  have hsound := Roster.sound_of_build? hroster htabulated
  refine ⟨Overloads.eligible outline.drafts t.methods, List.filter_sublist, fun a => ?_, ?_⟩
  · unfold Overloads.eligible
    rw [List.mem_filter, exists_candidate?_iff hroster htabulated hdrafts hmembers]
  · refine partitionsOverloads_of_drafts hnodup (by rw [hr]) ?_ ?_ ?_ ?_
    · exact fun a c hcandidate => overloadKey?_of_candidate? hsound hdrafts hcandidate
    · exact fun a ha =>
        exists_own_of_build h ht (List.mem_append_right _ (List.mem_map_of_mem ha))
    · exact fun x hx a hdecl => memberOfDecl?_of_method h hx hdecl
    · exact fun x hx => numberedBy_of_mem hdrafts hmembers hx

/-- Both methods of the type are eligible, and they are its only group. -/
theorem two_runs_make_one_group :
    ∃ r, build overloadStore {} ⟨0⟩ = .ok r ∧ r.groups = [⟨"Run", false, [⟨0⟩, ⟨1⟩]⟩] ∧
      r.PartitionsOverloads overloadStore [⟨0⟩, ⟨1⟩] := by
  have h : ∃ r, build overloadStore {} ⟨0⟩ = .ok r ∧
      r.groups = [⟨"Run", false, [⟨0⟩, ⟨1⟩]⟩] := ⟨_, rfl, rfl⟩
  obtain ⟨r, hr, hgroups⟩ := h
  obtain ⟨eligible, hsub, -, hpartition⟩ := overloads_are_partitioned hr rfl (by decide)
  -- The two methods of the group are among the eligible ones, and there are no others.
  have hmethods := hpartition.methods ⟨"Run", false, [⟨0⟩, ⟨1⟩]⟩
    (hgroups ▸ List.mem_singleton_self _)
  have htwo : 2 ≤ eligible.length := by
    have hle := List.length_filter_le
      (fun a => overloadStore.overloadKey? a = some ⟨"Run", false⟩) eligible
    exact Nat.le_trans (Nat.le_of_eq (congrArg List.length hmethods)) hle
  rw [hsub.eq_of_length_le htwo] at hpartition
  exact ⟨r, hr, hgroups, hpartition⟩

end Partition

end TypeRecord

end TypeModel
