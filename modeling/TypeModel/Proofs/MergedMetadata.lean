import TypeModel.Proofs.MetadataHistory
import TypeModel.Proofs.RecordFailures

/-!
# The order of merged annotations

Metadata is merged step by step: each update takes in metadata that was itself collected, group by
group, and drops what is there already. What comes out can be told without the steps. Of each kind
there are the annotations of one list, in order, each at its first occurrence (`Metadata.Presents`);
for a type the list starts with the last proxy that replaces what was there, and for a member it is
its own annotations followed by those of what backs it (`TypeRecord.metadata_is_merged_in_order`).
-/

namespace TypeModel

/-! ## What a type publishes -/

/-- The annotations attached to a type, none if there is no type behind the handle. -/
def Store.annotationsOf (store : Store) (id : TypeId) : List Annotation :=
  ((store.type? id).map TypeDecl.annotations).getD []

section Types

variable {store : Store} {names : Vocabulary}

theorem Proxy.presents_of_build {id : TypeId} {p : Proxy} (h : build store names id = .ok p) :
    p.metadata.Presents (store.annotationsOf p.id) := by
  obtain ⟨t, marker, members, ht, -, -, rfl⟩ := build_eq_ok h
  show (Metadata.ofAnnotations t.fullName t.annotations).Presents (store.annotationsOf id)
  unfold Store.annotationsOf
  rw [ht]
  exact Metadata.presents_ofAnnotations t.fullName t.annotations

/-- A proxy as a step of merging. -/
def Proxy.intake (store : Store) (p : Proxy) : Metadata.Intake where
  owner := p.metadata.owner
  annotations := store.annotationsOf p.id
  replaces := p.replacesMetadata

/-- Merging takes in one proxy after another. -/
theorem foldl_update_eq_takeAll {proxies : List Proxy} (m : Metadata)
    (hproxies : ∀ p ∈ proxies, p.metadata.Presents (store.annotationsOf p.id)) :
    proxies.foldl (fun m p => m.update p.metadata p.replacesMetadata) m =
      m.takeAll (proxies.map (Proxy.intake store)) := by
  rw [Metadata.takeAll, List.foldl_map]
  refine List.foldl_ext _ _ m fun m p hp => ?_
  have hcollected :
      .ofAnnotations p.metadata.owner (store.annotationsOf p.id) = p.metadata :=
    (Metadata.presents_ofAnnotations _ _).eq (hproxies p hp) (Metadata.owner_ofAnnotations _ _)
  rw [Metadata.takeIn, Proxy.intake, hcollected]

/-- Proxies that replace nothing add their annotations, one proxy after another. -/
theorem presents_of_all_keeping {proxies : List Proxy} {m : Metadata} {xs : List Annotation}
    (h : m.Presents xs) (hkeep : ∀ p ∈ proxies, p.replacesMetadata = false)
    (hproxies : ∀ p ∈ proxies, p.metadata.Presents (store.annotationsOf p.id)) :
    (proxies.foldl (fun m p => m.update p.metadata p.replacesMetadata) m).Presents
      (xs ++ proxies.flatMap fun p => store.annotationsOf p.id) := by
  have hrun := h.takeAll (proxies.map (Proxy.intake store))
  rw [Metadata.history_of_keeping xs (List.forall_mem_map.2 hkeep), List.flatMap_map] at hrun
  rw [foldl_update_eq_takeAll m hproxies]
  exact hrun

/-- Whatever a type has, with the last proxy that replaces it the list starts anew. -/
theorem presents_mergedMetadata_of_replacing {before after : List Proxy} {p : Proxy}
    (t : TypeDecl) (hp : p.replacesMetadata = true)
    (hafter : ∀ q ∈ after, q.replacesMetadata = false)
    (hproxies : ∀ q ∈ before ++ p :: after, q.metadata.Presents (store.annotationsOf q.id)) :
    (TypeRecord.mergedMetadata t (before ++ p :: after)).Presents
      ((p :: after).flatMap fun q => store.annotationsOf q.id) := by
  have hown := Metadata.presents_ofAnnotations t.fullName t.annotations
  have hrun := hown.takeAll ((before ++ p :: after).map (Proxy.intake store))
  rw [List.map_append, List.map_cons,
    Metadata.history_of_replacing t.annotations hp (List.forall_mem_map.2 hafter),
    ← List.map_cons, List.flatMap_map, ← List.map_append] at hrun
  rw [TypeRecord.mergedMetadata, foldl_update_eq_takeAll _ hproxies]
  exact hrun

end Types

/-! ## What a member publishes -/

section Members

variable {store : Store} {m backing : MemberId} {metadata : Metadata}

theorem presents_metadata? (h : store.metadata? (.member m) = some metadata) :
    ∃ d, store.member? m = some d ∧ metadata.Presents d.annotations := by
  obtain ⟨d, owner, hd, rfl⟩ := metadata?_member_eq_some h
  exact ⟨d, hd, Metadata.presents_ofAnnotations owner d.annotations⟩

theorem presents_backedMetadata? (h : backedMetadata? store m backing = some metadata) :
    ∃ d lent, store.member? m = some d ∧ store.member? backing = some lent ∧
      metadata.Presents (d.annotations ++ if backing = m then [] else lent.annotations) := by
  obtain ⟨own, hown, h⟩ := Option.bind_eq_some_iff.1 h
  obtain ⟨d, hd, hpresents⟩ := presents_metadata? hown
  by_cases heq : backing = m
  · rw [if_pos heq] at h
    cases h
    refine ⟨d, d, hd, by rw [heq]; exact hd, ?_⟩
    rw [if_pos heq, List.append_nil]
    exact hpresents
  · rw [if_neg heq] at h
    obtain ⟨other, hother, h⟩ := Option.bind_eq_some_iff.1 h
    obtain ⟨lent, hlent, hlentPresents⟩ := presents_metadata? hother
    cases h
    refine ⟨d, lent, hd, hlent, ?_⟩
    rw [if_neg heq]
    exact hpresents.update hlentPresents false

end Members

namespace TypeRecord

variable {store : Store} {names : Vocabulary} {id : TypeId} {r : TypeRecord}

/-- A member has its own annotations followed by those of what backs it. -/
theorem member_presents_of_build (h : build store names id = .ok r) {x : Member}
    (hx : x ∈ r.members.values) : ∃ m backing d lent,
      x.decl = .member m ∧ x.backing = .member backing ∧
      store.member? m = some d ∧ store.member? backing = some lent ∧
      store.qualifiedMemberName? m = some x.qualifiedName ∧ x.metadata.owner = x.qualifiedName ∧
      x.metadata.Presents (d.annotations ++ if backing = m then [] else lent.annotations) := by
  obtain ⟨t, drafts, slot, draft, hdraft, hfinish⟩ := exists_slot_of_build h hx
  obtain ⟨-, -, -, -, hmember, hcore, -, -⟩ := MemberDraft.ofSlot?_eq_some hdraft
  obtain ⟨-, -, -, hmetadata, hqualified, -, -⟩ := MemberCore.ofMember?_eq_some hcore
  obtain ⟨d, lent, hd, hlent, hpresents⟩ := presents_backedMetadata? hmetadata
  have howner := (collected_backedMetadata? hmetadata).2
  obtain ⟨visible, -, rfl⟩ := finishMember_eq_ok hfinish
  exact ⟨slot.member, draft.core.backing, d, lent, congrArg DeclId.member hmember, rfl, hd, hlent,
    hqualified, Option.some.inj (howner.symm.trans hqualified), hpresents⟩

/-- The metadata of a record is merged in order. For the type, the annotations of its proxies from
the last one on that replaces what was there, or its own and those of all its proxies if none does;
for a member, its own and those of what backs it, if that is another one. Of each kind, every
annotation stands at its first occurrence. -/
theorem metadata_is_merged_in_order (h : build store names id = .ok r) :
    ∃ t, store.type? id = some t ∧ store.proxiesOf names id = .ok r.proxies ∧
      r.metadata.owner = t.fullName ∧
      (∀ before p after, r.proxies = before ++ p :: after → p.replacesMetadata = true →
        (∀ q ∈ after, q.replacesMetadata = false) → ∀ kind, r.metadata.get kind =
          (((p :: after).flatMap fun q => store.annotationsOf q.id).filter
            fun a => a.kind == kind).eraseDups) ∧
      ((∀ p ∈ r.proxies, p.replacesMetadata = false) → ∀ kind, r.metadata.get kind =
        ((t.annotations ++ r.proxies.flatMap fun p => store.annotationsOf p.id).filter
          fun a => a.kind == kind).eraseDups) ∧
      ∀ x ∈ r.members.values, ∃ m backing d lent,
        x.decl = .member m ∧ x.backing = .member backing ∧
        store.member? m = some d ∧ store.member? backing = some lent ∧
        store.qualifiedMemberName? m = some x.qualifiedName ∧
        x.metadata.owner = x.qualifiedName ∧ ∀ kind, x.metadata.get kind =
          ((d.annotations ++ if backing = m then [] else lent.annotations).filter
            fun a => a.kind == kind).eraseDups := by
  obtain ⟨t, module, outline, ht, -, hproxies, -, hfinish⟩ := build_eq_ok h
  obtain ⟨visible, -, -, hr⟩ := finish_eq_ok hfinish
  have hmetadata : r.metadata = mergedMetadata t r.proxies := by rw [hr]
  have hpresents : ∀ p ∈ r.proxies, p.metadata.Presents (store.annotationsOf p.id) :=
    fun p hp => Proxy.presents_of_build ((Store.mem_proxiesOf ht hproxies p).1 hp).1
  refine ⟨t, ht, hproxies, ?_, ?_, ?_, ?_⟩
  · rw [hmetadata]
    exact (collected_mergedMetadata t fun p hp => (hpresents p hp).collected).2
  · intro before p after heq hp hafter
    rw [hmetadata, heq]
    rw [heq] at hpresents
    exact (presents_mergedMetadata_of_replacing t hp hafter hpresents).get_eq
  · intro hkeep
    rw [hmetadata]
    have hown := Metadata.presents_ofAnnotations t.fullName t.annotations
    exact (presents_of_all_keeping hown hkeep hpresents).get_eq
  · intro x hx
    obtain ⟨m, backing, d, lent, hm, hbacking, hd, hlent, hname, howner, hmember⟩ :=
      member_presents_of_build h hx
    exact ⟨m, backing, d, lent, hm, hbacking, hd, hlent, hname, howner, hmember.get_eq⟩

/-- An annotation with a text. -/
def note (text : String) : Annotation :=
  { kind := "Note", args := [.str text] }

/-- A type with an annotation, and three proxies with some: the second replaces what was there, and
the third repeats an annotation of the second. -/
def annotatedStore : Store where
  modules := #[{ name := "app.dll" }]
  types := #[
    { module := ⟨0⟩, scope := "", name := "Main", fullName := "Main", kind := .classType
      annotations := [note "own"] },
    { module := ⟨0⟩, scope := "", name := "First", fullName := "First", kind := .classType
      annotations := [
        { kind := "Xlate.Meta.ProxyAttribute", args := [.str "Main"] }, note "first"] },
    { module := ⟨0⟩, scope := "", name := "Second", fullName := "Second", kind := .classType
      annotations := [
        { kind := "Xlate.Meta.ProxyAttribute"
          args := [.str "Main", .enum "Xlate.Meta.ProxyAttributePolicy" 1] },
        note "second"] },
    { module := ⟨0⟩, scope := "", name := "Third", fullName := "Third", kind := .classType
      annotations := [
        { kind := "Xlate.Meta.ProxyAttribute", args := [.str "Main"] }, note "third",
        note "second"] }]

theorem second_proxy_replaces_and_third_adds :
    ∃ r first second third, build annotatedStore {} ⟨0⟩ = .ok r ∧
      r.proxies = [first] ++ second :: [third] ∧ second.replacesMetadata = true ∧
      third.replacesMetadata = false ∧ r.metadata.get "Note" =
        (([second, third].flatMap fun p => annotatedStore.annotationsOf p.id).filter
          fun a => a.kind == "Note").eraseDups ∧
      r.metadata.get "Note" = [note "second", note "third"] := by
  obtain ⟨r, first, second, third, hr, hproxies, hsecond, hthird, hget⟩ :
      ∃ r first second third, build annotatedStore {} ⟨0⟩ = .ok r ∧
        r.proxies = [first] ++ second :: [third] ∧ second.replacesMetadata = true ∧
        third.replacesMetadata = false ∧ r.metadata.get "Note" = [note "second", note "third"] :=
    ⟨_, _, _, _, rfl, rfl, rfl, rfl, rfl⟩
  obtain ⟨t, -, -, -, hreplacing, -, -⟩ := metadata_is_merged_in_order hr
  refine ⟨r, first, second, third, hr, hproxies, hsecond, hthird, ?_, hget⟩
  exact hreplacing [first] second [third] hproxies hsecond
    (fun q hq => by rw [List.mem_singleton.1 hq]; exact hthird) "Note"

end TypeRecord

end TypeModel
