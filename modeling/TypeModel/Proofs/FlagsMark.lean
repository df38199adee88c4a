import TypeModel.Proofs.MergedMetadata

/-!
# The mark of enum types with combined values

An enum type is marked as one of combined values by an annotation of its own: the mark is set
together with the literals, before any proxy lends its annotations. So the mark and the published
metadata tell the same unless a proxy lends the annotation to a type that lacks it or, by replacing
what was there, takes it away and nobody brings it back
(`TypeRecord.combinesFlags_agrees_iff_of_build`).
-/

namespace TypeModel

namespace Store

theorem annotationsOf_of_type? {store : Store} {id : TypeId} {t : TypeDecl}
    (h : store.type? id = some t) : store.annotationsOf id = t.annotations := by
  rw [annotationsOf, h]
  rfl

/-- An annotation of the kind is attached to the type. -/
def Bears (store : Store) (id : TypeId) (kind : String) : Prop :=
  ∃ a ∈ store.annotationsOf id, a.kind = kind

theorem exists_lent_iff {store : Store} {proxies : List Proxy} {kind : String} :
    (∃ a ∈ proxies.flatMap fun p => store.annotationsOf p.id, a.kind = kind) ↔
      ∃ p ∈ proxies, store.Bears p.id kind := by
  simp only [List.mem_flatMap, Bears]
  constructor
  · rintro ⟨a, ⟨p, hp, ha⟩, hkind⟩
    exact ⟨p, hp, a, ha, hkind⟩
  · rintro ⟨p, hp, a, ha, hkind⟩
    exact ⟨a, ⟨p, hp, ha⟩, hkind⟩

end Store

namespace TypeRecord

variable {store : Store} {names : Vocabulary} {id : TypeId} {r : TypeRecord}

/-- The metadata of a record is merged from the annotations of the type and of its proxies. -/
theorem metadata_of_build (h : build store names id = .ok r) : ∃ t, store.type? id = some t ∧
    r.metadata = mergedMetadata t r.proxies ∧
    ∀ p ∈ r.proxies, p.metadata.Presents (store.annotationsOf p.id) := by
  obtain ⟨t, module, outline, ht, -, hproxies, -, hfinish⟩ := build_eq_ok h
  obtain ⟨visible, -, -, hr⟩ := finish_eq_ok hfinish
  refine ⟨t, ht, by rw [hr], fun p hp => ?_⟩
  exact Proxy.presents_of_build ((Store.mem_proxiesOf ht hproxies p).1 hp).1

/-- Only the type's own annotations say whether an enum combines flags. -/
theorem combinesFlags_iff_of_build (h : build store names id = .ok r) :
    r.combinesFlags = true ↔ r.kind = .enumType ∧ store.Bears id names.flags := by
  obtain ⟨t, module, outline, ht, -, -, -, hfinish⟩ := build_eq_ok h
  obtain ⟨visible, -, -, hr⟩ := finish_eq_ok hfinish
  rw [hr, Store.Bears, Store.annotationsOf_of_type? ht, Bool.and_eq_true, decide_eq_true_eq,
    Metadata.has_ofAnnotations]

/-- If no proxy replaces what was there, the metadata has what the type or a proxy bears. -/
theorem has_iff_of_keeping (h : build store names id = .ok r)
    (hkeep : ∀ p ∈ r.proxies, p.replacesMetadata = false) (kind : String) :
    r.metadata.has kind = true ↔
      store.Bears id kind ∨ ∃ p ∈ r.proxies, store.Bears p.id kind := by
  obtain ⟨t, ht, hmetadata, hproxies⟩ := metadata_of_build h
  have hown := Metadata.presents_ofAnnotations t.fullName t.annotations
  have hall : (mergedMetadata t r.proxies).Presents
      (t.annotations ++ r.proxies.flatMap fun p => store.annotationsOf p.id) :=
    presents_of_all_keeping hown hkeep hproxies
  rw [← Store.exists_lent_iff, Store.Bears, Store.annotationsOf_of_type? ht, hmetadata,
    hall.has_iff]
  simp only [List.mem_append, or_and_right, exists_or]

/-- The last proxy that replaces what was there and those after it decide what the metadata has. -/
theorem has_iff_of_replacing (h : build store names id = .ok r) {before after : List Proxy}
    {p : Proxy} (heq : r.proxies = before ++ p :: after) (hp : p.replacesMetadata = true)
    (hafter : ∀ q ∈ after, q.replacesMetadata = false) (kind : String) :
    r.metadata.has kind = true ↔ ∃ q ∈ p :: after, store.Bears q.id kind := by
  obtain ⟨t, -, hmetadata, hproxies⟩ := metadata_of_build h
  rw [heq] at hmetadata hproxies
  rw [← Store.exists_lent_iff, hmetadata]
  exact (presents_mergedMetadata_of_replacing t hp hafter hproxies).has_iff kind

/-- An enum type is marked if it bears the annotation itself, whatever its proxies bear. So the mark
agrees with the published metadata, if no proxy replaces what was there, exactly when no proxy lends
the annotation to a type that lacks it; and otherwise exactly when the last proxy that replaces and
those after it bring the annotation if and only if the type has it. -/
theorem combinesFlags_agrees_iff_of_build (h : build store names id = .ok r)
    (hkind : r.kind = .enumType) :
    (r.combinesFlags = true ↔ store.Bears id names.flags) ∧
    ((∀ p ∈ r.proxies, p.replacesMetadata = false) →
      ((r.combinesFlags = true ↔ r.metadata.has names.flags = true) ↔
        ((∃ p ∈ r.proxies, store.Bears p.id names.flags) → store.Bears id names.flags))) ∧
    ∀ before p after, r.proxies = before ++ p :: after → p.replacesMetadata = true →
      (∀ q ∈ after, q.replacesMetadata = false) →
      ((r.combinesFlags = true ↔ r.metadata.has names.flags = true) ↔
        (store.Bears id names.flags ↔ ∃ q ∈ p :: after, store.Bears q.id names.flags)) := by
  have hmark : r.combinesFlags = true ↔ store.Bears id names.flags := by
    rw [combinesFlags_iff_of_build h, and_iff_right hkind]
  refine ⟨hmark, fun hkeep => ?_, fun before p after heq hp hafter => ?_⟩
  · rw [hmark, has_iff_of_keeping h hkeep]
    exact iff_self_or
  · rw [hmark, has_iff_of_replacing h heq hp hafter]

/-- Two enum types, of which the first bears the flags annotation, and a proxy of each, of which the
second one bears it. -/
def flagsStore : Store where
  modules := #[{ name := "app.dll" }]
  types := #[
    { module := ⟨0⟩, scope := "", name := "Marked", fullName := "Marked", kind := .enumType
      annotations := [{ kind := "System.FlagsAttribute" }] },
    { module := ⟨0⟩, scope := "", name := "Plain", fullName := "Plain", kind := .enumType },
    { module := ⟨0⟩, scope := "", name := "OfMarked", fullName := "OfMarked", kind := .classType
      annotations := [{ kind := "Xlate.Meta.ProxyAttribute", args := [.str "Marked"] }] },
    { module := ⟨0⟩, scope := "", name := "OfPlain", fullName := "OfPlain", kind := .classType
      annotations := [
        { kind := "Xlate.Meta.ProxyAttribute", args := [.str "Plain"] },
        { kind := "System.FlagsAttribute" }] }]

/-- An enum that has the annotation itself agrees with its metadata. -/
theorem marked_enum_agrees_with_its_metadata :
    ∃ r, build flagsStore {} ⟨0⟩ = .ok r ∧ r.kind = .enumType ∧ r.combinesFlags = true ∧
      (r.combinesFlags = true ↔ r.metadata.has "System.FlagsAttribute" = true) := by
  have hbuild := (rfl : build flagsStore {} ⟨0⟩ = .ok _)
  obtain ⟨hmark, hkeeping, -⟩ := combinesFlags_agrees_iff_of_build hbuild rfl
  have hbears : flagsStore.Bears ⟨0⟩ "System.FlagsAttribute" := ⟨_, .head _, rfl⟩
  refine ⟨_, hbuild, rfl, hmark.2 hbears, (hkeeping ?_).2 fun _ => hbears⟩
  decide

/-- The proxy of the other one lends it the annotation, but not the mark. -/
theorem lent_flags_annotation_leaves_no_mark :
    ∃ r, build flagsStore {} ⟨1⟩ = .ok r ∧ r.kind = .enumType ∧
      r.metadata.has "System.FlagsAttribute" = true ∧ r.combinesFlags = false :=
  ⟨_, rfl, rfl, rfl, rfl⟩

end TypeRecord

end TypeModel
