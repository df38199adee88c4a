import TypeModel.Proofs.CatalogRun

/-!
# Proxy lookup is exact

A catalog finds the proxies of a type by an index that reads annotations and builds nothing; what it
answers is built by the strict reader of markers. The two agree: the proxies of a type are all those
that have its name among their targets, in the order of registration, each once, and the lookup
fails only if one of the types that mention the name is at fault (`Catalog.proxies_are_exact`).
-/

namespace TypeModel

section Lookup

variable {store : Store} {names : Vocabulary} {id : TypeId} {t : TypeDecl}

/-- The proxies of a type are found exactly when every type that marks for it is a sound proxy. -/
theorem Store.proxiesOf_isOk_iff (ht : store.type? id = some t) :
    (∃ ps, store.proxiesOf names id = .ok ps) ↔
      ∀ q u, store.type? q = some u → u.MarksFor names t.fullName →
        ∃ p, Proxy.build store names q = .ok p := by
  rw [Store.proxiesOf_eq ht, except_mapM_isOk_iff]
  constructor
  · intro h q u hu hmarks
    exact h q (mem_typesMarkedFor.2 ⟨u, hu, hmarks⟩)
  · intro h q hq
    obtain ⟨u, hu, hmarks⟩ := mem_typesMarkedFor.1 hq
    exact h q u hu hmarks

/-- The type with the least handle among those that mention the name and cannot be built decides. -/
theorem Store.proxiesOf_eq_error (ht : store.type? id = some t) (e : Failure) :
    store.proxiesOf names id = .error e ↔
      ∃ q u, store.type? q = some u ∧ u.MarksFor names t.fullName ∧
        Proxy.build store names q = .error e ∧
        ∀ q' u', store.type? q' = some u' → u'.MarksFor names t.fullName → q'.index < q.index →
          ∃ p, Proxy.build store names q' = .ok p := by
  rw [Store.proxiesOf_eq ht, except_mapM_eq_error_iff_least
    (pairwise_typesMarkedFor store names t.fullName) fun _ _ => Nat.lt_asymm]
  constructor
  · rintro ⟨q, hq, he, hleast⟩
    obtain ⟨u, hu, hmarks⟩ := mem_typesMarkedFor.1 hq
    exact ⟨q, u, hu, hmarks, he, fun q' u' hu' hmarks' hlt =>
      hleast q' (mem_typesMarkedFor.2 ⟨u', hu', hmarks'⟩) hlt⟩
  · rintro ⟨q, u, hu, hmarks, he, hleast⟩
    refine ⟨q, mem_typesMarkedFor.2 ⟨u, hu, hmarks⟩, he, fun q' hq' hlt => ?_⟩
    obtain ⟨u', hu', hmarks'⟩ := mem_typesMarkedFor.1 hq'
    exact hleast q' u' hu' hmarks' hlt

variable {ps : List Proxy}

/-- No proxy is found twice. -/
theorem Store.pairwise_of_proxiesOf (ht : store.type? id = some t)
    (h : store.proxiesOf names id = .ok ps) :
    ps.Pairwise fun p q => p.id.index < q.id.index := by
  rw [Store.proxiesOf_eq ht] at h
  have hids := map_of_except_mapM (fun _ _ => Proxy.id_of_build) h
  have hsorted := pairwise_typesMarkedFor store names t.fullName
  rw [← hids, List.pairwise_map] at hsorted
  exact hsorted

/-- The proxies that are found are the sound ones that have the type among their targets. -/
theorem Store.mem_proxiesOf (ht : store.type? id = some t)
    (h : store.proxiesOf names id = .ok ps) (p : Proxy) :
    p ∈ ps ↔ Proxy.build store names p.id = .ok p ∧ t.fullName ∈ p.marker.targets := by
  rw [Store.proxiesOf_eq ht] at h
  rw [mem_of_except_mapM h]
  constructor
  · rintro ⟨q, hq, hp⟩
    obtain ⟨u, hu, hmarks⟩ := mem_typesMarkedFor.1 hq
    refine ⟨?_, (Proxy.mem_targets_of_build hu hp t.fullName).2 hmarks⟩
    rw [Proxy.id_of_build hp]
    exact hp
  · rintro ⟨hp, htarget⟩
    obtain ⟨u, -, -, hu, -⟩ := Proxy.build_eq_ok hp
    have hmarks := (Proxy.mem_targets_of_build hu hp t.fullName).1 htarget
    exact ⟨p.id, mem_typesMarkedFor.2 ⟨u, hu, hmarks⟩, hp⟩

end Lookup

namespace Catalog

/-- The answer to a request for the proxies of a type, after any requests: the proxies that have the
type among their targets, in the order of registration, unless a type that mentions it cannot be
built; then the failure of the first such type. -/
theorem proxies_are_exact (store : Store) (names : Vocabulary) (before : List Request)
    (id : TypeId) {t : TypeDecl} (ht : store.type? id = some t) :
    let answer := (after store names before).answer (.proxies id)
    ((∃ ps, answer = .ok (.proxies ps)) ↔
      ∀ q u, store.type? q = some u → u.MarksFor names t.fullName →
        ∃ p, Proxy.build store names q = .ok p) ∧
    (∀ e, answer = .error e ↔
      ∃ q u, store.type? q = some u ∧ u.MarksFor names t.fullName ∧
        Proxy.build store names q = .error e ∧
        ∀ q' u', store.type? q' = some u' → u'.MarksFor names t.fullName → q'.index < q.index →
          ∃ p, Proxy.build store names q' = .ok p) ∧
    ∀ ps, answer = .ok (.proxies ps) →
      ps.Pairwise (fun p q => p.id.index < q.id.index) ∧
      ∀ p, p ∈ ps ↔ Proxy.build store names p.id = .ok p ∧ t.fullName ∈ p.marker.targets := by
  intro answer
  have hanswer : answer = (store.proxiesOf names id).map .proxies :=
    answer_after store names before (.proxies id)
  have hok : ∀ ps, answer = .ok (.proxies ps) ↔ store.proxiesOf names id = .ok ps := by
    intro ps
    rw [hanswer, except_map_eq_ok]
    simp only [Reply.proxies.injEq, exists_eq_right]
  refine ⟨?_, fun e => ?_, fun ps h => ?_⟩
  · simp only [hok]
    exact Store.proxiesOf_isOk_iff ht
  · rw [hanswer, except_map_eq_error]
    exact Store.proxiesOf_eq_error ht e
  · rw [hok] at h
    exact ⟨Store.pairwise_of_proxiesOf ht h, Store.mem_proxiesOf ht h⟩

/-- A store with a type, a proxy that mentions it twice, and a marked type that has no target. -/
def markedStore : Store where
  modules := #[{ name := "app.dll" }]
  types := #[
    { module := ⟨0⟩, scope := "", name := "Main", fullName := "Main", kind := .classType },
    { module := ⟨0⟩, scope := "", name := "Twice", fullName := "Twice", kind := .classType
      annotations := [
        { kind := "Xlate.Meta.ProxyAttribute", args := [.array [.str "Main", .str "Main"]] }] },
    { module := ⟨0⟩, scope := "", name := "Aimless", fullName := "Aimless", kind := .classType
      annotations := [{ kind := "Xlate.Meta.ProxyAttribute" }] }]

/-- A marker that mentions its target twice makes one proxy. -/
theorem target_mentioned_twice_has_one_proxy :
    ∃ ps, (after markedStore {} []).answer (.proxies ⟨0⟩) = .ok (.proxies ps) ∧
      ps.Pairwise (fun p q => p.id.index < q.id.index) ∧ ps.map Proxy.id = [⟨1⟩] := by
  obtain ⟨-, -, hfound⟩ := proxies_are_exact markedStore {} [] ⟨0⟩ rfl
  exact ⟨_, rfl, (hfound _ rfl).1, rfl⟩

end Catalog

end TypeModel
