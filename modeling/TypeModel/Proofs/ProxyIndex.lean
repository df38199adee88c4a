import TypeModel.Proofs.ProxyMarker
import TypeModel.Proxy.Index

/-!
# The proxy index is exact

The index is made by one scan that files each marked type under every name its markers mention. What
stands under a name afterwards are the types with a marker that mentions it, each once and in
ascending order (`proxiesOf_ofStore`), and the marked types are all types with a marker
(`marked_ofStore`).
-/

namespace TypeModel

/-! ## Types by what their markers mention -/

instance (t : TypeDecl) (names : Vocabulary) (fullName : String) :
    Decidable (t.MarksFor names fullName) :=
  inferInstanceAs (Decidable (∃ a ∈ t.annotations, _ ∧ _))

/-- A type bears the marker. -/
def TypeDecl.IsMarked (t : TypeDecl) (names : Vocabulary) : Prop :=
  ∃ a ∈ t.annotations, a.kind = names.proxy

instance (t : TypeDecl) (names : Vocabulary) : Decidable (t.IsMarked names) :=
  inferInstanceAs (Decidable (∃ a ∈ t.annotations, _))

namespace Store

variable (store : Store) (names : Vocabulary)

/-- Whether the type behind a handle bears the marker. -/
def isMarked (id : TypeId) : Bool :=
  (store.type? id).any fun t => t.IsMarked names

/-- Whether the type behind a handle has a marker that mentions the name. -/
def marksFor (fullName : String) (id : TypeId) : Bool :=
  (store.type? id).any fun t => t.MarksFor names fullName

/-- The types that bear the marker, ascending. -/
def markedTypes : List TypeId :=
  store.typeIds.filter (store.isMarked names)

/-- The types with a marker that mentions the name, ascending. -/
def typesMarkedFor (fullName : String) : List TypeId :=
  store.typeIds.filter (store.marksFor names fullName)

variable {store names}

theorem mem_typeIds {id : TypeId} {t : TypeDecl} (h : store.type? id = some t) :
    id ∈ store.typeIds := by
  obtain ⟨hlt, -⟩ := Array.getElem?_eq_some_iff.1 h
  exact List.mem_map.2 ⟨id.index, List.mem_range.2 hlt, rfl⟩

/-- Types are visited in the order of their registration. -/
theorem pairwise_typeIds (store : Store) :
    store.typeIds.Pairwise fun a b => a.index < b.index := by
  unfold typeIds
  rw [List.pairwise_map]
  exact List.pairwise_lt_range

theorem nodup_typeIds (store : Store) : store.typeIds.Nodup := by
  refine (pairwise_typeIds store).imp fun h heq => ?_
  rw [heq] at h
  exact Nat.lt_irrefl _ h

theorem marksFor_eq_false {fullName : String} {id : TypeId} :
    store.marksFor names fullName id = false ↔
      ∀ t, store.type? id = some t → ¬t.MarksFor names fullName := by
  unfold marksFor
  rw [Option.any_eq_false]
  simp only [decide_eq_false_iff_not]

/-- The types that mark for a name are those with a marker that mentions it. -/
theorem mem_typesMarkedFor {fullName : String} {id : TypeId} :
    id ∈ store.typesMarkedFor names fullName ↔
      ∃ t, store.type? id = some t ∧ t.MarksFor names fullName := by
  unfold typesMarkedFor marksFor
  rw [List.mem_filter, Option.any_eq_true]
  constructor
  · rintro ⟨-, t, ht, hmarks⟩
    exact ⟨t, ht, of_decide_eq_true hmarks⟩
  · rintro ⟨t, ht, hmarks⟩
    exact ⟨mem_typeIds ht, t, ht, decide_eq_true hmarks⟩

theorem pairwise_typesMarkedFor (store : Store) (names : Vocabulary) (fullName : String) :
    (store.typesMarkedFor names fullName).Pairwise fun a b => a.index < b.index :=
  (pairwise_typeIds store).filter _

end Store

namespace ProxyIndex

/-! ## Filing one type -/

section Link

variable (marked marked' : List TypeId) (id : TypeId) (fullName : String)

theorem proxiesOf_nil : proxiesOf ⟨marked, []⟩ fullName = [] := rfl

theorem proxiesOf_cons (entry : String × List TypeId) (rest : List (String × List TypeId)) :
    proxiesOf ⟨marked, entry :: rest⟩ fullName =
      if entry.1 = fullName then entry.2 else proxiesOf ⟨marked', rest⟩ fullName := by
  unfold proxiesOf
  by_cases h : entry.1 = fullName
  · rw [if_pos h, List.find?_cons_of_pos (by simpa using h)]
  · rw [if_neg h, List.find?_cons_of_neg (by simpa using h)]

/-- A link adds the proxy to its target, once, and to no other name. -/
theorem proxiesOf_link (name : String) (targets : List (String × List TypeId)) :
    proxiesOf ⟨marked, link id name targets⟩ fullName =
      if name = fullName then appendNew (proxiesOf ⟨marked', targets⟩ fullName) id
      else proxiesOf ⟨marked', targets⟩ fullName := by
  induction targets with
  | nil =>
    rw [link, proxiesOf_cons marked marked', proxiesOf_nil]
    rfl
  | cons entry rest ih =>
    rw [link]
    split
    · next heq =>
      rw [proxiesOf_cons marked marked', proxiesOf_cons marked' marked', heq]
      by_cases h : name = fullName
      · simp only [if_pos h]
      · simp only [if_neg h]
    · next hne =>
      rw [proxiesOf_cons marked marked, proxiesOf_cons marked' marked', ih]
      by_cases h : entry.1 = fullName
      · have hname : name ≠ fullName := fun hname => hne (h.trans hname.symm)
        simp only [if_pos h, if_neg hname]
      · simp only [if_neg h]

/-- However often a name is mentioned, the type stands under it once. -/
theorem proxiesOf_foldl_link (mentioned : List String) (targets : List (String × List TypeId)) :
    proxiesOf ⟨marked, mentioned.foldl (fun ts name => link id name ts) targets⟩ fullName =
      if fullName ∈ mentioned then appendNew (proxiesOf ⟨marked', targets⟩ fullName) id
      else proxiesOf ⟨marked', targets⟩ fullName := by
  induction mentioned generalizing targets with
  | nil => rw [if_neg List.not_mem_nil]; rfl
  | cons name rest ih =>
    rw [List.foldl_cons, ih, proxiesOf_link marked' marked']
    by_cases hname : name = fullName
    · subst hname
      rw [if_pos rfl, if_pos List.mem_cons_self, appendNew_appendNew]
      exact ite_self _
    · have hmem : fullName ∈ name :: rest ↔ fullName ∈ rest := by
        rw [List.mem_cons]
        exact or_iff_right (Ne.symm hname)
      simp only [if_neg hname, hmem]

end Link

/-! ## The scan -/

section Scan

variable {names : Vocabulary} {t : TypeDecl}

theorem mem_markers {a : Annotation} :
    a ∈ markers names.proxy t ↔ a ∈ t.annotations ∧ a.kind = names.proxy := by
  unfold markers
  rw [List.mem_filter, beq_iff_eq]

/-- A type marks for the names that the arguments of its markers mention. -/
theorem marksFor_iff {fullName : String} : t.MarksFor names fullName ↔
    fullName ∈ (markers names.proxy t).flatMap fun a => Argument.mentionedTypes a.args := by
  rw [List.mem_flatMap]
  constructor
  · rintro ⟨a, ha, hkind, hmem⟩
    exact ⟨a, mem_markers.2 ⟨ha, hkind⟩, hmem⟩
  · rintro ⟨a, ha, hmem⟩
    obtain ⟨ha, hkind⟩ := mem_markers.1 ha
    exact ⟨a, ha, hkind, hmem⟩

/-- A type is marked when it has a marker, readable or not. -/
theorem isMarked_iff : t.IsMarked names ↔ markers names.proxy t ≠ [] := by
  constructor
  · rintro ⟨a, ha, hkind⟩
    exact List.ne_nil_of_mem (mem_markers.2 ⟨ha, hkind⟩)
  · intro h
    obtain ⟨a, ha⟩ := List.exists_mem_of_ne_nil _ h
    exact ⟨a, mem_markers.1 ha⟩

/-- Scanning a type adds it to the names that it marks for. -/
theorem proxiesOf_scan (id : TypeId) (index : ProxyIndex) (fullName : String) :
    (scan names.proxy id t index).proxiesOf fullName =
      if t.MarksFor names fullName then appendNew (index.proxiesOf fullName) id
      else index.proxiesOf fullName := by
  unfold scan
  simp only [marksFor_iff]
  split
  · next h => rw [h]; rfl
  · exact proxiesOf_foldl_link _ index.marked id fullName _ index.targets

theorem marked_scan (id : TypeId) (index : ProxyIndex) :
    (scan names.proxy id t index).marked =
      if t.IsMarked names then index.marked ++ [id] else index.marked := by
  unfold scan
  simp only [isMarked_iff]
  split
  · next h => rw [if_neg (not_not.2 h)]
  · next h => rw [if_pos h]

end Scan

/-! ## The whole index -/

section OfStore

variable (store : Store) (names : Vocabulary)

/-- One step of the scan over all types. -/
def scanStored (index : ProxyIndex) (id : TypeId) : ProxyIndex :=
  match store.type? id with
  | some t => scan names.proxy id t index
  | none => index

/-- The index is filled by scanning the types from the first to the last. -/
theorem ofStore_eq_foldl : ofStore store names = store.typeIds.foldl (scanStored store names) {} :=
  rfl

variable {store names}

theorem proxiesOf_scanStored (index : ProxyIndex) (id : TypeId) (fullName : String) :
    (scanStored store names index id).proxiesOf fullName =
      if store.marksFor names fullName id then appendNew (index.proxiesOf fullName) id
      else index.proxiesOf fullName := by
  unfold scanStored Store.marksFor
  cases store.type? id with
  | none => rfl
  | some t => simp only [proxiesOf_scan, Option.any_some, decide_eq_true_eq]

theorem marked_scanStored (index : ProxyIndex) (id : TypeId) :
    (scanStored store names index id).marked =
      if store.isMarked names id then index.marked ++ [id] else index.marked := by
  unfold scanStored Store.isMarked
  cases store.type? id with
  | none => rfl
  | some t => simp only [marked_scan, Option.any_some, decide_eq_true_eq]

/-- Scanning types that do not stand under the name yet adds those that mention it. -/
theorem proxiesOf_foldl_scanStored {ids : List TypeId} {index : ProxyIndex} {fullName : String}
    (hnodup : ids.Nodup) (hnew : ∀ id ∈ ids, id ∉ index.proxiesOf fullName) :
    (ids.foldl (scanStored store names) index).proxiesOf fullName =
      index.proxiesOf fullName ++ ids.filter (store.marksFor names fullName) := by
  induction ids generalizing index with
  | nil => exact (List.append_nil _).symm
  | cons id rest ih =>
    obtain ⟨hid, hrest⟩ := List.nodup_cons.1 hnodup
    have hscan : (scanStored store names index id).proxiesOf fullName = _ :=
      proxiesOf_scanStored index id fullName
    by_cases hmarks : store.marksFor names fullName id
    · rw [if_pos hmarks, appendNew_of_not_mem (hnew id List.mem_cons_self)] at hscan
      have hnew' : ∀ id' ∈ rest, id' ∉ (scanStored store names index id).proxiesOf fullName := by
        intro id' hid' hmem
        rw [hscan, List.mem_append, List.mem_singleton] at hmem
        rcases hmem with hmem | rfl
        · exact hnew id' (List.mem_cons_of_mem _ hid') hmem
        · exact hid hid'
      rw [List.foldl_cons, ih hrest hnew', hscan, List.filter_cons_of_pos hmarks,
        List.append_assoc]
      rfl
    · rw [if_neg hmarks] at hscan
      have hnew' : ∀ id' ∈ rest, id' ∉ (scanStored store names index id).proxiesOf fullName := by
        intro id' hid'
        rw [hscan]
        exact hnew id' (List.mem_cons_of_mem _ hid')
      rw [List.foldl_cons, ih hrest hnew', hscan, List.filter_cons_of_neg hmarks]

/-- The types under a name are those with a marker that mentions it. -/
theorem proxiesOf_ofStore (fullName : String) :
    (ofStore store names).proxiesOf fullName = store.typesMarkedFor names fullName := by
  rw [ofStore_eq_foldl, proxiesOf_foldl_scanStored store.nodup_typeIds
    fun id _ => List.not_mem_nil]
  rfl

/-- A run of the scan adds the marked types in the order in which they are visited. -/
theorem marked_foldl_scanStored (ids : List TypeId) (index : ProxyIndex) :
    (ids.foldl (scanStored store names) index).marked =
      index.marked ++ ids.filter (store.isMarked names) := by
  induction ids generalizing index with
  | nil => exact (List.append_nil _).symm
  | cons id rest ih =>
    rw [List.foldl_cons, ih, marked_scanStored]
    by_cases h : store.isMarked names id
    · rw [if_pos h, List.filter_cons_of_pos h, List.append_assoc]
      rfl
    · rw [if_neg h, List.filter_cons_of_neg h]

theorem marked_ofStore : (ofStore store names).marked = store.markedTypes names := by
  rw [ofStore_eq_foldl, marked_foldl_scanStored]
  rfl

end OfStore

end ProxyIndex

/-- The proxies of a type are those of all types with a marker that mentions its name. -/
theorem Store.proxiesOf_eq {store : Store} {names : Vocabulary} {id : TypeId} {t : TypeDecl}
    (ht : store.type? id = some t) : store.proxiesOf names id =
      (store.typesMarkedFor names t.fullName).mapM (Proxy.build store names) := by
  unfold Store.proxiesOf
  rw [ht, ← ProxyIndex.proxiesOf_ofStore]
  rfl

end TypeModel
