import TypeModel.Proofs.FirstOccurrences
import TypeModel.TypeRecord.Overloads

/-!
# Clusters of methods

Methods are taken in one after another, and each goes to the cluster of its key. What has been taken
in at any time is told by the list of the methods so far (`Clustering.Holds`): the keys stand in the
order in which they first occurred, and under each are all methods that share it. So the clusters
are the methods of each key, by first occurrence (`OverloadCluster.ofMethods_eq`), and the groups
are those of two methods or more (`Overloads.mem_groups_iff`).
-/

namespace TypeModel

/-- The methods of one key, in order. -/
def Overloads.sharing (methods : List (MethodId × OverloadKey)) (key : OverloadKey) :
    List MethodId :=
  (methods.filter fun m => m.2 = key).map Prod.fst

section Clusters

open Overloads

variable {methods : List (MethodId × OverloadKey)} {key : OverloadKey} {a : MethodId}

theorem Overloads.mem_sharing : a ∈ sharing methods key ↔ (a, key) ∈ methods := by
  unfold sharing
  rw [List.mem_map]
  constructor
  · rintro ⟨⟨id, k⟩, hmem, rfl⟩
    obtain ⟨hmem, hkey⟩ := List.mem_filter.1 hmem
    rw [← of_decide_eq_true hkey]
    exact hmem
  · intro h
    exact ⟨(a, key), List.mem_filter.2 ⟨h, decide_eq_true rfl⟩, rfl⟩

/-- A further method comes last among those of its key. -/
theorem Overloads.sharing_concat (m : MethodId × OverloadKey) :
    sharing (methods ++ [m]) key = sharing methods key ++ if m.2 = key then [m.1] else [] := by
  unfold sharing
  rw [List.filter_append, List.map_append]
  by_cases h : m.2 = key <;> simp [h]

/-- No method shares a key that none has. -/
theorem Overloads.sharing_eq_nil (h : key ∉ methods.map Prod.snd) : sharing methods key = [] :=
  List.eq_nil_iff_forall_not_mem.2 fun _ ha => h (List.mem_map_of_mem (mem_sharing.1 ha))

namespace Clustering

/-- What has been taken in are the methods of a list. -/
structure Holds (c : Clustering) (methods : List (MethodId × OverloadKey)) : Prop where
  order : c.order = (methods.map Prod.snd).eraseDups
  get? : ∀ key, c.methods.get? key =
    if key ∈ methods.map Prod.snd then some (sharing methods key) else none

/-- Once the cluster of the new method's key has been written, every key has the methods that share
it. -/
theorem Holds.get?_insert {c : Clustering} (h : c.Holds methods) (m : MethodId × OverloadKey)
    (probe : OverloadKey) :
    (c.methods.insert m.2 (sharing (methods ++ [m]) m.2)).get? probe =
      if probe ∈ (methods ++ [m]).map Prod.snd then some (sharing (methods ++ [m]) probe)
      else none := by
  have hmem : probe ∈ (methods ++ [m]).map Prod.snd ↔
      m.2 = probe ∨ probe ∈ methods.map Prod.snd := by
    simp only [List.map_append, List.map_cons, List.map_nil, List.mem_append, List.mem_singleton]
    rw [or_comm, eq_comm]
  rw [Dictionary.get?_insert]
  split
  · next heq =>
    subst heq
    rw [if_pos (hmem.2 (.inl rfl))]
  · next hne =>
    rw [h.get?, sharing_concat, if_neg hne, List.append_nil]
    simp only [hmem, hne, false_or]

/-- A method that is taken in joins the cluster of its key and leaves all others as they are. -/
theorem Holds.add {c : Clustering} (h : c.Holds methods) (m : MethodId × OverloadKey) :
    (c.add m).Holds (methods ++ [m]) := by
  have hkeys : (methods ++ [m]).map Prod.snd = methods.map Prod.snd ++ [m.2] := List.map_append
  have hjoined : sharing (methods ++ [m]) m.2 = sharing methods m.2 ++ [m.1] := by
    rw [sharing_concat, if_pos rfl]
  have hfound := h.get? m.2
  unfold Clustering.add
  -- A key that has come up before keeps its place in the order, a new one comes last.
  by_cases hold : m.2 ∈ methods.map Prod.snd
  · rw [if_pos hold] at hfound
    rw [hfound]
    dsimp only
    constructor
    case order =>
      rw [hkeys, eraseDups_concat, appendNew_of_mem (List.mem_eraseDups.2 hold), h.order]
    case get? =>
      intro probe
      rw [← hjoined]
      exact h.get?_insert m probe
  · rw [if_neg hold] at hfound
    rw [sharing_eq_nil hold, List.nil_append] at hjoined
    rw [hfound]
    dsimp only
    constructor
    case order =>
      rw [hkeys, eraseDups_concat, appendNew_of_not_mem (mt List.mem_eraseDups.1 hold), h.order]
    case get? =>
      intro probe
      rw [← hjoined]
      exact h.get?_insert m probe

/-- A run takes in all methods of its list. -/
theorem holds_foldl (methods : List (MethodId × OverloadKey)) :
    Holds (methods.foldl Clustering.add {}) methods := by
  induction methods using List.reverseRecOn with
  | nil => exact ⟨rfl, fun key => rfl⟩
  | append_singleton methods m ih =>
    rw [List.foldl_append]
    exact ih.add m

/-- As long as no key comes twice, taking out clusters does not change those that are left. -/
theorem drain_eq {order : List OverloadKey} (hnodup : order.Nodup)
    {d : Dictionary OverloadKey (List MethodId)} {f : OverloadKey → List MethodId}
    (h : ∀ key ∈ order, d.get? key = some (f key)) :
    drain d order = order.map fun key => ⟨key, f key⟩ := by
  induction order generalizing d with
  | nil => rfl
  | cons key rest ih =>
    obtain ⟨hkey, hrest⟩ := List.nodup_cons.1 hnodup
    have hleft : ∀ k ∈ rest, (d.erase key).get? k = some (f k) := by
      intro k hk
      rw [Dictionary.get?_erase, if_neg (ne_of_mem_of_not_mem hk hkey).symm]
      exact h k (List.mem_cons_of_mem _ hk)
    rw [drain, h key List.mem_cons_self]
    exact congrArg _ (ih hrest hleft)

end Clustering

namespace OverloadCluster

/-- The clusters are the methods of each key, by the first occurrence of the key. -/
theorem ofMethods_eq (methods : List (MethodId × OverloadKey)) :
    ofMethods methods =
      (methods.map Prod.snd).eraseDups.map fun key => ⟨key, sharing methods key⟩ := by
  have h := Clustering.holds_foldl methods
  unfold ofMethods
  dsimp only
  rw [h.order]
  refine Clustering.drain_eq (nodup_eraseDups _) fun key hkey => ?_
  rw [h.get?, if_pos (List.mem_eraseDups.1 hkey)]

/-- Each key that comes up has one cluster, made of all methods that share it. -/
theorem mem_ofMethods {c : OverloadCluster} : c ∈ ofMethods methods ↔
    ∃ key ∈ methods.map Prod.snd, c = ⟨key, sharing methods key⟩ := by
  rw [ofMethods_eq, List.mem_map]
  simp only [List.mem_eraseDups, eq_comm]

/-- Two methods make a cluster a group. -/
theorem group?_eq_some {c : OverloadCluster} {g : OverloadGroup} :
    c.group? = some g ↔
      2 ≤ c.methods.length ∧ g = ⟨c.key.name, c.key.isStatic, c.methods⟩ := by
  unfold group?
  split <;> simp [*, eq_comm]

/-- A cluster is a static constructor if it is one method of that name. -/
theorem staticConstructor?_eq_some_iff {c : OverloadCluster} {id : MethodId} :
    c.staticConstructor? = some id ↔ c.methods = [id] ∧ c.key.name = staticConstructorName := by
  unfold staticConstructor?
  split
  · next single hsingle => simp [hsingle, and_comm]
  · next hnone =>
    refine iff_of_false (Option.some_ne_none id).symm ?_
    rintro ⟨hsingle, -⟩
    exact hnone id hsingle

end OverloadCluster

/-- The groups are made of the methods of those keys that two methods or more share. -/
theorem Overloads.mem_groups_iff {g : OverloadGroup} : g ∈ (ofMethods methods).groups ↔
    ∃ key, 2 ≤ (sharing methods key).length ∧
      g = ⟨key.name, key.isStatic, sharing methods key⟩ := by
  unfold ofMethods
  rw [List.mem_filterMap]
  constructor
  · rintro ⟨c, hc, hgroup⟩
    obtain ⟨key, -, rfl⟩ := OverloadCluster.mem_ofMethods.1 hc
    exact ⟨key, OverloadCluster.group?_eq_some.1 hgroup⟩
  · rintro ⟨key, htwo, rfl⟩
    obtain ⟨a, ha⟩ := List.exists_mem_of_length_pos (Nat.lt_of_lt_of_le Nat.zero_lt_two htwo)
    have hkey : key ∈ methods.map Prod.snd := List.mem_map_of_mem (f := Prod.snd) (mem_sharing.1 ha)
    exact ⟨_, OverloadCluster.mem_ofMethods.2 ⟨key, hkey, rfl⟩,
      OverloadCluster.group?_eq_some.2 ⟨htwo, rfl⟩⟩

end Clusters

end TypeModel
