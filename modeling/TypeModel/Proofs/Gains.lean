import TypeModel.Proofs.Alike
import TypeModel.Proofs.Skeleton
import TypeModel.Proofs.ProxyIndex

/-!
# Gaining annotations of one kind

What can be seen of a store if some declarations gain annotations of one kind: metadata tells of the
new annotations under that kind only (`Metadata.Gains`), so that a proxy marker or a new name of
another kind is read as before, through however many updates. What depends on the skeleton only is
the same. So the proxies of a type are found as before and differ in what they lend only
(`Store.Gains.proxiesOf`), and they substitute and contribute the same members
(`Store.Gains.resolve?`, `Store.Gains.roster`).
-/

namespace TypeModel

/-! ## Lists of annotations and metadata -/

/-- The second list has all annotations of the first, and others of the given kind only. -/
structure GainsKind (kind : String) (xs ys : List Annotation) : Prop where
  subset : xs ⊆ ys
  others : ∀ k, k ≠ kind → (ys.filter fun a => a.kind == k) = xs.filter fun a => a.kind == k

section GainsKind

variable {kind : String} {xs ys : List Annotation}

theorem gainsKind_refl (kind : String) (xs : List Annotation) : GainsKind kind xs xs :=
  ⟨List.Subset.refl xs, fun _ _ => rfl⟩

theorem gainsKind_concat {a : Annotation} (h : a.kind = kind) (xs : List Annotation) :
    GainsKind kind xs (xs ++ [a]) := by
  refine ⟨List.subset_append_left xs [a], fun k hk => ?_⟩
  have hother : (a.kind == k) = false := by simpa [h] using Ne.symm hk
  rw [List.filter_append, List.filter_cons_of_neg (by simp [hother]), List.filter_nil,
    List.append_nil]

/-- The same annotations have a kind other than the one gained. -/
theorem GainsKind.mem_iff (h : GainsKind kind xs ys) {a : Annotation} (ha : a.kind ≠ kind) :
    a ∈ ys ↔ a ∈ xs := by
  have hmem := congrArg (a ∈ ·) (h.others a.kind ha)
  simpa [List.mem_filter] using hmem

end GainsKind

namespace Metadata

/-- The second metadata has the annotations of the first, and others of the given kind only. -/
structure Gains (kind : String) (m m' : Metadata) : Prop where
  grouped : m.Grouped
  grouped' : m'.Grouped
  owner_eq : m'.owner = m.owner
  get_eq : ∀ k, k ≠ kind → m'.get k = m.get k
  kept : m.get kind ≠ [] → m'.get kind ≠ []

variable {kind : String} {m m' : Metadata}

/-- Metadata gains what the annotations that it is collected from gain. -/
theorem gains_ofAnnotations {xs ys : List Annotation} (h : GainsKind kind xs ys) (owner : String) :
    Gains kind (ofAnnotations owner xs) (ofAnnotations owner ys) := by
  constructor
  case grouped => exact grouped_ofAnnotations owner xs
  case grouped' => exact grouped_ofAnnotations owner ys
  case owner_eq => rw [owner_ofAnnotations, owner_ofAnnotations]
  case get_eq =>
    intro k hk
    rw [get_ofAnnotations, get_ofAnnotations, h.others k hk]
  case kept =>
    intro hne
    obtain ⟨a, ha⟩ := List.exists_mem_of_ne_nil _ hne
    obtain ⟨hmem, hkind⟩ := (mem_get_ofAnnotations owner).1 ha
    exact List.ne_nil_of_mem ((mem_get_ofAnnotations owner).2 ⟨h.subset hmem, hkind⟩)

/-- Metadata gains what it takes in gains, whether it keeps the annotations that it had or not. -/
theorem Gains.update {other other' : Metadata} (h : Gains kind m m')
    (hother : Gains kind other other') (replace : Bool) :
    Gains kind (m.update other replace) (m'.update other' replace) := by
  constructor
  case grouped => exact h.grouped.update other replace
  case grouped' => exact h.grouped'.update other' replace
  case owner_eq => rw [owner_update, owner_update, h.owner_eq]
  case get_eq =>
    intro k hk
    rw [h.grouped.get_update hother.grouped, h.grouped'.get_update hother.grouped', h.get_eq k hk,
      hother.get_eq k hk]
  case kept =>
    rw [h.grouped.get_update hother.grouped, h.grouped'.get_update hother.grouped',
      foldl_appendNew_ne_nil, foldl_appendNew_ne_nil]
    cases replace with
    | true => exact Or.imp id hother.kept
    | false => exact Or.imp h.kept hother.kept

/-- No kind of annotation is lost. -/
theorem Gains.has (h : Gains kind m m') (hhas : m.has kind = true) : m'.has kind = true :=
  (h.grouped'.has_iff kind).2 (h.kept ((h.grouped.has_iff kind).1 hhas))

/-- Kinds other than the one that is gained are read as before. -/
theorem Gains.soleArgs (h : Gains kind m m') {k : String} (hk : k ≠ kind) :
    m'.soleArgs k = m.soleArgs k := by
  unfold Metadata.soleArgs
  rw [h.get_eq k hk, h.owner_eq]

theorem Gains.soleString (h : Gains kind m m') {k : String} (hk : k ≠ kind) :
    m'.soleString k = m.soleString k := by
  unfold Metadata.soleString
  rw [h.soleArgs hk, h.owner_eq]

/-- The marker of a proxy is read as before, unless it is of the kind that is gained. -/
theorem Gains.marker {names : Vocabulary} (h : Gains kind m m') (hproxy : names.proxy ≠ kind) :
    ProxyMarker.ofMetadata names m' = ProxyMarker.ofMetadata names m := by
  unfold ProxyMarker.ofMetadata
  rw [h.soleArgs hproxy, h.owner_eq]

end Metadata

/-! ## Stores -/

/-- Two declarations differ in annotations of the given kind only, of which the second has more. -/
def Decl.Gains (kind : String) (d d' : Decl) : Prop :=
  d'.eraseAnnotations = d.eraseAnnotations ∧ GainsKind kind d.annotations d'.annotations

/-- Behind each handle, the second store has the declaration that the first has, but for more
annotations of the given kind. -/
def Store.Gains (kind : String) (s s' : Store) : Prop :=
  ∀ id, Option.Rel (Decl.Gains kind) (s.decl? id) (s'.decl? id)

theorem Store.gains_of_annotate? {s s' : Store} {target : DeclId} {a : Annotation}
    (h : s.annotate? target a = some s') : s.Gains a.kind s' := by
  intro id
  have hsame : Option.Rel (Decl.Gains a.kind) (s.decl? id) (s.decl? id) :=
    option_rel_refl (fun d => ⟨rfl, gainsKind_refl _ _⟩) _
  rw [decl?_annotate? h]
  split
  · next heq =>
    rw [heq]
    cases s.decl? target with
    | none => exact .none
    | some d =>
      refine .some ⟨d.eraseAnnotations_annotate a, ?_⟩
      rw [d.annotations_annotate a]
      exact gainsKind_concat rfl d.annotations
  · exact hsame

namespace Store.Gains

variable {kind : String} {s s' : Store} {names : Vocabulary}

/-- Nothing but annotations is gained. -/
theorem skeleton (h : s.Gains kind s') : s'.skeleton = s.skeleton := by
  apply skeleton_of_decl?
  intro id
  have hrel := h id
  generalize s.decl? id = o at hrel
  generalize s'.decl? id = o' at hrel
  cases hrel with
  | none => rfl
  | @some d d' hd =>
    have hsame := congrArg Decl.skeleton hd.1
    rw [Decl.skeleton_eraseAnnotations, Decl.skeleton_eraseAnnotations] at hsame
    exact congrArg some hsame

theorem typeIds (h : s.Gains kind s') : s'.typeIds = s.typeIds :=
  eq_of_skeleton typeIds_skeleton h.skeleton

theorem qualifiedMemberName? (h : s.Gains kind s') :
    s'.qualifiedMemberName? = s.qualifiedMemberName? :=
  eq_of_skeleton qualifiedMemberName?_skeleton h.skeleton

theorem module? (h : s.Gains kind s') (id : ModuleId) : Option.Rel (fun d d' =>
    GainsKind kind d.annotations d'.annotations ∧ d' = { d with annotations := d'.annotations })
    (s.module? id) (s'.module? id) :=
  option_rel_imp (option_rel_of_map (h (.module id))) fun _ _ hd =>
    ⟨hd.2, ModuleDecl.eq_of_erased (Decl.module.inj hd.1)⟩

theorem type? (h : s.Gains kind s') (id : TypeId) : Option.Rel (fun t t' =>
    GainsKind kind t.annotations t'.annotations ∧ t' = { t with annotations := t'.annotations })
    (s.type? id) (s'.type? id) :=
  option_rel_imp (option_rel_of_map (h (.type id))) fun _ _ ht =>
    ⟨ht.2, TypeDecl.eq_of_erased (Decl.type.inj ht.1)⟩

/-- Members gain annotations of the kind and nothing else. -/
theorem member? (h : s.Gains kind s') (m : MemberId) : Option.Rel (fun d d' =>
    GainsKind kind d.annotations d'.annotations ∧ d'.eraseAnnotations = d.eraseAnnotations)
    (s.member? m) (s'.member? m) :=
  option_rel_imp (option_rel_of_map (h (.member m))) fun _ _ hd =>
    ⟨hd.2, Decl.member.inj hd.1⟩

end Store.Gains

/-! ## Proxies -/

/-- Two proxies differ in the annotations that they lend only, of which the second has more of the
given kind. -/
structure Proxy.Gains (kind : String) (p p' : Proxy) : Prop where
  marker_eq : p'.marker = p.marker
  members_eq : p'.members = p.members
  metadata : p.metadata.Gains kind p'.metadata

namespace Store.Gains

variable {kind : String} {s s' : Store} {names : Vocabulary}

/-- A type is a proxy as before, unless markers are what is gained. -/
theorem proxy (h : s.Gains kind s') (hproxy : names.proxy ≠ kind) (id : TypeId) :
    Alike (Proxy.Gains kind) (Proxy.build s names id) (Proxy.build s' names id) := by
  apply (alike_inRange (h.type? id)).bind
  intro t t' ht
  obtain ⟨hannotations, ht'⟩ := ht
  have hmetadata := Metadata.gains_ofAnnotations hannotations t.fullName
  generalize t'.annotations = annotations at hannotations ht' hmetadata
  subst ht'
  dsimp only
  rw [hmetadata.marker hproxy]
  apply Alike.bind_same
  intro marker?
  cases marker? with
  | none => exact .error _
  | some marker =>
    rw [eq_of_skeleton keyed?_skeleton h.skeleton]
    apply Alike.bind_same
    intro members
    exact .ok ⟨rfl, rfl, hmetadata⟩

/-- The markers of a type mention what they mentioned before. -/
theorem typesMarkedFor (h : s.Gains kind s') (hproxy : names.proxy ≠ kind) (fullName : String) :
    s'.typesMarkedFor names fullName = s.typesMarkedFor names fullName := by
  have hmarks : s'.marksFor names fullName = s.marksFor names fullName := by
    funext id
    have hrel := h.type? id
    unfold marksFor
    generalize s.type? id = o at hrel
    generalize s'.type? id = o' at hrel
    cases hrel with
    | none => rfl
    | @some t t' ht =>
      have hiff : t'.MarksFor names fullName ↔ t.MarksFor names fullName := by
        apply exists_congr
        intro a
        by_cases ha : a.kind = names.proxy
        · rw [ht.1.mem_iff (by rw [ha]; exact hproxy)]
        · simp only [ha, false_and, and_false]
      simp only [Option.any_some, hiff]
  unfold Store.typesMarkedFor
  rw [h.typeIds, hmarks]

/-- A type keeps its proxies, each with more annotations. -/
theorem proxiesOf (h : s.Gains kind s') (hproxy : names.proxy ≠ kind) (id : TypeId) :
    Alike (List.Forall₂ (Proxy.Gains kind)) (s.proxiesOf names id) (s'.proxiesOf names id) := by
  apply (alike_inRange (h.type? id)).bind
  intro t t' ht
  rw [ht.2, ProxyIndex.proxiesOf_ofStore, ProxyIndex.proxiesOf_ofStore,
    h.typesMarkedFor hproxy]
  apply Alike.mapM (List.forall₂_eq_eq_eq ▸ rfl)
  intro q _ hq
  subst hq
  exact h.proxy hproxy q

section Substitution

variable {proxies proxies' : List Proxy}

/-- What backs a member does not depend on annotations. -/
theorem resolve? (h : s.Gains kind s')
    (hproxies : List.Forall₂ (Proxy.Gains kind) proxies proxies') :
    s'.resolve? proxies' = s.resolve? proxies := by
  rw [eq_of_skeleton resolve?_skeleton h.skeleton]
  funext m
  unfold Store.resolve?
  refine Option.bind_congr fun key _ => ?_
  have hfold : proxies.foldlM (s.substitute? key) m = proxies'.foldlM (s.substitute? key) m := by
    apply option_foldlM_eq hproxies
    intro backing p p' hp
    unfold substitute? Proxy.substitutes Proxy.find?
    rw [hp.marker_eq, hp.members_eq]
  rw [hfold]

/-- Which members a type comes to have does not depend on annotations. -/
theorem roster (h : s.Gains kind s')
    (hproxies : List.Forall₂ (Proxy.Gains kind) proxies proxies') (t : TypeDecl) :
    Roster.build? s' t proxies' = Roster.build? s t proxies := by
  rw [eq_of_skeleton roster_skeleton h.skeleton]
  unfold Roster.build?
  refine Option.bind_congr fun base _ => ?_
  symm
  apply option_foldlM_eq hproxies
  intro r p p' hp
  unfold Roster.contribute?
  rw [hp.members_eq]

end Substitution

end Store.Gains

end TypeModel
