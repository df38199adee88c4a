import TypeModel.Proofs.CatalogRun
import TypeModel.Proofs.Gains

/-!
# Ignoring is monotonic

An ignore annotation that is attached to a declaration, wherever that is, makes types and members
ignored and does nothing else: records can be built as before, they have the same members with the
same backings, and whatever was ignored still is (`Catalog.ignoring_is_monotonic`). Overloads are
numbered anew, so that visible names may change; but whether a visible name can be found depends on
annotations of another kind alone.
-/

namespace TypeModel

/-! ## Drafts -/

/-- Two members by themselves: the same backing, more metadata, and the second hidden if the first
is. -/
structure MemberCore.Gains (kind : String) (c c' : MemberCore) : Prop where
  backing_eq : c'.backing = c.backing
  metadata : c.metadata.Gains kind c'.metadata
  hidden : c.hidden = true → c'.hidden = true

structure MemberDraft.Gains (kind : String) (d d' : MemberDraft) : Prop where
  member_eq : d'.member = d.member
  core : d.core.Gains kind d'.core
  ignored : d.ignored = true → d'.ignored = true

namespace Store.Gains

variable {kind : String} {s s' : Store} {names : Vocabulary} {proxies proxies' : List Proxy}

theorem metadata? (h : s.Gains kind s') (m : MemberId) :
    Option.Rel (Metadata.Gains kind) (s.metadata? (.member m)) (s'.metadata? (.member m)) := by
  apply option_rel_bind (h (.member m))
  intro d d' hd
  unfold Store.qualifiedName?
  rw [h.qualifiedMemberName?]
  apply option_rel_bind_same
  intro name
  exact .some (Metadata.gains_ofAnnotations hd.2 name)

theorem backedMetadata? (h : s.Gains kind s') (m backing : MemberId) :
    Option.Rel (Metadata.Gains kind) (backedMetadata? s m backing)
      (backedMetadata? s' m backing) := by
  apply option_rel_bind (h.metadata? m)
  intro metadata metadata' hmetadata
  by_cases heq : backing = m
  · rw [if_pos heq, if_pos heq]
    exact .some hmetadata
  · rw [if_neg heq, if_neg heq]
    apply option_rel_bind (h.metadata? backing)
    intro lent lent' hlent
    exact .some (hmetadata.update hlent false)

/-- A member keeps what backs it, and it is hidden if it was before. -/
theorem core (h : s.Gains names.ignore s')
    (hproxies : List.Forall₂ (Proxy.Gains names.ignore) proxies proxies') (origin : Origin)
    (m : MemberId) : Option.Rel (MemberCore.Gains names.ignore)
      (MemberCore.ofMember? s names proxies origin m)
      (MemberCore.ofMember? s' names proxies' origin m) := by
  apply option_rel_bind (h.member? m)
  intro d d' hd
  have hpointer : d'.mentionsPointer = d.mentionsPointer := by
    rw [← d'.mentionsPointer_eraseAnnotations, hd.2, d.mentionsPointer_eraseAnnotations]
  have hbacking : backing? s' proxies' origin m = backing? s proxies origin m := by
    cases origin with
    | own => exact congrFun (h.resolve? hproxies) m
    | proxy => rfl
  rw [hbacking, h.qualifiedMemberName?, eq_of_skeleton declaredMemberName?_skeleton h.skeleton]
  apply option_rel_bind_same
  intro backing
  apply option_rel_bind (h.backedMetadata? m backing)
  intro metadata metadata' hmetadata
  apply option_rel_bind_same
  intro qualifiedName
  apply option_rel_bind_same
  intro name
  refine .some ⟨rfl, hmetadata, ?_⟩
  simp only [Bool.or_eq_true, hpointer]
  exact Or.imp_left (Or.imp_right hmetadata.has)

/-- A draft stays that of its member, and it is ignored if it was before. -/
theorem draft (h : s.Gains names.ignore s')
    (hproxies : List.Forall₂ (Proxy.Gains names.ignore) proxies proxies') (slot : Slot) :
    Option.Rel (MemberDraft.Gains names.ignore) (MemberDraft.ofSlot? s names proxies slot)
      (MemberDraft.ofSlot? s' names proxies' slot) := by
  have hinherits : Option.Rel (fun hidden hidden' => hidden = true → hidden' = true)
      (inheritsHidden? s names proxies slot) (inheritsHidden? s' names proxies' slot) := by
    unfold inheritsHidden?
    cases slot.accessorOf with
    | none => exact .some id
    | some o => exact option_rel_map (h.core hproxies slot.origin o) fun _ _ hc => hc.hidden
  apply option_rel_bind (h.core hproxies slot.origin slot.member)
  intro core core' hcore
  apply option_rel_bind hinherits
  intro inherited inherited' hinherited
  apply option_rel_bind (h.member? slot.member)
  intro d d' hd
  rw [← MemberDetails.ofDecl_eraseAnnotations _ _ d', hd.2, MemberDetails.ofDecl_eraseAnnotations]
  apply option_rel_bind_same
  intro details
  refine .some ⟨rfl, hcore, ?_⟩
  simp only [Bool.or_eq_true]
  exact Or.imp hcore.hidden hinherited

end Store.Gains

/-! ## Records -/

/-- Two members made from one declaration with one backing, the second ignored if the first is. -/
structure Member.IgnoresMore (x x' : Member) : Prop where
  decl_eq : x'.decl = x.decl
  backing_eq : x'.backing = x.backing
  ignored : x.ignored = true → x'.ignored = true

/-- Two records with the same members in the same order, the second of which ignores whatever the
first does. -/
structure TypeRecord.IgnoresMore (r r' : TypeRecord) : Prop where
  members : r.members.Replaces Member.IgnoresMore r'.members
  ignored : r.ignored = true → r'.ignored = true

section Records

variable {kind : String} {names : Vocabulary} {id : TypeId} {t : TypeDecl}
  {proxies proxies' : List Proxy}

/-- A rename is read as before, so that the same names are refused. -/
theorem Vocabulary.alike_visibleName {m m' : Metadata} (h : m.Gains kind m')
    (hrename : names.rename ≠ kind) (declared declared' : String) (index index' : Option Nat) :
    Alike (fun _ _ => True) (names.visibleName m declared index)
      (names.visibleName m' declared' index') := by
  have hsole := h.soleString hrename
  cases hrenamed : m.soleString names.rename with
  | error e =>
    unfold Vocabulary.visibleName
    rw [hsole, hrenamed]
    exact .error e
  | ok renamed =>
    obtain ⟨visible, hvisible⟩ := Vocabulary.exists_visibleName hrenamed declared index
    obtain ⟨visible', hvisible'⟩ :=
      Vocabulary.exists_visibleName (hsole.trans hrenamed) declared' index'
    rw [hvisible, hvisible']
    exact .ok trivial

namespace TypeRecord

theorem gains_mergedMetadata (hproxies : List.Forall₂ (Proxy.Gains kind) proxies proxies')
    {annotations : List Annotation} (ht : GainsKind kind t.annotations annotations) :
    (mergedMetadata t proxies).Gains kind (mergedMetadata { t with annotations } proxies') := by
  have hfold : ∀ m m' : Metadata, m.Gains kind m' →
      (proxies.foldl (fun m p => m.update p.metadata p.replacesMetadata) m).Gains kind
        (proxies'.foldl (fun m p => m.update p.metadata p.replacesMetadata) m') := by
    induction hproxies with
    | nil => exact fun _ _ hm => hm
    | @cons p p' _ _ hp _ ih =>
      intro m m' hm
      have hreplaces : p'.replacesMetadata = p.replacesMetadata := by
        unfold Proxy.replacesMetadata
        rw [hp.marker_eq]
      rw [List.foldl_cons, List.foldl_cons, hreplaces]
      exact ih _ _ (hm.update hp.metadata _)
  exact hfold _ _ (Metadata.gains_ofAnnotations ht t.fullName)

variable {typeIgnored typeIgnored' moduleIgnored moduleIgnored' : Bool}

/-- A member is ignored if it was before, and it is refused for the same rename. -/
theorem alike_finishMember (hrename : names.rename ≠ kind) {overloads overloads' : Overloads}
    {d d' : MemberDraft} (hd : d.Gains kind d')
    (hignored : typeIgnored = true → typeIgnored' = true) :
    Alike Member.IgnoresMore (finishMember names id typeIgnored overloads d)
      (finishMember names id typeIgnored' overloads' d') := by
  apply (Vocabulary.alike_visibleName hd.core.metadata hrename _ _ _ _).bind
  intro visible visible' _
  refine .ok ⟨congrArg DeclId.member hd.member_eq, congrArg DeclId.member hd.core.backing_eq, ?_⟩
  simp only [Bool.or_eq_true]
  exact Or.imp hd.ignored hignored

theorem alike_finish (hrename : names.rename ≠ names.ignore)
    (hproxies : List.Forall₂ (Proxy.Gains names.ignore) proxies proxies')
    {annotations : List Annotation} (ht : GainsKind names.ignore t.annotations annotations)
    (hmodule : moduleIgnored = true → moduleIgnored' = true) {outline outline' : Outline}
    (hdrafts : outline.drafts.Replaces (MemberDraft.Gains names.ignore) outline'.drafts) :
    Alike IgnoresMore (finish names moduleIgnored proxies id t outline)
      (finish names moduleIgnored' proxies' id { t with annotations } outline') := by
  have hmetadata := gains_mergedMetadata hproxies ht
  have hignored : (moduleIgnored || isHiddenName t.fullName ||
      (mergedMetadata t proxies).has names.ignore) = true →
      (moduleIgnored' || isHiddenName t.fullName ||
        (mergedMetadata { t with annotations } proxies').has names.ignore) = true := by
    simp only [Bool.or_eq_true]
    exact Or.imp (Or.imp_left hmodule) hmetadata.has
  apply (Vocabulary.alike_visibleName hmetadata hrename _ _ _ _).bind
  intro visible visible' _
  apply (hdrafts.alike_mapM fun d d' hd => alike_finishMember hrename hd hignored).bind
  intro members members' hmembers
  exact .ok ⟨hmembers, hignored⟩

variable {s s' : Store}

/-- Drafts are ignored if they were before, one by one. -/
theorem rel_outline? (h : s.Gains names.ignore s')
    (hproxies : List.Forall₂ (Proxy.Gains names.ignore) proxies proxies')
    (annotations : List Annotation) :
    Option.Rel (fun outline outline' =>
        outline.drafts.Replaces (MemberDraft.Gains names.ignore) outline'.drafts)
      (outline? s names proxies id t) (outline? s' names proxies' id { t with annotations }) := by
  unfold outline?
  rw [h.roster hproxies, Store.eq_of_skeleton Store.literals_skeleton h.skeleton]
  apply option_rel_bind_same
  intro roster
  have hsame : roster.Replaces Eq roster := .refl (fun _ => rfl) roster
  have hdrafts : ∀ slot slot', slot = slot' → Option.Rel (MemberDraft.Gains names.ignore)
      (MemberDraft.ofSlot? s names proxies slot) (MemberDraft.ofSlot? s' names proxies' slot') := by
    intro slot _ heq
    subst heq
    exact h.draft hproxies slot
  apply option_rel_bind (hsame.option_rel_mapM hdrafts)
  intro drafts drafts' hreplaces
  apply option_rel_bind_same
  intro literals
  exact .some hreplaces

/-- A record is refused for the same reason, or it ignores what it ignored before and maybe more. -/
theorem alike_build (h : s.Gains names.ignore s') (hrename : names.rename ≠ names.ignore)
    (hproxy : names.proxy ≠ names.ignore) (id : TypeId) :
    Alike IgnoresMore (build s names id) (build s' names id) := by
  apply (alike_inRange (h.type? id)).bind
  intro t t' ht
  obtain ⟨hannotations, ht'⟩ := ht
  generalize t'.annotations = annotations at hannotations ht'
  subst ht'
  have hmodule : Option.Rel (fun record record' : ModuleRecord =>
      record.ignored = true → record'.ignored = true)
      (ModuleRecord.build? s names t.module) (ModuleRecord.build? s' names t.module) := by
    apply option_rel_bind (h.module? t.module)
    intro d d' hd
    have hmetadata := Metadata.gains_ofAnnotations hd.1 d.name
    rw [hd.2]
    refine .some ?_
    simp only [Bool.or_eq_true]
    exact Or.imp_right hmetadata.has
  apply (alike_inRange hmodule).bind
  intro module module' hmodule
  apply (h.proxiesOf hproxy id).bind
  intro proxies proxies' hproxies
  apply (alike_inRange (rel_outline? h hproxies annotations)).bind
  intro outline outline' houtline
  exact alike_judged (alike_finish hrename hproxies hannotations hmodule houtline)

/-- An attached static constructor is no member, and it does not change what is ignored. -/
theorem IgnoresMore.filled {r r' : TypeRecord} (h : r.IgnoresMore r') (filled filled' : Prop)
    [Decidable filled] [Decidable filled'] :
    (if filled then r.withStaticConstructor else r).IgnoresMore
      (if filled' then r'.withStaticConstructor else r') := by
  have hsame : ∀ (r : TypeRecord) (p : Prop) [Decidable p],
      (if p then r.withStaticConstructor else r).members = r.members ∧
        (if p then r.withStaticConstructor else r).ignored = r.ignored := by
    intro r p _
    unfold withStaticConstructor
    split
    · split <;> exact ⟨rfl, rfl⟩
    · exact ⟨rfl, rfl⟩
  obtain ⟨hmembers, hignored⟩ := hsame r filled
  obtain ⟨hmembers', hignored'⟩ := hsame r' filled'
  constructor
  · rw [hmembers, hmembers']
    exact h.members
  · rw [hignored, hignored']
    exact h.ignored

end TypeRecord

end Records

namespace Catalog

/-- Whatever was asked before, the record of a type can be built over a store with one more ignore
annotation if it can be built without, and fails in the same way if it cannot; it has the same
members with the same backings, and what is ignored without the annotation is ignored with it. -/
theorem ignoring_is_monotonic (names : Vocabulary) (hrename : names.ignore ≠ names.rename)
    (hproxy : names.ignore ≠ names.proxy) {s s' : Store} {target : DeclId} {a : Annotation}
    (ha : a.kind = names.ignore) (hs : s.annotate? target a = some s')
    (before before' : List Request) (id : TypeId) :
    let answer := (after s names before).answer (.type id)
    let answer' := (after s' names before').answer (.type id)
    ((∃ r, answer = .ok (.type r)) ↔ ∃ r', answer' = .ok (.type r')) ∧
    (∀ e, answer = .error e ↔ answer' = .error e) ∧
    ∀ r r', answer = .ok (.type r) → answer' = .ok (.type r') → r.IgnoresMore r' := by
  intro answer answer'
  have hgains : s.Gains names.ignore s' := ha ▸ Store.gains_of_annotate? hs
  have halike := TypeRecord.alike_build hgains (Ne.symm hrename) (Ne.symm hproxy) id
  refine ⟨?_, ?_, ?_⟩
  · simp only [answer, answer', answer_type_eq_ok]
    constructor
    · intro h
      obtain ⟨r, hr⟩ := h
      obtain ⟨x, hx, -⟩ := typeRecord_eq_ok hr
      obtain ⟨x', hx'⟩ := halike.isOk_iff.1 ⟨x, hx⟩
      exact ⟨_, typeRecord_of_ok hx'⟩
    · intro h
      obtain ⟨r', hr'⟩ := h
      obtain ⟨x', hx', -⟩ := typeRecord_eq_ok hr'
      obtain ⟨x, hx⟩ := halike.isOk_iff.2 ⟨x', hx'⟩
      exact ⟨_, typeRecord_of_ok hx⟩
  · intro e
    simp only [answer, answer', answer_type_after, except_map_eq_error]
    exact halike.error_iff e
  · intro r r' hr hr'
    obtain ⟨x, hx, rfl⟩ := typeRecord_eq_ok (answer_type_eq_ok.1 hr)
    obtain ⟨x', hx', rfl⟩ := typeRecord_eq_ok (answer_type_eq_ok.1 hr')
    exact (halike.related_of_ok hx hx').filled _ _

/-- A store with a type whose method a proxy substitutes. -/
def lentStore : Store where
  modules := #[{ name := "app.dll" }]
  types := #[
    { module := ⟨0⟩, scope := "", name := "Main", fullName := "Main", kind := .classType
      methods := [⟨0⟩] },
    { module := ⟨0⟩, scope := "", name := "Lender", fullName := "Lender", kind := .classType
      methods := [⟨1⟩]
      annotations := [{ kind := "Xlate.Meta.ProxyAttribute", args := [.str "Main"] }] }]
  methods := #[{ owner := ⟨0⟩, name := "Run" }, { owner := ⟨1⟩, name := "Run" }]

/-- An annotation on the backing declaration conceals the member that it backs. -/
theorem annotated_backing_ignores_member :
    ∃ s' r r', lentStore.annotate? (.member (.method ⟨1⟩))
        { kind := "Xlate.Meta.IgnoreAttribute" } = some s' ∧
      (after lentStore {} []).answer (.type ⟨0⟩) = .ok (.type r) ∧
      (after s' {} []).answer (.type ⟨0⟩) = .ok (.type r') ∧ r.IgnoresMore r' ∧
      r.members.values.map Member.ignored = [false] ∧
      r'.members.values.map Member.ignored = [true] := by
  obtain ⟨s', hs, r, hr, hkept, r', hr', hignored⟩ : ∃ s', lentStore.annotate?
      (.member (.method ⟨1⟩)) { kind := "Xlate.Meta.IgnoreAttribute" } = some s' ∧
      ∃ r, (after lentStore {} []).answer (.type ⟨0⟩) = .ok (.type r) ∧
      r.members.values.map Member.ignored = [false] ∧
      ∃ r', (after s' {} []).answer (.type ⟨0⟩) = .ok (.type r') ∧
        r'.members.values.map Member.ignored = [true] :=
    ⟨_, rfl, _, rfl, rfl, _, rfl, rfl⟩
  obtain ⟨-, -, hmore⟩ := ignoring_is_monotonic {} (by decide) (by decide) rfl hs [] [] ⟨0⟩
  exact ⟨s', r, r', hs, hr, hr', hmore r r' hr hr', hkept, hignored⟩

end Catalog

end TypeModel
