import TypeModel.Proofs.CatalogRun
import TypeModel.Proofs.OverloadGroups
import TypeModel.Proofs.Positions

/-!
# The place of the static constructor

Whether a record starts with a static constructor in its place is decided by the grouping of
methods: a listed method gets there if it is not concealed and stands alone under its name among the
static methods, or among the others (`TypeRecord.exists_staticConstructor_iff_of_build`). What a
record starts with it keeps, so that exactly these types never get a synthesized one, whatever a
catalog is asked (`Catalog.keepsOwnStaticConstructor_iff`). A declaration that is concealed or
doubled does not count.
-/

namespace TypeModel

/-- A filter leaves one element. -/
theorem exists_filter_eq_singleton_iff {α : Type} {p : α → Bool} {P : α → Prop}
    (hP : ∀ a, p a = true ↔ P a) {xs : List α} : (∃ a, xs.filter p = [a]) ↔
      ∃ before a after, xs = before ++ a :: after ∧ P a ∧ ∀ b ∈ before ++ after, ¬P b := by
  simp only [List.filter_eq_cons_iff, List.filter_eq_nil_iff, hP, List.forall_mem_append]
  constructor
  · rintro ⟨a, before, after, heq, hbefore, ha, hafter⟩
    exact ⟨before, a, after, heq, ha, hbefore, hafter⟩
  · rintro ⟨before, a, after, heq, ha, hbefore, hafter⟩
    exact ⟨a, before, after, heq, hbefore, ha, hafter⟩

namespace Overloads

/-- There is a static constructor if some cluster of that name is one method. -/
theorem exists_staticConstructor_iff {methods : List (MethodId × OverloadKey)} :
    (∃ a, (ofMethods methods).staticConstructor = some a) ↔
      ∃ isStatic a, sharing methods ⟨staticConstructorName, isStatic⟩ = [a] := by
  constructor
  · rintro ⟨a, ha⟩
    obtain ⟨cluster, hcluster, hconstructor⟩ := List.mem_filterMap.1 (List.mem_of_getLast? ha)
    obtain ⟨⟨name, isStatic⟩, -, rfl⟩ := OverloadCluster.mem_ofMethods.1 hcluster
    obtain ⟨hsole, rfl⟩ := OverloadCluster.staticConstructor?_eq_some_iff.1 hconstructor
    exact ⟨isStatic, a, hsole⟩
  · rintro ⟨isStatic, a, hsole⟩
    have ha : a ∈ sharing methods ⟨staticConstructorName, isStatic⟩ := by
      rw [hsole]
      exact List.mem_singleton_self a
    have hkey := List.mem_map_of_mem (f := Prod.snd) (mem_sharing.1 ha)
    have hmem : a ∈ (OverloadCluster.ofMethods methods).filterMap
        OverloadCluster.staticConstructor? := by
      refine List.mem_filterMap.2 ⟨⟨⟨staticConstructorName, isStatic⟩, [a]⟩, ?_, ?_⟩
      · exact OverloadCluster.mem_ofMethods.2 ⟨_, hkey, by rw [hsole]⟩
      · exact OverloadCluster.staticConstructor?_eq_some_iff.2 ⟨rfl, rfl⟩
    exact ⟨_, List.getLast?_eq_some_getLast (List.ne_nil_of_mem hmem)⟩

end Overloads

namespace TypeRecord

/-! ## Sole initializers -/

/-- The record has a member for the method that is not concealed, and the method is declared with
the key. -/
def Joins (store : Store) (names : Vocabulary) (r : TypeRecord) (key : OverloadKey)
    (a : MethodId) : Prop :=
  store.overloadKey? a = some key ∧
    ∃ x ∈ r.members.values, x.decl = .member (.method a) ∧ ¬x.Concealed store names r

/-- Of the methods that a type lists, one and no other joins the key. -/
def JoinedOnce (store : Store) (names : Vocabulary) (r : TypeRecord) (t : TypeDecl)
    (key : OverloadKey) : Prop :=
  ∃ before a after, t.methods = before ++ a :: after ∧ r.Joins store names key a ∧
    ∀ b ∈ before ++ after, ¬r.Joins store names key b

variable {store : Store} {names : Vocabulary} {id : TypeId} {t : TypeDecl} {r : TypeRecord}

/-- What the grouping finds gets into its place. -/
theorem exists_staticConstructor_iff_of_grouping (h : build store names id = .ok r)
    (ht : store.type? id = some t) (drafts : IdentifierMap MemberDraft)
    (hplace : r.staticConstructor = (Overloads.ofDrafts t drafts).staticConstructor.bind fun a =>
      r.members.values.find? fun x => x.decl = .member (.method a)) :
    (∃ m, r.staticConstructor = some m) ↔
      ∃ a, (Overloads.ofDrafts t drafts).staticConstructor = some a := by
  rw [hplace]
  constructor
  · rintro ⟨m, hm⟩
    obtain ⟨a, ha, -⟩ := Option.bind_eq_some_iff.1 hm
    exact ⟨a, ha⟩
  · rintro ⟨a, ha⟩
    have hlisted := List.mem_map_of_mem (f := MemberId.method) (Overloads.staticConstructor_mem ha)
    obtain ⟨x, hx, hdecl⟩ := exists_own_of_build h ht (List.mem_append_right _ hlisted)
    rw [ha, Option.bind_some, ← Option.isSome_iff_exists, List.find?_isSome]
    exact ⟨x, hx, decide_eq_true hdecl⟩

/-- The record of a type has a static constructor in its place if a listed method joins the name of
static constructors alone. -/
theorem exists_staticConstructor_iff_of_build (h : build store names id = .ok r)
    (ht : store.type? id = some t) : (∃ m, r.staticConstructor = some m) ↔
      ∃ isStatic, r.JoinedOnce store names t ⟨staticConstructorName, isStatic⟩ := by
  obtain ⟨t', module, outline, ht', -, hproxies, houtline, hfinish⟩ := build_eq_ok h
  obtain rfl : t = t' := Option.some.inj (ht.symm.trans ht')
  obtain ⟨roster, hroster, hdrafts⟩ := roster_of_outline? houtline
  obtain ⟨visible, -, hfinished, hr⟩ := finish_eq_ok hfinish
  have hmembers := IdentifierMap.replaces_of_except_mapM hfinished
  have htabulated := Proxy.tabulated_of_proxiesOf ht hproxies
  have hsound := Roster.sound_of_build? hroster htabulated
  have hdeclared : ∀ c ∈ t.methods.filterMap (Overloads.candidate? outline.drafts),
      store.overloadKey? c.1 = some c.2 := by
    intro c hc
    obtain ⟨a, -, hcandidate⟩ := List.mem_filterMap.1 hc
    exact overloadKey?_of_candidate? hsound hdrafts hcandidate
  have hjoins : ∀ key a, (decide (store.overloadKey? a = some key) &&
      (Overloads.candidate? outline.drafts a).isSome) = true ↔ r.Joins store names key a := by
    intro key a
    rw [Bool.and_eq_true, decide_eq_true_eq,
      exists_candidate?_iff hroster htabulated hdrafts hmembers, Joins]
  rw [exists_staticConstructor_iff_of_grouping h ht outline.drafts (by rw [hr]),
    Overloads.ofDrafts, Overloads.exists_staticConstructor_iff]
  refine exists_congr fun isStatic => ?_
  rw [Overloads.sharing_eq_filter hdeclared, Overloads.map_fst_candidates, Overloads.eligible,
    List.filter_filter]
  exact exists_filter_eq_singleton_iff (hjoins _)

/-! ## Declared members -/

/-- A declared member is not synthesized. -/
theorem isSynthesized_of_decl {accessorOf : Option MemberId} {m : MemberId} {d : MemberDecl}
    {details : MemberDetails} (hdetails : MemberDetails.ofDecl accessorOf m d = some details)
    {x : Member} {index : Option Nat} (hx : x.details = details.withOverloadIndex index) :
    x.isSynthesized = false := by
  unfold Member.isSynthesized
  rw [hx]
  cases m <;> cases d <;> cases hdetails <;> rfl

theorem isSynthesized_of_mem (h : build store names id = .ok r) {x : Member}
    (hx : x ∈ r.members.values) : x.isSynthesized = false := by
  obtain ⟨t, drafts, slot, draft, hdraft, hfinish⟩ := exists_slot_of_build h hx
  obtain ⟨-, d, -, -, -, -, hdetails, -⟩ := MemberDraft.ofSlot?_eq_some hdraft
  obtain ⟨visible, -, hfinished⟩ := finishMember_eq_ok hfinish
  exact isSynthesized_of_decl hdetails (by rw [hfinished])

theorem fullName_of_build (h : build store names id = .ok r) (ht : store.type? id = some t) :
    r.fullName = t.fullName := by
  obtain ⟨t', module, outline, ht', -, -, -, hfinish⟩ := build_eq_ok h
  obtain rfl : t = t' := Option.some.inj (ht.symm.trans ht')
  obtain ⟨visible, -, -, hr⟩ := finish_eq_ok hfinish
  rw [hr]

theorem isSynthesized_staticConstructor (h : build store names id = .ok r) {m : Member}
    (hm : r.staticConstructor = some m) : m.isSynthesized = false := by
  obtain ⟨t, module, outline, -, -, -, -, hfinish⟩ := build_eq_ok h
  obtain ⟨visible, -, -, hr⟩ := finish_eq_ok hfinish
  rw [hr] at hm
  obtain ⟨a, -, hfound⟩ := Option.bind_eq_some_iff.1 hm
  exact isSynthesized_of_mem h (List.mem_of_find?_eq_some hfound)

end TypeRecord

/-! ## Runs of a catalog -/

namespace Catalog

variable {store : Store} {names : Vocabulary} {id : TypeId} {t : TypeDecl} {r : TypeRecord}

/-- Whatever a catalog is asked, nothing can be attached to the type, and its record never has a
synthesized static constructor. -/
structure KeepsOwnStaticConstructor (store : Store) (names : Vocabulary) (id : TypeId)
    (fullName : String) : Prop where
  rejected : ∀ before, (after store names before).answer (.fillStaticConstructor id) =
    .reject (.configuration fullName .staticConstructorPresent)
  declared : ∀ before r m, (after store names before).answer (.type id) = .ok (.type r) →
    r.staticConstructor = some m → m.isSynthesized = false

/-- A type gets no synthesized static constructor exactly if a method that it lists joins the name
of static constructors alone, as a static method or as another one. -/
theorem keepsOwnStaticConstructor_iff (h : TypeRecord.build store names id = .ok r)
    (ht : store.type? id = some t) : KeepsOwnStaticConstructor store names id t.fullName ↔
      ∃ isStatic, r.JoinedOnce store names t ⟨staticConstructorName, isStatic⟩ := by
  rw [← TypeRecord.exists_staticConstructor_iff_of_build h ht]
  have hfresh : store.typeRecord names [] id = .ok r := typeRecord_of_ok h
  constructor
  · rintro ⟨hrejected, -⟩
    have hfirst := hrejected []
    cases hctor : r.staticConstructor with
    | some m => exact ⟨m, rfl⟩
    | none =>
      have hattached : store.attachedConstructor names [] id =
          .ok (.implicitStaticConstructor r.id r.fullName r.ignored) := by
        rw [Store.attachedConstructor, hfresh, except_ok_bind, hctor]
        rfl
      rw [answer_after, Request.expected, List.flatMap_nil, hattached] at hfirst
      cases hfirst
  · rintro ⟨m, hm⟩
    have hkept : ∀ filled, store.typeRecord names filled id = .ok r := fun filled =>
      typeRecord_of_filled hfresh hm (List.nil_subset filled)
    constructor
    case rejected =>
      intro before
      rw [answer_after, Request.expected, attachedConstructor_of_some (hkept _) hm,
        TypeRecord.fullName_of_build h ht]
      rfl
    case declared =>
      intro before r' m' hr' hm'
      rw [answer_type_eq_ok, hkept] at hr'
      obtain rfl : r = r' := Except.ok.inj hr'
      exact TypeRecord.isSynthesized_staticConstructor h hm'

/-- Two types that list a static constructor, of which the second one must not be emitted. -/
def initializerStore : Store where
  modules := #[{ name := "app.dll" }]
  types := #[
    { module := ⟨0⟩, scope := "", name := "Main", fullName := "Main", kind := .classType
      methods := [⟨0⟩] },
    { module := ⟨0⟩, scope := "", name := "Other", fullName := "Other", kind := .classType
      methods := [⟨1⟩] }]
  methods := #[
    { owner := ⟨0⟩, name := ".cctor", modifiers := { isStatic := true } },
    { owner := ⟨1⟩, name := ".cctor", modifiers := { isStatic := true }
      annotations := [{ kind := "Xlate.Meta.IgnoreAttribute" }] }]

theorem declared_initializer_keeps_its_place :
    ∃ r t, TypeRecord.build initializerStore {} ⟨0⟩ = .ok r ∧
      initializerStore.type? ⟨0⟩ = some t ∧
      r.JoinedOnce initializerStore {} t ⟨".cctor", true⟩ ∧
      KeepsOwnStaticConstructor initializerStore {} ⟨0⟩ t.fullName := by
  obtain ⟨t, ht, hmethods⟩ : ∃ t, initializerStore.type? ⟨0⟩ = some t ∧ t.methods = [⟨0⟩] :=
    ⟨_, rfl, rfl⟩
  obtain ⟨r, x, hbuild, hx, hdecl, hignored⟩ :
      ∃ r x, TypeRecord.build initializerStore {} ⟨0⟩ = .ok r ∧ x ∈ r.members.values ∧
        x.decl = .member (.method ⟨0⟩) ∧ x.ignored = false :=
    ⟨_, _, rfl, .head _, rfl, rfl⟩
  have hvisible : ¬x.Concealed initializerStore {} r := by
    intro hconcealed
    have := (TypeRecord.member_ignored_iff_of_build hbuild hx).2 (.inr hconcealed)
    rw [hignored] at this
    cases this
  have hjoined : r.JoinedOnce initializerStore {} t ⟨".cctor", true⟩ :=
    ⟨[], ⟨0⟩, [], hmethods, ⟨rfl, x, hx, hdecl, hvisible⟩, nofun⟩
  exact ⟨r, t, hbuild, ht, hjoined, (keepsOwnStaticConstructor_iff hbuild ht).2 ⟨true, hjoined⟩⟩

/-- The declaration of the other type is concealed, and one can be attached. -/
theorem concealed_initializer_leaves_its_place :
    ∃ r t m, TypeRecord.build initializerStore {} ⟨1⟩ = .ok r ∧
      initializerStore.type? ⟨1⟩ = some t ∧ ⟨1⟩ ∈ t.methods ∧
      initializerStore.overloadKey? ⟨1⟩ = some ⟨".cctor", true⟩ ∧
      (after initializerStore {} []).answer (.fillStaticConstructor ⟨1⟩) = .ok (.member m) ∧
      m.isSynthesized = true :=
  ⟨_, _, _, rfl, rfl, .head _, rfl, rfl, rfl⟩

end Catalog

end TypeModel
