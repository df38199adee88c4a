import TypeModel.Identifier
import TypeModel.Proofs.Traversal

/-!
# Agreeing is having a common instance

Holes stand for anything, each for itself: an *instance* of a signature has some signature in the
place of each outermost hole and keeps everything else. Two signatures agree exactly if one
signature is an instance of both (`Signature.agrees_iff_commonInstance`). This is why agreement is
not transitive: signatures without holes agree only if they are equal, yet each of them is an
instance of a generic parameter. `Identifier.agreement_is_common_instance` carries this over to
identifiers.
-/

namespace TypeModel

/-- Elements have common partners position by position exactly if the lists have a common list of
partners. -/
theorem forall₂_common_iff {α β γ : Type} {R : α → γ → Prop} {S : β → γ → Prop} {xs : List α}
    {ys : List β} : List.Forall₂ (fun x y => ∃ z, R x z ∧ S y z) xs ys ↔
      ∃ zs, List.Forall₂ R xs zs ∧ List.Forall₂ S ys zs := by
  constructor
  · intro h
    induction h with
    | nil => exact ⟨[], .nil, .nil⟩
    | cons hhead _ ih =>
      obtain ⟨z, hx, hy⟩ := hhead
      obtain ⟨zs, hxs, hys⟩ := ih
      exact ⟨z :: zs, .cons hx hxs, .cons hy hys⟩
  · rintro ⟨zs, hxs, hys⟩
    induction hxs generalizing ys with
    | nil =>
      cases hys
      exact .nil
    | cons hx _ ih =>
      cases hys with
      | cons hy hys => exact .cons ⟨_, hx, hy⟩ (ih hys)

namespace Signature

/-! ## Instances -/

/-- The second signature arises from the first by putting some signature in the place of each
outermost hole, of different holes independently, and keeping everything else. -/
inductive Instance : Signature → Signature → Prop where
  | hole {s : Signature} (hole : s.isHole = true) (i : Signature) : Instance s i
  | named {fullName : String} {args is : List Signature} (each : List.Forall₂ Instance args is) :
      Instance (.named fullName args) (.named fullName is)
  | byRef {s i : Signature} (solid : s.byRef.isHole = false) (target : Instance s i) :
      Instance (.byRef s) (.byRef i)
  | pointer {s i : Signature} (target : Instance s i) : Instance (.pointer s) (.pointer i)
  | array {s i : Signature} (element : Instance s i) : Instance (.array s) (.array i)

/-- Some signature is an instance of both. -/
def CommonInstance (a b : Signature) : Prop :=
  ∃ i, Instance a i ∧ Instance b i

/-- No hole occurs in the signature. -/
def HoleFree (s : Signature) : Prop :=
  ∀ inner, Occurs inner s → inner.isHole = false

/-- Every signature is an instance of itself: each hole takes its own place. -/
theorem instance_refl (s : Signature) : Instance s s := by
  induction s with
  | named fullName args ih => exact .named (List.forall₂_same.2 ih)
  | param owner position name => exact .hole rfl _
  | byRef s ih =>
    cases hsolid : s.byRef.isHole with
    | true => exact .hole hsolid _
    | false => exact .byRef hsolid ih
  | pointer s ih => exact .pointer ih
  | array s ih => exact .array ih

/-- Where no hole occurs, nothing can take its place. -/
theorem HoleFree.eq_of_instance {s i : Signature} (hfree : s.HoleFree) (h : Instance s i) :
    s = i := by
  induction s generalizing i with
  | named fullName args ih =>
    cases h with
    | hole hole => exact absurd hole Bool.false_ne_true
    | named hargs =>
      have heq : List.Forall₂ Eq args _ := forall₂_imp_of_mem hargs fun a ha i hi =>
        ih a ha (fun inner hinner => hfree inner (.arg ha hinner)) hi
      rw [List.forall₂_eq_eq_eq] at heq
      rw [heq]
  | param owner position name => exact absurd (hfree _ .here).symm Bool.false_ne_true
  | byRef s ih =>
    cases h with
    | hole hole => exact absurd ((hfree _ .here).symm.trans hole) Bool.false_ne_true
    | byRef _ htarget => rw [ih (fun inner hinner => hfree inner (.byRef hinner)) htarget]
  | pointer s ih =>
    cases h with
    | hole hole => exact absurd hole Bool.false_ne_true
    | pointer htarget => rw [ih (fun inner hinner => hfree inner (.pointer hinner)) htarget]
  | array s ih =>
    cases h with
    | hole hole => exact absurd hole Bool.false_ne_true
    | array helement => rw [ih (fun inner hinner => hfree inner (.array hinner)) helement]

theorem commonInstance_of_isHole_left {a : Signature} (h : a.isHole = true) (b : Signature) :
    CommonInstance a b :=
  ⟨b, .hole h b, instance_refl b⟩

theorem commonInstance_of_isHole_right (a : Signature) {b : Signature} (h : b.isHole = true) :
    CommonInstance a b :=
  ⟨a, instance_refl a, .hole h a⟩

/-! ## Agreement -/

theorem agreesAll_iff {xs ys : List Signature} :
    agreesAll xs ys = true ↔ List.Forall₂ (fun x y => x.agrees y = true) xs ys := by
  induction xs generalizing ys with
  | nil => cases ys <;> simp [agreesAll]
  | cons x xs ih => cases ys <;> simp [agreesAll, ih]

theorem agrees_of_isHole_right (a : Signature) {b : Signature} (h : b.isHole = true) :
    a.agrees b = true := by
  rw [agrees_comm]
  exact agrees_of_isHole h a

/-- Signatures that agree have a common instance. -/
theorem commonInstance_of_agrees {a b : Signature} (h : a.agrees b = true) :
    CommonInstance a b := by
  induction a generalizing b with
  | param owner position name => exact commonInstance_of_isHole_left rfl b
  | named fullName args ih =>
    rcases Bool.or_eq_true_iff.1 h with hole | h
    · exact commonInstance_of_isHole_right _ hole
    · cases b with
      | named fullName' args' =>
        obtain ⟨hname, hargs⟩ := Bool.and_eq_true_iff.1 h
        have hcommon : List.Forall₂ CommonInstance args args' :=
          forall₂_imp_of_mem (agreesAll_iff.1 hargs) fun a ha _ hagrees => ih a ha hagrees
        obtain ⟨is, hargs, hargs'⟩ := forall₂_common_iff.1 hcommon
        rw [beq_iff_eq] at hname
        subst hname
        exact ⟨.named fullName is, .named hargs, .named hargs'⟩
      | param | byRef | pointer | array => exact absurd h Bool.false_ne_true
  | byRef s ih =>
    cases hsolid : s.byRef.isHole with
    | true => exact commonInstance_of_isHole_left hsolid b
    | false =>
      cases hsolid' : b.isHole with
      | true => exact commonInstance_of_isHole_right _ hsolid'
      | false =>
        cases b with
        | byRef t =>
          have hagrees : s.agrees t = true := by
            rw [isHole, dereferenced] at hsolid hsolid'
            simpa [agrees, isHole, dereferenced, hsolid, hsolid'] using h
          obtain ⟨i, hs, ht⟩ := ih hagrees
          exact ⟨.byRef i, .byRef hsolid hs, .byRef hsolid' ht⟩
        | named | param | pointer | array =>
          rw [isHole, dereferenced] at hsolid
          simp [agrees, hsolid, hsolid'] at h
  | pointer s ih =>
    rcases Bool.or_eq_true_iff.1 h with hole | h
    · exact commonInstance_of_isHole_right _ hole
    · cases b with
      | pointer t =>
        obtain ⟨i, hs, ht⟩ := ih h
        exact ⟨.pointer i, .pointer hs, .pointer ht⟩
      | named | param | byRef | array => exact absurd h Bool.false_ne_true
  | array s ih =>
    rcases Bool.or_eq_true_iff.1 h with hole | h
    · exact commonInstance_of_isHole_right _ hole
    · cases b with
      | array t =>
        obtain ⟨i, hs, ht⟩ := ih h
        exact ⟨.array i, .array hs, .array ht⟩
      | named | param | byRef | pointer => exact absurd h Bool.false_ne_true

/-- Signatures with a common instance agree: below a hole of one of them nothing is asked of the
other, and elsewhere both are built as the instance is. -/
theorem agrees_of_commonInstance {a b : Signature} (h : CommonInstance a b) :
    a.agrees b = true := by
  induction a generalizing b with
  | param owner position name => rfl
  | named fullName args ih =>
    obtain ⟨i, hole | hargs, hb⟩ := h
    · exact agrees_of_isHole hole b
    · cases hb with
      | hole hole => exact agrees_of_isHole_right _ hole
      | named hargs' =>
        have hagrees := forall₂_imp_of_mem (forall₂_common_iff.2 ⟨_, hargs, hargs'⟩)
          fun a ha _ hcommon => ih a ha hcommon
        simp [agrees, agreesAll_iff.2 hagrees]
  | byRef s ih =>
    obtain ⟨i, hole | _ | ⟨_, hs⟩, hb⟩ := h
    · exact agrees_of_isHole hole b
    · cases hb with
      | hole hole => exact agrees_of_isHole_right _ hole
      | byRef _ ht => simp [agrees, ih ⟨_, hs, ht⟩]
  | pointer s ih =>
    obtain ⟨i, hole | _ | _ | hs, hb⟩ := h
    · exact agrees_of_isHole hole b
    · cases hb with
      | hole hole => exact agrees_of_isHole_right _ hole
      | pointer ht => simp [agrees, ih ⟨_, hs, ht⟩]
  | array s ih =>
    obtain ⟨i, hole | _ | _ | _ | hs, hb⟩ := h
    · exact agrees_of_isHole hole b
    · cases hb with
      | hole hole => exact agrees_of_isHole_right _ hole
      | array ht => simp [agrees, ih ⟨_, hs, ht⟩]

/-- Two signatures agree exactly if they have a common instance. -/
theorem agrees_iff_commonInstance {a b : Signature} : a.agrees b = true ↔ CommonInstance a b :=
  ⟨commonInstance_of_agrees, agrees_of_commonInstance⟩

/-- Without holes, agreement is equality. -/
theorem HoleFree.agrees_iff {a b : Signature} (ha : a.HoleFree) (hb : b.HoleFree) :
    a.agrees b = true ↔ a = b := by
  constructor
  · intro h
    obtain ⟨i, hai, hbi⟩ := commonInstance_of_agrees h
    rw [ha.eq_of_instance hai, hb.eq_of_instance hbi]
  · rintro rfl
    exact agrees_refl a

end Signature

/-! ## Identifiers -/

namespace Identifier

open Signature (CommonInstance HoleFree)

theorem paramsAgree_iff {p q : Option (List Signature)} :
    paramsAgree p q = true ↔ Option.Rel (List.Forall₂ CommonInstance) p q := by
  have hall : ∀ xs ys : List Signature,
      Signature.agreesAll xs ys = true ↔ List.Forall₂ CommonInstance xs ys := fun xs ys => by
    simp only [Signature.agreesAll_iff, Signature.agrees_iff_commonInstance]
  rcases p with _ | xs <;> rcases q with _ | ys
  · exact ⟨fun _ => .none, fun _ => rfl⟩
  · exact ⟨nofun, nofun⟩
  · exact ⟨nofun, nofun⟩
  · refine (hall xs ys).trans ⟨.some, ?_⟩
    rintro (h | _)
    exact h

/-- Two identifiers agree if they have kind and name in common, and types and parameters have common
instances. -/
theorem agrees_iff {a b : Identifier} :
    a.agrees b = true ↔ a.kind = b.kind ∧ a.name = b.name ∧ CommonInstance a.type b.type ∧
      Option.Rel (List.Forall₂ CommonInstance) a.params b.params := by
  simp only [agrees, Bool.and_eq_true, decide_eq_true_eq, Signature.agrees_iff_commonInstance,
    paramsAgree_iff, and_assoc]

/-- Two signatures agree exactly if they have a common instance; agreement is reflexive and
symmetric, and without holes it is equality. Two identifiers agree exactly if they have the same
kind, name and number of parameters, if any, and a common instance at each position; this is
reflexive and symmetric, follows from being identical, and implies the same shape, which is all that
a hash of an identifier reads. -/
theorem agreement_is_common_instance (s t : Signature) (a b : Identifier) :
    ((s.agrees t = true ↔ CommonInstance s t) ∧
      s.agrees s = true ∧ s.agrees t = t.agrees s ∧
      (HoleFree s → HoleFree t → (s.agrees t = true ↔ s = t))) ∧
    ((a.agrees b = true ↔ a.kind = b.kind ∧ a.name = b.name ∧ CommonInstance a.type b.type ∧
        Option.Rel (List.Forall₂ CommonInstance) a.params b.params) ∧
      a.agrees a = true ∧ a.agrees b = b.agrees a ∧
      (a = b → a.agrees b = true) ∧ (a.agrees b = true → a.shape = b.shape)) := by
  refine ⟨⟨Signature.agrees_iff_commonInstance, s.agrees_refl, s.agrees_comm t,
    HoleFree.agrees_iff⟩, agrees_iff, a.agrees_refl, a.agrees_comm b, ?_, shape_eq_of_agrees⟩
  rintro rfl
  exact a.agrees_refl

theorem holeFree_pointer_plain (fullName : String) :
    HoleFree (.pointer (.plain fullName)) := by
  intro inner h
  cases h with
  | here => rfl
  | pointer h =>
    cases h with
    | here => rfl
    | arg mem => exact absurd mem List.not_mem_nil

/-- Two pointers without holes agree only if they are the same, while a method that takes a
reference to its own parameter agrees with one that takes no reference at all. -/
theorem agreement_of_generic_swap :
    let ints : Signature := .pointer (.plain "System.Int32")
    let chars : Signature := .pointer (.plain "System.Char")
    let generic : Identifier := ⟨.method, "Swap", .void, some [.byRef (.param .method 0 "T")]⟩
    let concrete : Identifier := ⟨.method, "Swap", .void, some [.plain "System.Int32"]⟩
    (ints.agrees chars = true ↔ ints = chars) ∧
      Option.Rel (List.Forall₂ CommonInstance) generic.params concrete.params ∧
      generic.shape = concrete.shape ∧ generic.agrees generic = true := by
  intro ints chars generic concrete
  have h := agreement_is_common_instance ints chars generic concrete
  have hself := agreement_is_common_instance ints chars generic generic
  have hagrees : generic.agrees concrete = true := by decide
  exact ⟨h.1.2.2.2 (holeFree_pointer_plain _) (holeFree_pointer_plain _),
    (h.2.1.1 hagrees).2.2.2, h.2.2.2.2.2 hagrees, hself.2.2.2.2.1 rfl⟩

end Identifier

end TypeModel
