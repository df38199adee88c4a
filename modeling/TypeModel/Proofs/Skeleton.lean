import TypeModel.Proofs.WellFormed
import TypeModel.TypeRecord.Build

/-!
# The skeleton of a store

Most of what handles lead to depends neither on annotations nor on which members types list:
identifiers and names of members, what backs a member, the slots that a given declaration makes for
a roster, its literals. Nor does it depend on the index of the types by name. Each function that
computes one of these gives the same result over the store from which annotations, lists and index
are erased, and so over any two stores that have the same skeleton (`Store.eq_of_skeleton`).
-/

namespace TypeModel

/-! ## Declarations without annotations and lists -/

def ModuleDecl.eraseAnnotations (d : ModuleDecl) : ModuleDecl :=
  { d with annotations := [] }

def TypeDecl.eraseAnnotations (d : TypeDecl) : TypeDecl :=
  { d with annotations := [] }

def FieldDecl.eraseAnnotations (d : FieldDecl) : FieldDecl :=
  { d with annotations := [] }

def PropertyDecl.eraseAnnotations (d : PropertyDecl) : PropertyDecl :=
  { d with annotations := [] }

def EventDecl.eraseAnnotations (d : EventDecl) : EventDecl :=
  { d with annotations := [] }

def MethodDecl.eraseAnnotations (d : MethodDecl) : MethodDecl :=
  { d with annotations := [] }

def MemberDecl.eraseAnnotations : MemberDecl → MemberDecl
  | .field d => .field d.eraseAnnotations
  | .property d => .property d.eraseAnnotations
  | .event d => .event d.eraseAnnotations
  | .method d => .method d.eraseAnnotations

def Decl.eraseAnnotations : Decl → Decl
  | .module d => .module d.eraseAnnotations
  | .type d => .type d.eraseAnnotations
  | .member d => .member d.eraseAnnotations

/-- A type declaration without its annotations and member lists. -/
def TypeDecl.bare (t : TypeDecl) : TypeDecl :=
  { t with fields := [], properties := [], events := [], methods := [], annotations := [] }

/-- The declaration without its annotations and, if it is that of a type, its member lists. -/
def Decl.skeleton : Decl → Decl
  | .module d => .module d.eraseAnnotations
  | .type d => .type d.bare
  | .member d => .member d.eraseAnnotations

theorem Decl.skeleton_eraseAnnotations (d : Decl) : d.eraseAnnotations.skeleton = d.skeleton := by
  rcases d with _ | _ | (_ | _ | _ | _) <;> rfl

/-- Declarations with the same erasure differ in their annotations only. -/
theorem ModuleDecl.eq_of_erased {d d' : ModuleDecl}
    (h : d'.eraseAnnotations = d.eraseAnnotations) :
    d' = { d with annotations := d'.annotations } := by
  cases d
  cases d'
  cases h
  rfl

/-- Types that agree but for annotations differ in their annotations only. -/
theorem TypeDecl.eq_of_erased {t t' : TypeDecl} (h : t'.eraseAnnotations = t.eraseAnnotations) :
    t' = { t with annotations := t'.annotations } := by
  cases t
  cases t'
  cases h
  rfl

@[simp] theorem Decl.eraseAnnotations_annotate (a : Annotation) (d : Decl) :
    (d.annotate a).eraseAnnotations = d.eraseAnnotations := by
  rcases d with _ | _ | (_ | _ | _ | _) <;> rfl

theorem Decl.annotations_annotate (a : Annotation) (d : Decl) :
    (d.annotate a).annotations = d.annotations ++ [a] := by
  rcases d with _ | _ | (_ | _ | _ | _) <;> rfl

namespace MemberDecl

variable (d : MemberDecl)

@[simp] theorem owner_eraseAnnotations : d.eraseAnnotations.owner = d.owner := by cases d <;> rfl

@[simp] theorem name_eraseAnnotations : d.eraseAnnotations.name = d.name := by cases d <;> rfl

@[simp] theorem type_eraseAnnotations : d.eraseAnnotations.type = d.type := by cases d <;> rfl

@[simp] theorem accessors_eraseAnnotations : d.eraseAnnotations.accessors = d.accessors := by
  cases d <;> rfl

@[simp] theorem mentionsPointer_eraseAnnotations :
    d.eraseAnnotations.mentionsPointer = d.mentionsPointer := by
  cases d <;> rfl

end MemberDecl

theorem MemberDetails.ofDecl_eraseAnnotations (accessorOf : Option MemberId) (m : MemberId)
    (d : MemberDecl) : ofDecl accessorOf m d.eraseAnnotations = ofDecl accessorOf m d := by
  cases m <;> cases d <;> rfl

namespace Store

/-! ## Reading the store -/

/-- The store without annotations, member lists and the index of the types by name. -/
def skeleton (s : Store) : Store where
  modules := s.modules.map ModuleDecl.eraseAnnotations
  types := s.types.map TypeDecl.bare
  fields := s.fields.map FieldDecl.eraseAnnotations
  properties := s.properties.map PropertyDecl.eraseAnnotations
  events := s.events.map EventDecl.eraseAnnotations
  methods := s.methods.map MethodDecl.eraseAnnotations

variable (s : Store)

@[simp] theorem type?_skeleton (id : TypeId) :
    s.skeleton.type? id = (s.type? id).map TypeDecl.bare :=
  Array.getElem?_map

@[simp] theorem field?_skeleton (id : FieldId) :
    s.skeleton.field? id = (s.field? id).map FieldDecl.eraseAnnotations :=
  Array.getElem?_map

@[simp] theorem method?_skeleton (id : MethodId) :
    s.skeleton.method? id = (s.method? id).map MethodDecl.eraseAnnotations :=
  Array.getElem?_map

@[simp] theorem member?_skeleton (m : MemberId) :
    s.skeleton.member? m = (s.member? m).map MemberDecl.eraseAnnotations := by
  cases m with
  | field id => simp [member?, Function.comp_def, MemberDecl.eraseAnnotations]
  | method id => simp [member?, Function.comp_def, MemberDecl.eraseAnnotations]
  | property id =>
    simp [member?, property?, skeleton, Function.comp_def, MemberDecl.eraseAnnotations]
  | event id =>
    simp [member?, event?, skeleton, Function.comp_def, MemberDecl.eraseAnnotations]

/-- Every handle of a store is one of its skeleton, and the other way around. -/
theorem decl?_skeleton (id : DeclId) :
    s.skeleton.decl? id = (s.decl? id).map Decl.skeleton := by
  cases id with
  | module id => simp [decl?, module?, skeleton, Function.comp_def, Decl.skeleton]
  | type id => simp [decl?, Function.comp_def, Decl.skeleton]
  | member m => simp [decl?, Function.comp_def, Decl.skeleton]

@[simp] theorem typeIds_skeleton : s.skeleton.typeIds = s.typeIds := by
  simp [typeIds, skeleton]

/-! ## What depends on the skeleton only -/

@[simp] theorem params?_skeleton (m : MethodId) : s.skeleton.params? m = s.params? m := by
  simp [params?, Function.comp_def, MethodDecl.eraseAnnotations]

@[simp] theorem memberParams?_skeleton (d : MemberDecl) :
    s.skeleton.memberParams? d.eraseAnnotations = s.memberParams? d := by
  cases d <;> simp [memberParams?, MemberDecl.eraseAnnotations, MethodDecl.eraseAnnotations,
    PropertyDecl.eraseAnnotations]

/-- Identifiers do not depend on annotations. -/
@[simp] theorem identifier?_skeleton : s.skeleton.identifier? = s.identifier? := by
  funext m
  unfold identifier?
  rw [member?_skeleton]
  cases s.member? m with
  | none => rfl
  | some d => simp

@[simp] theorem qualifiedMemberName?_skeleton :
    s.skeleton.qualifiedMemberName? = s.qualifiedMemberName? := by
  funext m
  simp [qualifiedMemberName?, Option.bind_map, Function.comp_def, TypeDecl.bare]

theorem declaredMemberName?_skeleton :
    s.skeleton.declaredMemberName? = s.declaredMemberName? := by
  have hinterface : s.skeleton.interfaceQualified? = s.interfaceQualified? := by
    funext owner name
    unfold interfaceQualified?
    rw [type?_skeleton]
    cases s.type? owner <;> rfl
  funext m
  unfold declaredMemberName?
  rw [hinterface, qualifiedMemberName?_skeleton, member?_skeleton]
  cases s.member? m with
  | none => rfl
  | some d => cases d <;> rfl

/-- What backs a member can be read off the skeleton. -/
theorem resolve?_skeleton : s.skeleton.resolve? = s.resolve? := by
  have habstract : s.skeleton.isAbstract? = s.isAbstract? := by
    funext accessor
    cases accessor with
    | none => rfl
    | some a =>
      rw [isAbstract?, isAbstract?, method?_skeleton]
      cases s.method? a <;> rfl
  have heither : s.skeleton.eitherAbstract? = s.eitherAbstract? := by
    funext first second
    rw [eitherAbstract?, eitherAbstract?, habstract]
  have hsupplies : s.skeleton.suppliesImplementation? = s.suppliesImplementation? := by
    funext m
    unfold suppliesImplementation?
    rw [heither, member?_skeleton]
    cases s.member? m with
    | none => rfl
    | some d => cases d <;> rfl
  have hsubstitute : s.skeleton.substitute? = s.substitute? := by
    funext key backing p
    unfold substitute?
    rw [hsupplies]
  funext proxies m
  unfold resolve?
  rw [hsubstitute, identifier?_skeleton]

theorem keyed?_skeleton : Proxy.keyed? s.skeleton = Proxy.keyed? s := by
  funext members
  unfold Proxy.keyed?
  rw [identifier?_skeleton]

/-- The roster of a type can be read off the skeleton. -/
theorem roster_skeleton : Roster.build? s.skeleton = Roster.build? s := by
  have hoffer : Roster.offer? s.skeleton = Roster.offer? s := by
    funext r slot
    unfold Roster.offer?
    rw [identifier?_skeleton]
  have hadd : Roster.add? s.skeleton = Roster.add? s := by
    funext origin r m
    unfold Roster.add?
    rw [hoffer, identifier?_skeleton, member?_skeleton]
    cases s.member? m with
    | none => rfl
    | some d => simp
  have hcontribute : Roster.contribute? s.skeleton = Roster.contribute? s := by
    funext r p
    unfold Roster.contribute? Roster.contributeMember?
    rw [hadd]
  funext t proxies
  unfold Roster.build? Roster.ofType?
  rw [hadd, hoffer, hcontribute]

/-! ### Literals -/

/-- A literal before it has a value, without its annotations. -/
def eraseLiteral (f : FieldId × FieldDecl) : FieldId × FieldDecl :=
  (f.1, f.2.eraseAnnotations)

/-- The fields that an enum lists are found in the skeleton, without their annotations. -/
theorem listedFields?_skeleton (t : TypeDecl) :
    EnumLiteral.listedFields? s.skeleton t =
      (EnumLiteral.listedFields? s t).map (List.map eraseLiteral) := by
  have hmain : ∀ ids : List FieldId,
      (ids.mapM fun id => do return (id, ← s.skeleton.field? id)) =
        (ids.mapM fun id => do return (id, ← s.field? id)).map (List.map eraseLiteral) := by
    intro ids
    induction ids with
    | nil => rfl
    | cons id rest ih =>
      rw [List.mapM_cons, List.mapM_cons, ih, field?_skeleton]
      cases s.field? id with
      | none => rfl
      | some d => cases rest.mapM fun id => do return (id, ← s.field? id) <;> rfl
  exact hmain t.fields

/-- Values of literals do not depend on annotations. -/
theorem number_map_eraseLiteral (previous : Option Int64) (fields : List (FieldId × FieldDecl)) :
    EnumLiteral.number previous (fields.map eraseLiteral) =
      (EnumLiteral.number previous fields).map fun x => (eraseLiteral x.1, x.2) := by
  induction fields generalizing previous with
  | nil => rfl
  | cons f rest ih => exact congrArg (List.cons _) (ih _)

/-- The literals of an enum can be read off the skeleton. -/
theorem literals_skeleton : EnumLiteral.ofType? s.skeleton = EnumLiteral.ofType? s := by
  funext id t
  unfold EnumLiteral.ofType?
  rw [listedFields?_skeleton, qualifiedMemberName?_skeleton]
  cases EnumLiteral.listedFields? s t with
  | none => rfl
  | some fields =>
    have hliterals : EnumLiteral.literals (fields.map eraseLiteral) =
        (EnumLiteral.literals fields).map eraseLiteral := List.filter_map
    simp only [Option.map_some, Option.bind_eq_bind, Option.bind_some]
    rw [hliterals, number_map_eraseLiteral, List.mapM_map]
    rfl

/-! ## Stores with the same skeleton -/

variable {s} {s' : Store}

/-- A function that depends on the skeleton only cannot tell apart stores that have the same. -/
theorem eq_of_skeleton {α : Type} {f : Store → α} (hf : ∀ s : Store, f s.skeleton = f s)
    (h : s'.skeleton = s.skeleton) : f s' = f s :=
  (hf s').symm.trans ((congrArg f h).trans (hf s))

/-- A store is determined by the declarations that its handles lead to and by its index. -/
theorem eq_of_decl?_eq (h : ∀ id, s'.decl? id = s.decl? id)
    (hnames : s'.typesByName = s.typesByName) : s' = s := by
  have hinj : ∀ {α β : Type} {f : α → β} {xs ys : Array α}, Function.Injective f →
      (∀ i : Nat, ys[i]?.map f = xs[i]?.map f) → ys = xs := by
    intro α β f xs ys hf heq
    exact Array.ext_getElem? fun i => Option.map_injective hf (heq i)
  have hmember : ∀ m, s'.member? m = s.member? m := fun m =>
    Option.map_injective (fun _ _ => Decl.member.inj) (h (.member m))
  have hmodules := hinj (fun _ _ => Decl.module.inj) fun i => h (.module ⟨i⟩)
  have htypes := hinj (fun _ _ => Decl.type.inj) fun i => h (.type ⟨i⟩)
  have hfields := hinj (fun _ _ => MemberDecl.field.inj) fun i => hmember (.field ⟨i⟩)
  have hproperties := hinj (fun _ _ => MemberDecl.property.inj) fun i => hmember (.property ⟨i⟩)
  have hevents := hinj (fun _ _ => MemberDecl.event.inj) fun i => hmember (.event ⟨i⟩)
  have hmethods := hinj (fun _ _ => MemberDecl.method.inj) fun i => hmember (.method ⟨i⟩)
  cases s
  cases s'
  simp only at hmodules htypes hfields hproperties hevents hmethods hnames
  rw [hmodules, htypes, hfields, hproperties, hevents, hmethods, hnames]

/-- Stores whose declarations have the same skeletons have the same skeleton. -/
theorem skeleton_of_decl? (h : ∀ id, (s'.decl? id).map Decl.skeleton =
    (s.decl? id).map Decl.skeleton) : s'.skeleton = s.skeleton := by
  refine eq_of_decl?_eq (fun id => ?_) rfl
  rw [decl?_skeleton, decl?_skeleton]
  exact h id

end Store

end TypeModel
