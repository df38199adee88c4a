import TypeModel.Store.Registration

/-!
# Well-formed stores

A store is well-formed if every handle that one of its declarations stores leads to a declaration
(`Store.WellFormed`). Registration adds declarations and never takes one away, so that a handle
keeps leading where it led; what is registered with handles that lead somewhere keeps a store
well-formed (`Store.WellFormed.exists_registerAll?`).
-/

namespace TypeModel

/-! ## The handles that a declaration stores -/

def TypeDecl.handles (t : TypeDecl) : List DeclId :=
  .module t.module :: (t.outer.toList.map DeclId.type ++ t.offeredMembers.map DeclId.member)

/-- The methods that a method implements by explicit mention. -/
def MemberDecl.overrides : MemberDecl → List MethodId
  | .method d => d.overrides
  | _ => []

def MemberDecl.handles (d : MemberDecl) : List DeclId :=
  .type d.owner :: (d.accessors ++ d.overrides).map fun a => .member (.method a)

def Decl.handles : Decl → List DeclId
  | .module _ => []
  | .type t => t.handles
  | .member d => d.handles

/-- The declaration with one more annotation. -/
def Decl.annotate (a : Annotation) : Decl → Decl
  | .module d => .module { d with annotations := d.annotations ++ [a] }
  | .type d => .type { d with annotations := d.annotations ++ [a] }
  | .member (.field d) => .member (.field { d with annotations := d.annotations ++ [a] })
  | .member (.property d) => .member (.property { d with annotations := d.annotations ++ [a] })
  | .member (.event d) => .member (.event { d with annotations := d.annotations ++ [a] })
  | .member (.method d) => .member (.method { d with annotations := d.annotations ++ [a] })

@[simp] theorem Decl.handles_annotate (a : Annotation) (d : Decl) :
    (d.annotate a).handles = d.handles := by
  rcases d with _ | _ | (_ | _ | _ | _) <;> rfl

def Registration.handles : Registration → List DeclId
  | .module _ => []
  | .type owner .. => [.module owner]
  | .nestedType outer .. => [.type outer]
  | .member d => d.handles
  | .annotate target _ => [target]

/-- A member joins the list for its kind. -/
theorem TypeDecl.offeredMembers_listMember (t : TypeDecl) (m : MemberId) :
    (t.listMember m).offeredMembers.Perm (m :: t.offeredMembers) := by
  have hinsert : ∀ (before after : List MemberId) {xs ys : List MemberId},
      xs = before ++ m :: after → ys = before ++ after → xs.Perm (m :: ys) := by
    rintro before after xs ys rfl rfl
    exact List.perm_middle
  let properties := t.properties.map MemberId.property
  let events := t.events.map MemberId.event
  let fields := t.fields.map MemberId.field
  let methods := t.methods.map MemberId.method
  unfold offeredMembers
  cases m with
  | property id =>
    refine hinsert properties (events ++ fields ++ methods) ?_ ?_ <;>
      simp [listMember, properties, events, fields, methods]
  | event id =>
    refine hinsert (properties ++ events) (fields ++ methods) ?_ ?_ <;>
      simp [listMember, properties, events, fields, methods]
  | field id =>
    refine hinsert (properties ++ events ++ fields) methods ?_ ?_ <;>
      simp [listMember, properties, events, fields, methods]
  | method id =>
    refine hinsert (properties ++ events ++ fields ++ methods) [] ?_ ?_ <;>
      simp [listMember, properties, events, fields, methods]

namespace Store

variable {s s' : Store}

/-! ## Reading after a registration -/

section Writes

theorem decl?_addModule (s : Store) (name : String) (id : DeclId) :
    (s.addModule name).1.decl? id =
      if id = .module (s.addModule name).2 then some (.module { name }) else s.decl? id := by
  rcases id with ⟨⟨i⟩⟩ | _ | (_ | _ | _ | _)
  case module =>
    simp only [decl?, module?, addModule, Array.getElem?_push, DeclId.module.injEq,
      Handle.mk.injEq]
    split <;> rfl
  all_goals rfl

/-- A type that is pushed is the only new declaration. -/
theorem decl?_pushType (s : Store) (t : TypeDecl) (id : DeclId) :
    (s.pushType t).1.decl? id =
      if id = .type (s.pushType t).2 then some (.type t) else s.decl? id := by
  rcases id with _ | ⟨⟨i⟩⟩ | (_ | _ | _ | _)
  case type =>
    simp only [decl?, type?, pushType, Array.getElem?_push, DeclId.type.injEq, Handle.mk.injEq]
    split <;> rfl
  all_goals rfl

/-- A change of a type touches no other declaration. -/
theorem decl?_updateType (s : Store) (id : TypeId) (change : TypeDecl → TypeDecl) (id' : DeclId) :
    (s.updateType id change).decl? id' =
      if id' = .type id then (s.type? id).map fun t => .type (change t) else s.decl? id' := by
  rcases id' with _ | ⟨⟨i⟩⟩ | (_ | _ | _ | _)
  case type =>
    obtain ⟨j⟩ := id
    simp only [decl?, type?, updateType, Array.getElem?_modify, DeclId.type.injEq,
      Handle.mk.injEq, eq_comm (a := i)]
    split
    · next heq => rw [heq, Option.map_map]; rfl
    · rfl
  all_goals rfl

theorem decl?_pushMember (s : Store) (d : MemberDecl) (id : DeclId) :
    (s.pushMember d).decl? id =
      if id = .member (s.nextMember d) then some (.member d) else s.decl? id := by
  cases d <;> rcases id with _ | _ | (⟨⟨i⟩⟩ | ⟨⟨i⟩⟩ | ⟨⟨i⟩⟩ | ⟨⟨i⟩⟩)
  case field.member.field | property.member.property | event.member.event | method.member.method =>
    simp only [decl?, member?, field?, property?, event?, method?, pushMember, nextMember,
      Array.getElem?_push, DeclId.member.injEq, MemberId.field.injEq, MemberId.property.injEq,
      MemberId.event.injEq, MemberId.method.injEq, Handle.mk.injEq]
    split <;> rfl
  all_goals rfl

/-- Attaching an annotation touches its target only. -/
theorem decl?_annotate? {target : DeclId} {a : Annotation} (h : s.annotate? target a = some s')
    (id : DeclId) : s'.decl? id =
      if id = target then (s.decl? target).map (Decl.annotate a) else s.decl? id := by
  obtain ⟨d, -, h⟩ := Option.bind_eq_some_iff.1 h
  obtain rfl := Option.some.inj h
  clear h
  rcases target with ⟨⟨j⟩⟩ | target | (⟨⟨j⟩⟩ | ⟨⟨j⟩⟩ | ⟨⟨j⟩⟩ | ⟨⟨j⟩⟩) <;>
    rcases id with ⟨⟨i⟩⟩ | ⟨⟨i⟩⟩ | (⟨⟨i⟩⟩ | ⟨⟨i⟩⟩ | ⟨⟨i⟩⟩ | ⟨⟨i⟩⟩)
  case module.module | member.field.member.field | member.property.member.property |
      member.event.member.event | member.method.member.method =>
    simp only [decl?, member?, module?, field?, property?, event?, method?,
      Array.getElem?_modify, DeclId.module.injEq, DeclId.member.injEq, MemberId.field.injEq,
      MemberId.property.injEq, MemberId.event.injEq, MemberId.method.injEq, Handle.mk.injEq,
      eq_comm (a := i)]
    split
    · next heq => simp only [heq, Option.map_map]; rfl
    · rfl
  case type.type =>
    rw [decl?_updateType]
    simp only [decl?, Option.map_map]
    rfl
  all_goals rfl

end Writes

/-! ## Well-formedness -/

/-- A handle leads to a declaration. -/
def Has (s : Store) (id : DeclId) : Prop :=
  ∃ d, s.decl? id = some d

/-- Every handle that a declaration stores leads to a declaration. -/
def WellFormed (s : Store) : Prop :=
  ∀ id d, s.decl? id = some d → ∀ x ∈ d.handles, s.Has x

theorem exists_map_eq_some {α β : Type} {o : Option α} {f : α → β} :
    (∃ b, o.map f = some b) ↔ ∃ a, o = some a := by
  cases o <;> simp

theorem has_module_iff {id : ModuleId} : s.Has (.module id) ↔ ∃ d, s.module? id = some d :=
  exists_map_eq_some

theorem has_type_iff {id : TypeId} : s.Has (.type id) ↔ ∃ t, s.type? id = some t :=
  exists_map_eq_some

theorem has_member_iff {m : MemberId} : s.Has (.member m) ↔ ∃ d, s.member? m = some d :=
  exists_map_eq_some

instance : DecidablePred s.Has := fun _ =>
  decidable_of_iff _ Option.isSome_iff_exists

/-- All declarations that may store handles. -/
def decls (s : Store) : List Decl :=
  s.types.toList.map .type ++ s.fields.toList.map (.member ∘ .field) ++
    s.properties.toList.map (.member ∘ .property) ++ s.events.toList.map (.member ∘ .event) ++
    s.methods.toList.map (.member ∘ .method)

theorem exists_getElem?_of_mem_toList {α : Type} {xs : Array α} {a : α} (h : a ∈ xs.toList) :
    ∃ i : Nat, xs[i]? = some a :=
  Array.mem_iff_getElem?.1 (Array.mem_toList_iff.1 h)

theorem exists_decl?_of_mem_decls {d : Decl} (h : d ∈ s.decls) : ∃ id, s.decl? id = some d := by
  simp only [decls, List.mem_append, List.mem_map, or_assoc] at h
  rcases h with ⟨t, ht, rfl⟩ | ⟨e, he, rfl⟩ | ⟨e, he, rfl⟩ | ⟨e, he, rfl⟩ | ⟨e, he, rfl⟩
  · obtain ⟨i, hi⟩ := exists_getElem?_of_mem_toList ht
    exact ⟨.type ⟨i⟩, by simp [decl?, type?, hi]⟩
  · obtain ⟨i, hi⟩ := exists_getElem?_of_mem_toList he
    exact ⟨.member (.field ⟨i⟩), by simp [decl?, member?, field?, hi]⟩
  · obtain ⟨i, hi⟩ := exists_getElem?_of_mem_toList he
    exact ⟨.member (.property ⟨i⟩), by simp [decl?, member?, property?, hi]⟩
  · obtain ⟨i, hi⟩ := exists_getElem?_of_mem_toList he
    exact ⟨.member (.event ⟨i⟩), by simp [decl?, member?, event?, hi]⟩
  · obtain ⟨i, hi⟩ := exists_getElem?_of_mem_toList he
    exact ⟨.member (.method ⟨i⟩), by simp [decl?, member?, method?, hi]⟩

theorem mem_decls_of_handles {id : DeclId} {d : Decl} (h : s.decl? id = some d) {x : DeclId}
    (hx : x ∈ d.handles) : d ∈ s.decls := by
  simp only [decls, List.mem_append, List.mem_map, or_assoc]
  rcases id with id | id | (id | id | id | id)
  · obtain ⟨e, -, rfl⟩ := Option.map_eq_some_iff.1 h
    cases hx
  · obtain ⟨t, ht, rfl⟩ := Option.map_eq_some_iff.1 h
    exact .inl ⟨t, by simpa using Array.mem_of_getElem? ht, rfl⟩
  all_goals
    obtain ⟨d, hd, rfl⟩ := Option.map_eq_some_iff.1 h
    obtain ⟨e, he, rfl⟩ := Option.map_eq_some_iff.1 hd
    have hmem := Array.mem_of_getElem? he
    simp [hmem]

/-- A store is well-formed when every handle in a declaration leads to a declaration. -/
theorem wellFormed_iff : s.WellFormed ↔ ∀ d ∈ s.decls, ∀ x ∈ d.handles, s.Has x := by
  constructor
  · intro h d hd
    obtain ⟨id, hid⟩ := exists_decl?_of_mem_decls hd
    exact h id d hid
  · intro h id d hid x hx
    exact h d (mem_decls_of_handles hid hx) x hx

instance : Decidable s.WellFormed :=
  decidable_of_iff _ wellFormed_iff.symm

theorem wellFormed_empty : WellFormed {} :=
  wellFormed_iff.2 fun _ hd => absurd hd List.not_mem_nil

section Write

variable {target : DeclId} {d : Decl}

/-- A declaration may be put under a new handle or in the place of another declaration. -/
theorem Has.write {id : DeclId} (h : s.Has id)
    (hwrite : ∀ id, s'.decl? id = if id = target then some d else s.decl? id) : s'.Has id := by
  obtain ⟨e, he⟩ := h
  by_cases hid : id = target
  · exact ⟨d, by rw [hwrite, if_pos hid]⟩
  · exact ⟨e, by rw [hwrite, if_neg hid, he]⟩

/-- Writing a declaration whose handles lead somewhere keeps a store well-formed. -/
theorem WellFormed.write (h : s.WellFormed)
    (hwrite : ∀ id, s'.decl? id = if id = target then some d else s.decl? id)
    (hd : ∀ x ∈ d.handles, s'.Has x) : s'.WellFormed := by
  intro id e he x hx
  rw [hwrite] at he
  split at he
  · cases he
    exact hd x hx
  · exact (h id e he x hx).write hwrite

end Write

/-! ## Registration keeps a store well-formed -/

section Register

theorem WellFormed.addModule (h : s.WellFormed) (name : String) :
    (s.addModule name).1.WellFormed :=
  h.write (decl?_addModule s name) nofun

/-- A type whose handles are in the store can be pushed. -/
theorem WellFormed.pushType (h : s.WellFormed) {t : TypeDecl} (ht : ∀ x ∈ t.handles, s.Has x) :
    (s.pushType t).1.WellFormed :=
  h.write (decl?_pushType s t) fun x hx => (ht x hx).write (decl?_pushType s t)

theorem type?_pushMember (s : Store) (d : MemberDecl) (id : TypeId) :
    (s.pushMember d).type? id = s.type? id := by
  cases d <;> rfl

/-- Listing a member adds its handle to those of the type, and no other. -/
theorem handles_listMember {t : TypeDecl} {m : MemberId} :
    ∀ x ∈ (t.listMember m).handles, x ∈ t.handles ∨ x = .member m := by
  intro x hx
  have hsame : (t.listMember m).module = t.module ∧ (t.listMember m).outer = t.outer := by
    cases m <;> exact ⟨rfl, rfl⟩
  unfold TypeDecl.handles at hx ⊢
  rw [hsame.1, hsame.2] at hx
  rcases List.mem_cons.1 hx with rfl | hx
  · exact .inl List.mem_cons_self
  · rcases List.mem_append.1 hx with hx | hx
    · exact .inl (List.mem_cons_of_mem _ (List.mem_append_left _ hx))
    · obtain ⟨m', hm', rfl⟩ := List.mem_map.1 hx
      rcases List.mem_cons.1 ((t.offeredMembers_listMember m).mem_iff.1 hm') with rfl | hm'
      · exact .inr rfl
      · refine .inl (List.mem_cons_of_mem _ (List.mem_append_right _ ?_))
        exact List.mem_map_of_mem hm'

/-- The store with a new member, pushed first and then listed by the type that declares it. -/
def withMember (s : Store) (d : MemberDecl) : Store :=
  (s.pushMember d).updateType d.owner fun t => t.listMember (s.nextMember d)

/-- A nested type takes over module and scope of the type around it. -/
theorem register?_nestedType_eq_some {outer : TypeId} {name : String} {kind : TypeKind}
    (h : s.register? (.nestedType outer name kind) = some s') :
    ∃ t, s.type? outer = some t ∧ s' = (s.pushType {
      module := t.module, scope := t.scope, name, fullName := nestedName t.fullName name, kind,
      outer := some outer }).1 := by
  obtain ⟨added, hadded, rfl⟩ := Option.map_eq_some_iff.1 h
  obtain ⟨t, ht, hadded⟩ := Option.bind_eq_some_iff.1 hadded
  cases hadded
  exact ⟨t, ht, rfl⟩

theorem register?_member_eq_some {d : MemberDecl} (h : s.register? (.member d) = some s') :
    ∃ t, s.type? d.owner = some t ∧ s' = s.withMember d := by
  obtain ⟨added, hadded, rfl⟩ := Option.map_eq_some_iff.1 h
  obtain ⟨t, ht, hadded⟩ := Option.bind_eq_some_iff.1 hadded
  cases hadded
  exact ⟨t, ht, rfl⟩

/-- A member whose handles are in the store can be registered with its owner. -/
theorem WellFormed.withMember (h : s.WellFormed) {d : MemberDecl} {t : TypeDecl}
    (ht : s.type? d.owner = some t) (hd : ∀ x ∈ d.handles, s.Has x) :
    (s.withMember d).WellFormed := by
  have hpush := decl?_pushMember s d
  have hpushed : (s.pushMember d).WellFormed :=
    h.write hpush fun x hx => (hd x hx).write hpush
  have hnew : (s.pushMember d).Has (.member (s.nextMember d)) :=
    ⟨.member d, by rw [hpush, if_pos rfl]⟩
  have hread : (s.pushMember d).type? d.owner = some t := (type?_pushMember s d _).trans ht
  have hlist := decl?_updateType (s.pushMember d) d.owner fun t => t.listMember (s.nextMember d)
  rw [hread] at hlist
  refine hpushed.write hlist fun x hx => ?_
  rcases handles_listMember x hx with hx | rfl
  · have hold : (s.pushMember d).decl? (.type d.owner) = some (.type t) := by
      simp only [decl?, hread, Option.map_some]
    exact (hpushed _ _ hold x hx).write hlist
  · exact hnew.write hlist

/-- Annotations have no handles, so that any can be attached. -/
theorem WellFormed.annotate (h : s.WellFormed) {target : DeclId} {a : Annotation} {d : Decl}
    (hd : s.decl? target = some d) (hs : s.annotate? target a = some s') : s'.WellFormed := by
  have hwrite := decl?_annotate? hs
  rw [hd] at hwrite
  refine h.write hwrite fun x hx => ?_
  rw [Decl.handles_annotate] at hx
  exact (h target d hd x hx).write hwrite

variable {r : Registration}

/-- A registration with handles that lead somewhere succeeds and keeps a store well-formed. -/
theorem WellFormed.exists_register? (h : s.WellFormed) (hr : ∀ x ∈ r.handles, s.Has x) :
    ∃ s', s.register? r = some s' ∧ s'.WellFormed := by
  cases r with
  | module name => exact ⟨_, rfl, h.addModule name⟩
  | type module scope name kind =>
    refine ⟨_, rfl, h.pushType fun x hx => ?_⟩
    obtain rfl : x = .module module := by simpa [TypeDecl.handles, TypeDecl.offeredMembers] using hx
    exact hr _ List.mem_cons_self
  | nestedType outer name kind =>
    obtain ⟨t, ht⟩ := has_type_iff.1 (hr _ List.mem_cons_self)
    have hmodule : s.Has (.module t.module) :=
      h (.type outer) (.type t) (by simp only [decl?, ht, Option.map_some]) _ List.mem_cons_self
    refine ⟨_, ?_, h.pushType (t := {
      module := t.module, scope := t.scope, name, fullName := nestedName t.fullName name, kind,
      outer := some outer }) fun x hx => ?_⟩
    · simp only [register?, addNestedType?, ht, Option.bind_eq_bind, Option.bind_some]
      rfl
    have hx : x = .module t.module ∨ x = .type outer := by
      simpa [TypeDecl.handles, TypeDecl.offeredMembers] using hx
    rcases hx with rfl | rfl
    · exact hmodule
    · exact hr _ List.mem_cons_self
  | member d =>
    obtain ⟨t, ht⟩ := has_type_iff.1 (hr (.type d.owner) List.mem_cons_self)
    refine ⟨_, ?_, h.withMember ht hr⟩
    simp only [register?, addMember?, ht, Option.bind_eq_bind, Option.bind_some]
    rfl
  | annotate target a =>
    obtain ⟨d, hd⟩ := hr target List.mem_cons_self
    obtain ⟨s', hs'⟩ : ∃ s', s.annotate? target a = some s' := by
      simp [annotate?, hd]
    exact ⟨s', hs', h.annotate hd hs'⟩

end Register

/-- Each registration has handles that lead somewhere once those before it are done. -/
def Admits (s : Store) : List Registration → Prop
  | [] => True
  | r :: rest => (∀ x ∈ r.handles, s.Has x) ∧ ∀ s', s.register? r = some s' → s'.Admits rest

/-- Whatever is registered one after another, a store stays well-formed. -/
theorem WellFormed.exists_registerAll? {registrations : List Registration} (h : s.WellFormed)
    (hadmits : s.Admits registrations) :
    ∃ s', s.registerAll? registrations = some s' ∧ s'.WellFormed := by
  induction registrations generalizing s with
  | nil => exact ⟨s, rfl, h⟩
  | cons r rest ih =>
    obtain ⟨s₁, hs₁, h₁⟩ := h.exists_register? hadmits.1
    obtain ⟨s₂, hs₂, h₂⟩ := ih h₁ (hadmits.2 s₁ hs₁)
    refine ⟨s₂, ?_, h₂⟩
    unfold registerAll?
    rw [List.foldlM_cons, hs₁]
    exact hs₂

end Store

end TypeModel
