import TypeModel.ModelError

/-!
# Metadata

The metadata of a declaration groups its annotations by kind. Groups stand in the order of their
kinds; inside a group annotations stand in the order in which they came, each once. Metadata also
remembers the qualified name of the declaration that it was collected from, for messages.
-/

namespace TypeModel

/-- The distinct annotations of one kind. -/
structure AnnotationGroup where
  kind : String
  annotations : List Annotation
  deriving DecidableEq, Inhabited

/-- The annotations of one declaration, or of several merged into it. -/
structure Metadata where
  /-- The qualified name of the declaration that the metadata describes. -/
  owner : String
  /-- One group for each kind present, with ascending kinds. -/
  groups : List AnnotationGroup := []
  deriving DecidableEq, Inhabited

/-- The list with one more element at its end, unless it holds that element already. -/
def appendNew {α : Type} [DecidableEq α] (xs : List α) (x : α) : List α :=
  if x ∈ xs then xs else xs ++ [x]

/-- Places an annotation among groups with ascending kinds. -/
def AnnotationGroup.place (a : Annotation) : List AnnotationGroup → List AnnotationGroup
  | [] => [⟨a.kind, [a]⟩]
  | g :: rest =>
    if a.kind = g.kind then { g with annotations := appendNew g.annotations a } :: rest
    else if a.kind < g.kind then ⟨a.kind, [a]⟩ :: g :: rest
    else g :: place a rest

namespace Metadata

def insert (m : Metadata) (a : Annotation) : Metadata :=
  { m with groups := AnnotationGroup.place a m.groups }

/-- The metadata with more annotations, taken from left to right. -/
def insertAll (m : Metadata) (annotations : List Annotation) : Metadata :=
  annotations.foldl insert m

def ofAnnotations (owner : String) (annotations : List Annotation) : Metadata :=
  insertAll { owner } annotations

/-- All annotations, group by group. -/
def annotations (m : Metadata) : List Annotation :=
  m.groups.flatMap AnnotationGroup.annotations

/-- The kinds present, ascending. -/
def kinds (m : Metadata) : List String :=
  m.groups.map AnnotationGroup.kind

def has (m : Metadata) (kind : String) : Bool :=
  m.groups.any fun g => g.kind == kind

/-- The annotations of a kind, none if the kind is absent. -/
def get (m : Metadata) (kind : String) : List Annotation :=
  match m.groups.find? fun g => g.kind == kind with
  | some g => g.annotations
  | none => []

def size (m : Metadata) : Nat :=
  m.annotations.length

def isEmpty (m : Metadata) : Bool :=
  m.groups.isEmpty

/-- Takes in the annotations of other metadata; `replace` drops what was there before. -/
def update (m other : Metadata) (replace : Bool) : Metadata :=
  insertAll (if replace then { m with groups := [] } else m) other.annotations

/-! ## The owner never changes -/

@[simp] theorem owner_insert (m : Metadata) (a : Annotation) : (m.insert a).owner = m.owner := rfl

@[simp] theorem owner_insertAll (m : Metadata) (annotations : List Annotation) :
    (m.insertAll annotations).owner = m.owner := by
  induction annotations generalizing m with
  | nil => rfl
  | cons a rest ih => exact (ih (m.insert a)).trans (owner_insert m a)

@[simp] theorem owner_ofAnnotations (owner : String) (annotations : List Annotation) :
    (ofAnnotations owner annotations).owner = owner :=
  owner_insertAll { owner } annotations

@[simp] theorem owner_update (m other : Metadata) (replace : Bool) :
    (m.update other replace).owner = m.owner := by
  cases replace <;> simp [update]

/-! ## Annotations that may occur once -/

/-- The arguments of the only annotation of a kind. Absence is no error, repetition is one. -/
def soleArgs (m : Metadata) (kind : String) : Except ModelError (Option (List Argument)) :=
  match m.get kind with
  | [] => .ok none
  | [a] => .ok (some a.args)
  | many => .error (.configuration m.owner (.repeated kind many.length))

/-- The first string among the arguments of the only annotation of a kind. -/
def soleString (m : Metadata) (kind : String) : Except ModelError (Option String) := do
  match ← m.soleArgs kind with
  | none => return none
  | some args =>
    match args.findSome? Argument.asStr? with
    | some value => return some value
    | none => throw (.configuration m.owner (.missingString kind))

end Metadata

end TypeModel
