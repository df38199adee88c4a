import TypeModel.Identifier

/-!
# Maps keyed by member identifier

A map keeps entries in the order in which they were pushed, and several entries may have
identifiers that agree, or even identical ones. A lookup prefers the first entry that is identical
to the key and otherwise takes the first that agrees with it. The positions of entries of one shape
are kept together in a bucket, since no other entry can match.
-/

namespace TypeModel

/-- The positions of the entries of one shape, with their identifiers, ascending. -/
structure IdentifierMap.Bucket where
  shape : Identifier.Shape
  slots : List (Nat × Identifier)
  deriving DecidableEq, Inhabited

/-- Values under member identifiers, in the order in which they were pushed. -/
structure IdentifierMap (α : Type) where
  entries : List (Identifier × α)
  buckets : List IdentifierMap.Bucket

namespace IdentifierMap

variable {α β : Type}

/-- Adds a slot to the bucket of its shape, which may be a new one. -/
def file (position : Nat) (key : Identifier) : List Bucket → List Bucket
  | [] => [⟨key.shape, [(position, key)]⟩]
  | b :: rest =>
    if b.shape = key.shape then { b with slots := b.slots ++ [(position, key)] } :: rest
    else b :: file position key rest

def empty : IdentifierMap α :=
  ⟨[], []⟩

instance : Inhabited (IdentifierMap α) := ⟨empty⟩

def size (m : IdentifierMap α) : Nat :=
  m.entries.length

def isEmpty (m : IdentifierMap α) : Bool :=
  m.entries.isEmpty

/-- The values, in the order in which they were pushed. -/
def values (m : IdentifierMap α) : List α :=
  m.entries.map Prod.snd

/-- The map with one more entry at its end. -/
def push (m : IdentifierMap α) (key : Identifier) (value : α) : IdentifierMap α :=
  ⟨m.entries ++ [(key, value)], file m.size key m.buckets⟩

/-- The slots of the entries that have the shape of the key. -/
def candidates (m : IdentifierMap α) (key : Identifier) : List (Nat × Identifier) :=
  match m.buckets.find? fun b => b.shape = key.shape with
  | some b => b.slots
  | none => []

/-- The position of the first entry identical to the key, or else of the first that agrees. -/
def position? (m : IdentifierMap α) (key : Identifier) : Option Nat :=
  let slots := m.candidates key
  ((slots.find? fun slot => slot.2 = key).or (slots.find? fun slot => slot.2.agrees key)).map
    Prod.fst

/-- The value that a lookup finds. -/
def get? (m : IdentifierMap α) (key : Identifier) : Option α := do
  let position ← m.position? key
  let entry ← m.entries[position]?
  return entry.2

/-- Whether a lookup finds anything: whether some entry agrees with the key. -/
def contains (m : IdentifierMap α) (key : Identifier) : Bool :=
  (m.position? key).isSome

/-- The map with every value replaced, under the same identifiers. -/
def mapM {μ : Type → Type} [Monad μ] (f : Identifier → α → μ β) (m : IdentifierMap α) :
    μ (IdentifierMap β) := do
  let entries ← m.entries.mapM fun (key, value) => do return (key, ← f key value)
  return ⟨entries, m.buckets⟩

/-! ## What a push changes -/

variable (m : IdentifierMap α) (key : Identifier) (value : α)

@[simp] theorem entries_push : (m.push key value).entries = m.entries ++ [(key, value)] := rfl

@[simp] theorem values_push : (m.push key value).values = m.values ++ [value] := by
  simp [values]

/-- Filing a slot adds it to the bucket of its shape and leaves all others as they are. -/
theorem slots_file (position : Nat) (buckets : List Bucket) (shape : Identifier.Shape) :
    (((file position key buckets).find? fun b => b.shape = shape).map Bucket.slots).getD [] =
      ((buckets.find? fun b => b.shape = shape).map Bucket.slots).getD [] ++
        if key.shape = shape then [(position, key)] else [] := by
  induction buckets with
  | nil => by_cases h : key.shape = shape <;> simp [file, h]
  | cons b rest ih =>
    unfold file
    by_cases hb : b.shape = key.shape
    · by_cases h : key.shape = shape
      · simp [hb, h]
      · simp [hb, h]
    · by_cases h : b.shape = shape
      · have hk : key.shape ≠ shape := fun hk => hb (h.trans hk.symm)
        simp [h, hk, Ne.symm hk]
      · simpa [hb, h] using ih

/-- After a push, the new entry is a candidate for the keys of its own shape. -/
theorem candidates_push (probe : Identifier) :
    (m.push key value).candidates probe =
      m.candidates probe ++ if key.shape = probe.shape then [(m.size, key)] else [] := by
  have h := slots_file key m.size m.buckets probe.shape
  have hc : ∀ m : IdentifierMap α, m.candidates probe =
      ((m.buckets.find? fun b => b.shape = probe.shape).map Bucket.slots).getD [] := by
    intro m
    unfold candidates
    split <;> next hf => simp [hf]
  rw [hc, hc]
  exact h

end IdentifierMap

end TypeModel
