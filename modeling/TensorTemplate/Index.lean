/-!
Tensor indices: the class of an index, read off its label, and the values an
index runs over. An odometer shows all ways to give values to a list of indices,
the last one turning fastest.
-/

namespace TensorTemplate

/-- The range an index runs over. -/
inductive IndexClass where
  /-- Phase space: the fields, then their momenta. -/
  | full
  | field
  | parameter
deriving DecidableEq, Repr

namespace IndexClass

/-- Capitals run over phase space, `a` to `k` over fields, `l` to `z` over parameters. -/
def ofLabel? (label : Char) : Option IndexClass :=
  if 'A' ≤ label ∧ label ≤ 'Z' then some full
  else if 'a' ≤ label ∧ label ≤ 'k' then some field
  else if 'l' ≤ label ∧ label ≤ 'z' then some parameter
  else none

/-- Whether a slot of this class takes an index of the supplied class. -/
def accepts : IndexClass → IndexClass → Bool
  | full, full => true
  | full, field => true
  | field, field => true
  | parameter, parameter => true
  | _, _ => false

def render : IndexClass → String
  | full => "full"
  | field => "field-only"
  | parameter => "parameter"

end IndexClass

/-- An index in a directive; it has a value once its line is repeated over values. -/
structure Index where
  label : Char
  cls : IndexClass
  value : Option Nat := none
deriving DecidableEq, Repr

namespace Index

/-- The index with the class of its label and no value. -/
def ofLabel? (label : Char) : Option Index :=
  (IndexClass.ofLabel? label).map fun cls => { label, cls }

def withValue (i : Index) (value : Nat) : Index := { i with value := some value }

/-- The index without its value. -/
def abstract (i : Index) : Index := { i with value := none }

end Index

/-- The sizes of the ranges of a model. -/
structure Ranges where
  fields : Nat
  parameters : Nat
deriving DecidableEq, Repr

/-- A place in the enumeration of the values of some indices: the current values, the limit of each,
and whether the enumeration is over. -/
structure Odometer where
  indices : List Index
  current : List Nat
  limits : List Nat
  done : Bool
deriving Repr

namespace Odometer

/-- One step: the last dial moves on; one that reaches its limit starts again and moves its left
neighbour. The flag tells that every dial started again. -/
def turn : List Nat → List Nat → List Nat × Bool
  | value :: values, limit :: limits =>
    match turn values limits with
    | (values, false) => (value :: values, false)
    | (values, true) =>
      if value + 1 < limit then ((value + 1) :: values, false) else (0 :: values, true)
  | _, _ => ([], true)

/-- The reading: every index with its current value. -/
def reading (o : Odometer) : List Index :=
  List.zipWith Index.withValue o.indices o.current

/-- The next reading and the odometer after it, until the enumeration is over. -/
def next? (o : Odometer) : Option (List Index × Odometer) :=
  if o.done then none
  else
    let (current, done) := turn o.current o.limits
    some (o.reading, { o with current, done })

/-- At most `n` more readings, after those already made, which are given the latest first. -/
def takeAfter (made : List (List Index)) : Nat → Odometer → List (List Index)
  | 0, _ => made.reverse
  | n + 1, o =>
    match o.next? with
    | none => made.reverse
    | some (reading, o) => takeAfter (reading :: made) n o

/-- The first `n` readings, or all of them if there are fewer. -/
def take (n : Nat) (o : Odometer) : List (List Index) := takeAfter [] n o

theorem takeAfter_eq (made : List (List Index)) (n : Nat) (o : Odometer) :
    takeAfter made n o = made.reverse ++ o.take n := by
  induction n generalizing made o with
  | zero => simp [takeAfter, take]
  | succ n ih =>
    simp only [take, takeAfter]
    split
    · simp
    · rename_i reading o _
      rw [ih (reading :: made), ih [reading]]
      simp

/-- Does something with at most `n` more readings, one after the other, and gives the results after
those already made, which are given the latest first. -/
@[specialize]
def mapAfter {m : Type → Type} [Monad m] {β : Type} (f : List Index → m β) (made : List β) :
    Nat → Odometer → m (List β)
  | 0, _ => pure made.reverse
  | n + 1, o =>
    match o.next? with
    | none => pure made.reverse
    | some (reading, o) => do
      let b ← f reading
      mapAfter f (b :: made) n o

/-- The readings need not be listed before something is done with the first. -/
theorem mapAfter_eq {m : Type → Type} [Monad m] [LawfulMonad m] {β : Type} (f : List Index → m β)
    (made : List β) (n : Nat) (o : Odometer) :
    mapAfter f made n o = (made.reverse ++ ·) <$> (o.take n).mapM f := by
  induction n generalizing made o with
  | zero => simp [mapAfter, take, takeAfter]
  | succ n ih =>
    simp only [mapAfter, take, takeAfter]
    split
    · simp
    · simp [ih, takeAfter_eq]

end Odometer

namespace Ranges

/-- How many values an index of the class can take. -/
def size (r : Ranges) : IndexClass → Nat
  | .full => 2 * r.fields
  | .field => r.fields
  | .parameter => r.parameters

/-- The odometer over the values of `indices`, at its start. -/
def odometer (r : Ranges) (indices : List Index) : Odometer :=
  let limits := indices.map fun i => r.size i.cls
  { indices, limits, current := indices.map fun _ => 0, done := limits.any (· == 0) }

/-- How many readings the odometer has. -/
def count (r : Ranges) (indices : List Index) : Nat :=
  (indices.map fun i => r.size i.cls).foldr (· * ·) 1

/-- All ways to give values to `indices`, the last index varying fastest. -/
def assignments (r : Ranges) (indices : List Index) : List (List Index) :=
  (r.odometer indices).take (r.count indices)

/-- Does something with each of the assignments in turn and gives the results. -/
@[specialize]
def mapAssignments {m : Type → Type} [Monad m] {β : Type} (r : Ranges) (indices : List Index)
    (f : List Index → m β) : m (List β) :=
  (r.odometer indices).mapAfter f [] (r.count indices)

theorem mapAssignments_eq {m : Type → Type} [Monad m] [LawfulMonad m] {β : Type} (r : Ranges)
    (indices : List Index) (f : List Index → m β) :
    r.mapAssignments indices f = (r.assignments indices).mapM f := by
  simp [mapAssignments, assignments, Odometer.mapAfter_eq]

end Ranges

end TensorTemplate
