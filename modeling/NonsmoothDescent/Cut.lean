import NonsmoothDescent.Position
import NonsmoothDescent.Sample

/-!
# Cuts

A cut is an affine function of the step that models the objective around the current
point. Its slope is a vector of its own or the gradient at a sampled point, to which
it refers by position, so that the list of sampled points may grow without touching
the cut. Its bias is its value at the zero step.

A cut at a sampled point takes the smaller of two biases: the value at the current
point of the linearization there, and the current value less a multiple of the
squared distance. The second keeps a far linearization from being too optimistic.
Aggregation replaces a list of cuts by two: the cut at the current point and the
combination of all cuts with given weights.
-/

namespace NonsmoothDescent

/-- An affine function of the step. -/
inductive Cut (α : Type) where
  /-- The slope is the gradient at the sampled point with the given position. -/
  | sampled (bias : α) (position : Int)
  /-- The slope is given. -/
  | owned (bias : α) (slope : List α)
  deriving Repr

/-- The sampled points, by position. -/
abbrev PointLookup (α : Type) := Int → Option (Sample α)

namespace Cut

variable {α : Type}

/-- The value at the zero step. -/
def bias : Cut α → α
  | .sampled bias _ => bias
  | .owned bias _ => bias

/-- The position of the sampled point, if the slope is taken from one. -/
def position? : Cut α → Option Int
  | .sampled _ position => some position
  | .owned _ _ => none

/-- The slope, if the cut has one of its own. -/
def ownSlope? : Cut α → Option (List α)
  | .sampled _ _ => none
  | .owned _ slope => some slope

/-- A cut from a bias and exactly one of a position and a slope. -/
def ofParts (bias : α) : Option Int → Option (List α) → Except (Fault α) (Cut α)
  | some position, none => .ok (.sampled bias position)
  | none, some slope => .ok (.owned bias slope)
  | _, _ => .error .ambiguousCut

/-- The slope; nothing if it refers to a point whose gradient is not known. -/
def coefficient? (points : PointLookup α) : Cut α → Except (Fault α) (Option (List α))
  | .owned _ slope => .ok (some slope)
  | .sampled _ position =>
    match points position with
    | some point => .ok point.gradient.value?
    | none => .error .outOfBounds

/-- The slope, which must be known. -/
def coefficient (points : PointLookup α) (cut : Cut α) : Except (Fault α) (List α) := do
  match ← cut.coefficient? points with
  | some slope => return slope
  | none => throw .missingGradient

/-- The cut at the current point: its gradient and its value. -/
def atCurrent (current : Sample α) : Except (Fault α) (Cut α) :=
  match current.gradient.value?, current.objective.value? with
  | some slope, some value => .ok (.owned value slope)
  | some _, none => .error .missingObjective
  | none, _ => .error .ambiguousCut

variable [Scalar α]

/-- The bias of a cut at a sampled point. An unknown current value leaves the value of
the linearization. -/
def downshiftedBias (value : α) (slope point current : List α) (currentValue : Option α)
    (downshift : α) : Except (Fault α) α :=
  match Vec.pairwise? (· - ·) current point with
  | none => .error .sizeMismatch
  | some difference =>
    match Vec.dot? slope difference with
    | none => .error .sizeMismatch
    | some rise =>
      let linearized := value + rise
      match currentValue with
      | some currentValue =>
        .ok (Scalar.lesser linearized (currentValue - downshift * Vec.normSq difference))
      | none => .ok linearized

/-- The cut at the sampled point with the given position. A gradient that is not known
has no length that fits. -/
def atPoint (point current : Sample α) (position : Int) (downshift : α) :
    Except (Fault α) (Cut α) :=
  match point.gradient.value?, point.objective.value? with
  | some slope, some value => do
    let bias ← downshiftedBias value slope point.position current.position
      current.objective.value? downshift
    return .sampled bias position
  | some _, none => .error .missingObjective
  | none, _ => .error .sizeMismatch

/-- Adds a weighted slope to a vector. A slope with one entry stands for a constant one. -/
def accumulate (total : List α) (weight : α) (slope : List α) : Except (Fault α) (List α) :=
  match Vec.pairwise? (· + ·) total (Vec.scale weight slope) with
  | some sum => if sum.length = total.length then .ok sum else .error .sizeMismatch
  | none => .error .sizeMismatch

/-- The slope and the bias of the weighted combination of cuts. -/
def combination (points : PointLookup α) (dimension : Nat) (weighted : List (α × Cut α)) :
    Except (Fault α) (List α × α) :=
  weighted.foldlM (fun (slope, bias) (weight, cut) => do
    let slope ← accumulate slope weight (← cut.coefficient points)
    return (slope, bias + weight * cut.bias)) (Vec.zeros dimension, 0)

/-- The cut at the current point and the combination of the given cuts. There must be
one weight per cut. -/
def aggregate (points : PointLookup α) (current : Sample α) (weights : List α)
    (cuts : List (Cut α)) : Except (Fault α) (List (Cut α) × List (Notice α)) := do
  if weights.length ≠ cuts.length then throw (.multiplierCount weights.length cuts.length)
  let (slope, bias) ← combination points current.position.length (weights.zip cuts)
  let first ← atCurrent current
  return ([first, .owned bias slope], [.aggregated cuts.length weights slope])

/-- The positions of the points within a distance of a vector, in order. -/
def near (x : List α) (radius : α) (points : List (Sample α)) : Except (Fault α) (List Nat) :=
  points.zipIdx.foldlM (fun found (point, place) => do
    return if (← point.distance x) ≤ radius then found ++ [place] else found) []

end Cut

end NonsmoothDescent
