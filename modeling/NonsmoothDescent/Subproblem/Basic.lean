import NonsmoothDescent.Vec

/-!
# The cutting-plane subproblem

Given planes `b + g · d` and a bound `Δ`, the subproblem is to minimize the largest
plane value plus `½ |d|²` over all steps `d` with entries between `-Δ` and `Δ`. Its
dual is a concave function of weights on the planes, nonnegative and with sum one:
with the combination `v` of the slopes, the step is `-v` clipped to the bound, and
the dual value is `b · w + ½ |d|² + v · d`. Its derivative by a weight is the value
of that plane at the step.

The gap between the largest plane value and the weighted one is the distance of the
primal value at the step from the dual value, so a small gap certifies both.
-/

namespace NonsmoothDescent

/-- An affine function of the step, with its slope written out. -/
structure Plane (α : Type) where
  /-- The coefficient vector. -/
  slope : List α
  /-- The value at the zero step. -/
  bias : α
  deriving Repr

/-- A bound on every entry of the step. -/
inductive StepBound (α : Type) where
  /-- No bound. -/
  | unbounded
  /-- Entries lie between minus the radius and the radius. -/
  | within (radius : α)
  deriving Repr

namespace StepBound

variable {α : Type} [Scalar α]

/-- A positive radius bounds the step; anything else does not. -/
def ofRadius : Option α → StepBound α
  | some radius => if 0 < radius then .within radius else .unbounded
  | none => .unbounded

/-- Moves an entry into the bound. -/
def clip (bound : StepBound α) (x : α) : α :=
  match bound with
  | .unbounded => x
  | .within radius => if x < -radius then -radius else if radius < x then radius else x

end StepBound

/-- A subproblem in a number of variables. -/
structure Subproblem (α : Type) where
  /-- The number of variables. -/
  dimension : Nat
  /-- The planes, in order. -/
  planes : List (Plane α)
  /-- The bound on the step. -/
  bound : StepBound α
  deriving Repr

namespace Subproblem

variable {α : Type} [Scalar α]

/-- The biases of all planes. -/
def biases (p : Subproblem α) : List α := p.planes.map Plane.bias

/-- The combination of the slopes with the given weights. -/
def combination (p : Subproblem α) (weights : List α) : List α :=
  (p.planes.zip weights).foldl (fun total (plane, weight) =>
    Vec.add total (Vec.scale weight plane.slope)) (Vec.zeros p.dimension)

/-- The step that belongs to a combination of slopes. -/
def stepOf (p : Subproblem α) (combination : List α) : List α :=
  combination.map fun v => p.bound.clip (-v)

/-- The values of all planes at a step. -/
def valuesAt (p : Subproblem α) (step : List α) : List α :=
  p.planes.map fun plane => plane.bias + Vec.dot plane.slope step

/-- The dual value of weights, with its sign changed. -/
def negDual (p : Subproblem α) (weights : List α) : α :=
  let v := p.combination weights
  let d := p.stepOf v
  let value := Vec.dot p.biases weights + 0.5 * Vec.normSq d + Vec.dot v d
  Neg.neg value

/-- The derivative of the dual value by the weights, with its sign changed. -/
def negDualGradient (p : Subproblem α) (weights : List α) : List α :=
  (p.valuesAt (p.stepOf (p.combination weights))).map Neg.neg

/-- By how much the largest plane value at a step exceeds the weighted one. -/
def gapAt (p : Subproblem α) (weights step : List α) : α :=
  let values := p.valuesAt step
  Vec.maximum values - Vec.dot weights values

/-- The duality gap of weights. -/
def gap (p : Subproblem α) (weights : List α) : α :=
  p.gapAt weights (p.stepOf (p.combination weights))

/-- Whether all slopes and biases are finite. -/
def isFinite (p : Subproblem α) : Bool :=
  p.planes.all fun plane => Vec.isFinite plane.slope && Scalar.isFinite plane.bias

end Subproblem

end NonsmoothDescent
