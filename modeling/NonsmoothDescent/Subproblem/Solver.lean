import NonsmoothDescent.Fault
import NonsmoothDescent.Notice
import NonsmoothDescent.Subproblem.Minimizer
import NonsmoothDescent.Tensor

/-!
# The subproblem solver

The solver holds the planes of one subproblem and the result of the last solve. Data
are replaced as a whole or extended; a batch of slopes and biases that does not fit
is refused and changes nothing. A cold solve starts from equal weights. A warm solve
starts from the weights of the last solve, with zeros for the planes added since.

One plane is solved without a minimizer. Otherwise the minimizer's answer is read
with negative weights set to zero and then scaled to sum one. A claim of failure is
overruled if the weights leave a gap small enough. Whatever the answer, there is one
weight per plane afterwards and the step belongs to the weights.
-/

namespace NonsmoothDescent

/-- A rehearsal of failures: solves with the numbers listed are made to report a
numerical failure, and what was asked of the solver is recorded. -/
structure Drill where
  /-- Numbers of the solves that fail, counted from one. -/
  failing : List Int
  /-- Solves made. -/
  solves : Nat := 0
  /-- The number of planes at each replacement of the data. -/
  loads : Array Nat := #[]
  /-- The numbers of planes and of weights after each solve. -/
  history : Array (Nat × Nat) := #[]

/-- A solver with its data and its last result. -/
structure Solver (α : Type) [Scalar α] where
  /-- The subproblem to solve next. -/
  subproblem : Subproblem α
  /-- Settings for the minimizer. -/
  settings : Settings α := {}
  /-- A gap of a small share of this is accepted from a minimizer that failed. -/
  inexactness : α := 0
  /-- The weights of the last solve. -/
  weights : List α := []
  /-- Weights kept for the next warm solve. -/
  saved : Option (List α) := none
  /-- The combination of slopes of the last solve. -/
  combination : List α
  /-- The step of the last solve. -/
  step : List α
  /-- How the last solve ended. -/
  status : SolveStatus := .unset
  /-- Iterations of the minimizer in the last solve. -/
  iterations : Int := 0
  /-- A rehearsal of failures, if one is made. -/
  drill : Option Drill := none

namespace Solver

variable {α : Type} [Scalar α]

/-- A solver without planes. -/
def create (dimension : Nat) (settings : Settings α) (drill : Option Drill) : Solver α :=
  { subproblem := { dimension, planes := [], bound := .unbounded }
    settings, drill
    combination := Vec.zeros dimension
    step := Vec.zeros dimension }

/-- A solver for a given number of variables, which must be positive and a size that a
tensor can have. -/
def make (dimension : Int) (settings : Settings α) (drill : Option Drill) :
    Except (Fault α) (Solver α) :=
  if dimension ≤ 0 then .error (.dimensionNotPositive (some dimension))
  else if Tensor.isAllowed [dimension.toNat] then .ok (create dimension.toNat settings drill)
  else .error .sizeMismatch

/-- The number of variables. -/
def dimension (s : Solver α) : Nat := s.subproblem.dimension

/-- The number of planes. -/
def cuts (s : Solver α) : Nat := s.subproblem.planes.length

/-- Bounds the entries of the step by a radius. -/
def setRadius (s : Solver α) (radius : Option α) : Solver α :=
  { s with subproblem := { s.subproblem with bound := .ofRadius radius } }

/-- Sets the tolerance for inexact solutions; a negative one counts as zero. -/
def setInexactness (s : Solver α) (tolerance : α) : Solver α :=
  { s with inexactness := Scalar.greater 0 tolerance }

/-- Puts slopes and biases together. There must be as many of one as of the other, and
all slopes must have one entry per variable. -/
def batch (dimension : Nat) (slopes : List (List α)) (biases : List α) :
    Except (Fault α) (List (Plane α)) :=
  if slopes.length ≠ biases.length then .error (.biasCount slopes.length biases.length)
  else match slopes with
    | [] => .ok []
    | first :: rest =>
      if rest.any (·.length ≠ first.length) then .error .sizeMismatch
      else if first.length ≠ dimension then .error (.coefficientSize first.length dimension)
      else .ok (List.zipWith Plane.mk slopes biases)

/-- Records the size of a batch that replaces the data. -/
def Drill.loaded (d : Drill) (size : Nat) : Drill := { d with loads := d.loads.push size }

/-- Replaces the planes. Weights kept for a warm solve are forgotten. -/
def load (s : Solver α) (slopes : List (List α)) (biases : List α) :
    Except (Fault α) (Solver α) := do
  let planes ← batch s.dimension slopes biases
  return { s with
    subproblem := { s.subproblem with planes }
    saved := none
    drill := s.drill.map (Drill.loaded · biases.length) }

/-- Adds planes behind the present ones and keeps the last weights for a warm solve. -/
def extend (s : Solver α) (slopes : List (List α)) (biases : List α) :
    Except (Fault α) (Solver α) := do
  let planes ← batch s.dimension slopes biases
  return { s with
    subproblem := { s.subproblem with planes := s.subproblem.planes ++ planes }
    saved := if s.weights.isEmpty then none else some s.weights }

/-- The gap that is accepted from a minimizer that failed. -/
def acceptedGap (s : Solver α) : α :=
  Scalar.greater 0.000000001 (0.0001 * s.inexactness)

/-- Negative weights become zero. -/
def floorWeights (point : List α) : List α := point.map fun w => if w < 0 then 0 else w

/-- What the exit code of a minimizer claims. -/
def claimed (exitCode : Int) : SolveStatus :=
  if exitCode = 0 then .success
  else if exitCode = 9 then .iterationLimit
  else .numericalFailure

/-- Weights, status and notices that come of a minimizer's answer. -/
def judge (s : Solver α) (answer : Answer α) : List α × SolveStatus × List (Notice α) :=
  let weights := floorWeights answer.point
  let total := Vec.sum weights
  let status := claimed answer.exitCode
  let failure : List (Notice α) :=
    if status = .numericalFailure then [.minimizerFailed answer.message] else []
  if !Scalar.isFinite total || total ≤ 0 then (weights, .numericalFailure, failure)
  else
    let weights := weights.map (· / total)
    if status = .success then (weights, status, failure)
    else
      let gap := s.subproblem.gap weights
      if gap ≤ s.acceptedGap then
        (weights, .success, failure ++ [.pointAccepted answer.exitCode gap])
      else (weights, status, failure)

/-- What a solve leaves behind. -/
structure Solved (α : Type) [Scalar α] where
  /-- The solver with its result. -/
  solver : Solver α
  /-- The question to the minimizer and its answer, if it was asked. -/
  consultation : Option (Consultation α)
  /-- Notices in order. -/
  notices : List (Notice α)

/-- Stores weights and the step that belongs to them. A step or weights that are not
finite make the solve a failure. -/
def store (s : Solver α) (weights : List α) (status : SolveStatus) (iterations : Int) : Solver α :=
  let combination := s.subproblem.combination weights
  let step := s.subproblem.stepOf combination
  let status := if Vec.isFinite step && Vec.isFinite weights then status else .numericalFailure
  { s with weights, combination, step, status, iterations }

/-- Stores the result of a subproblem that cannot be posed. -/
def storeUnsolvable (s : Solver α) (status : SolveStatus) : Solver α :=
  { s with
    weights := Vec.zeros s.cuts
    combination := Vec.zeros s.dimension
    step := Vec.zeros s.dimension
    status
    iterations := 0 }

/-- Solves from a start point. -/
def solveFrom (s : Solver α) (ask : Request α → Answer α) (start : List α) : Solved α :=
  if s.cuts = 0 then
    ⟨s.storeUnsolvable .inputError, none, [.unsolvable .inputError 0]⟩
  else if !s.subproblem.isFinite then
    ⟨s.storeUnsolvable .numericalFailure, none, [.unsolvable .numericalFailure s.cuts]⟩
  else if s.cuts = 1 then ⟨s.store [1] .success 0, none, []⟩
  else
    let request : Request α := ⟨s.subproblem, start, s.settings⟩
    let given := ask request
    let answer := { given with point := Vec.fit s.cuts given.point }
    let (weights, status, notices) := s.judge answer
    ⟨s.store weights status answer.iterations, some ⟨request, answer⟩, notices⟩

/-- Counts a solve, makes it fail if its number is listed, and records the sizes. -/
def rehearse (s : Solver α) : Solver α :=
  match s.drill with
  | none => s
  | some d =>
    let number := d.solves + 1
    { s with
      status := if d.failing.contains (number : Int) then .numericalFailure else s.status
      drill := some { d with
        solves := number
        history := d.history.push (s.cuts, s.weights.length) } }

/-- Solves from a start point, with the rehearsal of failures if there is one. -/
def run (s : Solver α) (ask : Request α → Answer α) (start : List α) : Solved α :=
  let solved := s.solveFrom ask start
  { solved with solver := solved.solver.rehearse }

/-- Equal weights on all planes. -/
def equalWeights (s : Solver α) : List α := List.replicate s.cuts (1 / Scalar.ofInt s.cuts)

/-- Solves from equal weights. -/
def solve (s : Solver α) (ask : Request α → Answer α) : Solved α := s.run ask s.equalWeights

/-- The start of a warm solve: the kept weights and zeros for later planes. Kept weights
that are too many, or whose sum is not positive, are of no use. -/
def warmStart (s : Solver α) : List α :=
  match s.saved with
  | none => s.equalWeights
  | some kept =>
    if s.cuts < kept.length || Vec.sum kept ≤ 0 then s.equalWeights
    else kept ++ Vec.zeros (s.cuts - kept.length)

/-- Solves from the last weights. -/
def solveWarm (s : Solver α) (ask : Request α → Answer α) : Solved α := s.run ask s.warmStart

/-- Sets the step to zero and leaves all else. -/
def clearStep (s : Solver α) : Solver α := { s with step := Vec.zeros s.dimension }

/-- The largest entry of the step. -/
def stepNormInf (s : Solver α) : α := Vec.normInf s.step

/-- The squared length of the step. -/
def stepNormSq (s : Solver α) : α := Vec.normSq s.step

/-- Half the squared length of the step. -/
def quadraticValue (s : Solver α) : α := 0.5 * Vec.normSq s.step

/-- The squared length of the combination of slopes. -/
def combinationNormSq (s : Solver α) : α := Vec.normSq s.combination

/-- The largest entry of the combination of slopes. -/
def combinationNormInf (s : Solver α) : α := Vec.normInf s.combination

/-- The gap of the stored weights at the stored step; zero while the weights do not
belong to the present planes. -/
def optimalityError (s : Solver α) : α :=
  if s.weights.length = 0 ∨ s.weights.length ≠ s.cuts then 0
  else s.subproblem.gapAt s.weights s.step

end Solver

end NonsmoothDescent
