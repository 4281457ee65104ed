import NonsmoothDescent.LineSearch
import NonsmoothDescent.Problem.Rosenbrock
import NonsmoothDescent.Search.Direction

/-!
# Descent on the nonsmooth Rosenbrock function

A small outer solver: search for a direction, search along it, move. If neither the
line search nor the search itself has found a lower point, both radii are halved.
The descent stops when the stationarity radius is small enough, when a direction
search fails, or when the iterations run out. It tells its progress in lines.
-/

namespace NonsmoothDescent

/-- A line that a descent prints. -/
inductive DescentLine (α : Type) where
  /-- The heading of the iteration lines. -/
  | heading
  /-- An iteration: its number, the last line of the search report, the current value. -/
  | iteration (number : Nat) (report : Option (ProgressLine α)) (value : Option α)
  /-- The direction search failed. -/
  | stopped (outcome : Outcome)
  /-- What the descent has cost. -/
  | totals (objectives gradients : Nat) (innerIterations minimizerIterations : Int)

/-- The text of a line. -/
def DescentLine.render : DescentLine Float → String
  | .heading => " Iter. " ++ ProgressLine.header
  | .iteration number report value =>
    let shown := match value with
      | some value => Decimal.rounded .exponent 6 value
      | none => "inf"
    let last := match report with
      | some line => line.render
      | none => ""
    " " ++ Template.showWhole { width := 5 } number ++ " " ++ last ++ "  f=" ++ shown
  | .stopped .timeLimit => "stopped: " ++ (Fault.timeLimitReached.message?.getD "")
  | .stopped outcome => "stopped: direction status " ++ outcome.name
  | .totals objectives gradients inner minimizer =>
    "function evals=" ++ toString objectives ++ ", gradient evals=" ++ toString gradients ++
      ", inner its=" ++ toString inner ++ ", QP its=" ++ toString minimizer

namespace Descent

variable {α : Type} [Scalar α]

/-- What a descent leaves besides its final state. -/
structure Record (α : Type) [Scalar α] where
  /-- Lines in order. -/
  lines : List (DescentLine α) := []
  /-- Questions put to the minimizer, in order. -/
  consultations : List (Consultation α) := []

/-- The nonsmooth Rosenbrock function with its gradient. -/
def rosenbrock : Oracle α :=
  { dimension := 2
    positive := by decide
    value := Rosenbrock.value
    gradient := some Rosenbrock.gradient
    differences := Oracle.forwardDifferences 1.490116119384765625e-8 }

/-- The setting of the descent: cuts are aggregated, all else is standard. -/
def setting (clock : Nat → α) (minimizer : Minimizer α) : Setting α :=
  { oracle := rosenbrock
    options := { tryAggregation := true }
    rule := ShrinkRule.standard.toRule
    clock
    minimizer }

/-- Moves after a successful direction search: to the point that the line search finds,
else to the search's own trial point if it is lower, else not at all; in the last case
both radii are halved. -/
def move (o : Oracle α) : WorkspaceM α Unit := do
  let engineTrial := (← get).trial
  let found ← LineSearch.backtrack o
  let w ← get
  let isLower := below (w.sampleAt engineTrial).objective.value? w.currentSample.objective.value?
  match found with
  | some id => set { w with current := id }
  | none =>
    if isLower then set { w with current := engineTrial }
    else
      set { w with
        radii := ⟨w.radii.stationarity * LineSearch.ratio, w.radii.trust * LineSearch.ratio⟩ }

/-- The line of an iteration that is complete. -/
def iterationLine (number : Nat) (s : SearchState α) : DescentLine α :=
  .iteration number s.engine.report.lines.back? s.workspace.currentSample.objective.value?

/-- Iterates, at most as often as the first argument says; the second numbers the iterations. -/
def iterate (setting : Setting α) (tolerance : α) : Nat → Nat → SearchM α (Record α)
  | 0, _ => return {}
  | fuel + 1, number => do
    let outcome ← Search.conclude setting
    let asked := Search.consultations (← get).journal
    if outcome ≠ .success then return ⟨[.stopped outcome], asked⟩
    Search.onWorkspace (move setting.oracle)
    let line := iterationLine number (← get)
    if (← get).workspace.radii.stationarity ≤ tolerance then return ⟨[line], asked⟩
    let rest ← iterate setting tolerance fuel (number + 1)
    return ⟨line :: rest.lines, asked ++ rest.consultations⟩

/-- The whole descent with its heading and its totals. -/
def descend (setting : Setting α) (iterations : Nat) (tolerance : α) : SearchM α (Record α) := do
  let made ← iterate setting tolerance iterations 0
  let w ← Search.workspace
  let totals : DescentLine α := .totals w.objectiveEvaluations w.gradientEvaluations
    w.totalInnerIterations w.totalMinimizerIterations
  return { made with lines := .heading :: made.lines ++ [totals] }

/-- A descent from a start point on the nonsmooth Rosenbrock function. -/
def run (clock : Nat → α) (minimizer : Minimizer α) (start : Nested α) (iterations : Nat)
    (tolerance : α) : Except (Fault α) (SearchState α × Record α) := do
  let setting := setting clock minimizer
  let workspace ← Workspace.create setting.oracle.dimension clock {} start
  match descend setting iterations tolerance { workspace, engine := {} } with
  | .ok made state => return (state, made)
  | .error fault _ => throw fault

end Descent

end NonsmoothDescent
