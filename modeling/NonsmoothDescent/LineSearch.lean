import NonsmoothDescent.Workspace

/-!
# Line search

Along the direction, stepsizes are halved from one down to the smallest that is
allowed. The first one is taken whose trial point can be evaluated and lies below
the current value by a small multiple of stepsize times squared length of the
direction. Stepsizes are tried from long to short, so the longest acceptable one wins.
-/

namespace NonsmoothDescent.LineSearch

variable {α : Type} [Scalar α]

/-- Share of stepsize times squared length by which the objective must fall. -/
def share : α := 0.0001

/-- Factor from one stepsize to the next. -/
def ratio : α := 0.5

/-- Smallest stepsize that is tried. -/
def leastStepsize : α := 0.00000001

/-- The stepsizes from the given one on, at most as many as the first argument says. -/
def stepsizesFrom : Nat → α → List α
  | 0, _ => []
  | fuel + 1, a => if leastStepsize ≤ a then a :: stepsizesFrom fuel (a * ratio) else []

/-- All stepsizes. The twenty-eighth halving of one is below the smallest allowed. -/
def stepsizes : List α := stepsizesFrom 28 1

/-- Whether a trial value is low enough. Against an unknown current value any is, unless
the demand itself is not finite. -/
def isLower (trial current : Option α) (stepsize slope : α) : Bool :=
  let demand := share * stepsize * slope
  match trial, current with
  | some trial, some current => decide (trial < current - demand)
  | some _, none => Scalar.isFinite demand
  | none, _ => false

/-- Tries one stepsize: the trial point is made, evaluated, and compared. -/
def attempt (o : Oracle α) (current : Option α) (slope stepsize : α) : WorkspaceM α Bool := do
  Workspace.makeTrial stepsize
  let id := (← get).trial
  if ← Workspace.evaluateObjective o id true then
    return isLower ((← get).sampleAt id).objective.value? current stepsize slope
  else return false

/-- Tries stepsizes in order. The trial point of the first acceptable one is the result. -/
def firstAcceptable (o : Oracle α) (current : Option α) (slope : α) :
    List α → WorkspaceM α (Option SampleId)
  | [] => return none
  | stepsize :: rest => do
    if ← attempt o current slope stepsize then return some (← get).trial
    else firstAcceptable o current slope rest

/-- Searches along the direction from the current point. -/
def backtrack (o : Oracle α) : WorkspaceM α (Option SampleId) := do
  let w ← get
  firstAcceptable o w.currentSample.objective.value? (Vec.normSq w.direction) stepsizes

end NonsmoothDescent.LineSearch
