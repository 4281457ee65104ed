import NonsmoothDescent.Search.State

/-!
# Single steps of a direction search

Loading cuts into the solver, solving and taking the step, falling back to the cut
at the current point, testing a trial point, making a cut at it, and reporting.
-/

namespace NonsmoothDescent.Search

variable {α : Type} [Scalar α]

/-- The figures of a report line. -/
def figures (w : Workspace α) (e : Engine α) : Figures α :=
  let s := e.solverFor w.dimension
  { innerIterations := w.innerIterations
    cuts := s.cuts
    minimizerIterations := w.minimizerIterations
    status := s.status
    optimalityError := s.optimalityError
    stepNorm := s.stepNormInf
    quadraticValue := s.quadraticValue }

/-- Buffers a report line. -/
def report (kind : LineKind) (line : ProgressLine α) : SearchM α Unit :=
  modifyEngine fun e => { e with report := e.report.add kind line }

/-- Emits all buffered lines. -/
def flushReport : SearchM α Unit := do
  let (flushed, emitted) := (← engine).report.flush
  modifyEngine fun e => { e with report := flushed }
  note (emitted.map fun (kind, line) => .reported kind line)

/-- Counts a solve's work, takes its step as direction and makes the full step the trial. -/
def takeStep (s : Solver α) : WorkspaceM α Unit := do
  Workspace.countMinimizer s.iterations
  Workspace.countInner 1
  Workspace.setDirection (Tensor.ofVector s.step)
  Workspace.makeTrial 1

/-- Loads cuts into the solver and makes them the active ones. -/
def load (cuts : List (Cut α)) (active : ActiveCuts α) : SearchM α Unit := do
  let w ← workspace
  let slopes ← orFault (cuts.mapM (Cut.coefficient w.pointAt))
  let loaded ← orFault ((← solver).load slopes (cuts.map Cut.bias))
  setSolver loaded
  modifyEngine fun e => { e with active }

/-- Solves, cold or warm, and takes the step. -/
def solve (setting : Setting α) (warm : Bool) : SearchM α SolveStatus := do
  let s ← solver
  let ask := setting.minimizer (← engine).consultations
  let solved := if warm then s.solveWarm ask else s.solve ask
  setSolver solved.solver
  note solved.notices
  if let some consultation := solved.consultation then
    modifyEngine fun e => { e with consultations := e.consultations + 1 }
    record fun _ => .consulted consultation
  modifyEngine fun e => { e with solves := e.solves + 1 }
  onWorkspace (takeStep solved.solver)
  record .solved
  return solved.solver.status

/-- Solves with the cut at the current point alone. -/
def fallBack (setting : Setting α) : SearchM α (List (Cut α)) := do
  note [.fallingBack (← solver).status]
  let cut ← orFault (Cut.atCurrent (← workspace).currentSample)
  load [cut] (.own [cut])
  let status ← solve setting false
  if status ≠ .success then note [.fallbackFailed status]
  return [cut]

/-- What the model predicts for the full step; half the squared length of the step, in
exact arithmetic. -/
def modelDecrease (s : Solver α) : α :=
  Scalar.lesser s.quadraticValue (Scalar.greater s.combinationNormSq s.stepNormSq)

/-- Whether the trial point is lower than the current point by a sufficient share of
what the model predicts. -/
def decreases (options : Options α) (w : Workspace α) (s : Solver α) (stepsize : α) : Bool :=
  match w.trialSample.objective.value?, w.currentSample.objective.value? with
  | some trial, some current =>
    decide (trial - current < -options.acceptanceTolerance * stepsize * modelDecrease s)
  | _, _ => false

/-- Asks the radius rule, which may change the radii; the result is whether it fires. -/
def askRule (setting : Setting α) : SearchM α Bool := do
  let s ← solver
  let e ← engine
  let w ← workspace
  let norm := s.combinationNormInf
  let (ruleRecord, radii) := setting.rule.ask e.ruleRecord w.radii s.status norm
  modifyEngine fun e => { e with ruleRecord }
  onWorkspace (modify fun w => { w with radii })
  if ruleRecord.fired then note [.radiiUpdated norm radii.stationarity]
  return ruleRecord.fired

/-- Whether the search may end at the trial point: it decreases the objective enough, or
the radius rule fires. The rule is asked in any case. -/
def accepts (setting : Setting α) (evaluated : Bool) (stepsize : α) : SearchM α Bool := do
  let fired ← askRule setting
  record (.tested · evaluated)
  return (evaluated && decreases setting.options (← workspace) (← solver) stepsize) || fired

/-- Adds the trial point to the bundle and makes a cut at it, if objective and gradient
are known there. -/
def trialCut (setting : Setting α) (evaluated : Bool) : SearchM α (List (Cut α)) := do
  if !evaluated then return []
  let id := (← workspace).trial
  if !(← onWorkspace (Workspace.evaluateGradient setting.oracle id true)) then return []
  let place ← onWorkspace (Workspace.addToBundle id)
  let w ← workspace
  let cut ← orFault
    (Cut.atPoint (w.sampleAt id) w.currentSample place setting.options.downshift)
  return [cut]

end NonsmoothDescent.Search
