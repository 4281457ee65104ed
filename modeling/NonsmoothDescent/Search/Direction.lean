import NonsmoothDescent.Search.Step

/-!
# The direction search

A search evaluates the current point and, if that is asked for, tries a short step
against its gradient. It then collects the cuts of all near points and solves. Each
round of the inner loop tests the trial point, adds cuts at the trial and at a
shortened step, and solves again: with aggregated cuts while aggregation goes on,
then once with the full cuts, and from then on warm with the new cuts added. A solve
that fails is replaced by one with the cut at the current point alone.

A search ends with an outcome; direction and trial point are then those of the last
solve, or the shortened trial that was accepted. Every round makes a solve, so the
rounds are bounded by the limit on inner iterations.
-/

namespace NonsmoothDescent.Search

variable {α : Type} [Scalar α]

/-- Solves with the cut at the current point and tries a short step along the result. -/
def gradientStep (setting : Setting α) : SearchM α (Option Outcome) := do
  let cut ← orFault (Cut.atCurrent (← workspace).currentSample)
  load [cut] (.own [cut])
  let _ ← solve setting false
  let stepsize := setting.options.gradientStepsize
  onWorkspace (Workspace.makeTrial stepsize)
  let evaluated ← onWorkspace (Workspace.evaluateTrial setting.oracle)
  if ← accepts setting evaluated stepsize then
    note [.gradientStepAccepted]
    return some .success
  return none

/-- The cut at the bundle point with the given place, if the point can be evaluated. -/
def nearCut (setting : Setting α) (place : Nat) : SearchM α (List (Cut α)) := do
  match (← workspace).bundle[place]? with
  | none => return []
  | some id =>
    if ← onWorkspace (Workspace.evaluateBoth setting.oracle id true) then
      let w ← workspace
      let cut ← orFault
        (Cut.atPoint (w.sampleAt id) w.currentSample place setting.options.downshift)
      return [cut]
    else return []

/-- The cut at the current point and those at all near points that can be evaluated. The
near places are found before any of them is evaluated. They could as well be found one by
one in between: an evaluation changes neither a position nor the bundle nor the radius. -/
def collectCuts (setting : Setting α) : SearchM α (List (Cut α)) := do
  let w ← workspace
  let first ← orFault (Cut.atCurrent w.currentSample)
  let places ← orFault (Cut.near w.currentSample.position w.radii.stationarity w.points)
  places.foldlM (fun cuts place => do return cuts ++ (← nearCut setting place)) [first]

/-- What follows a solve: nothing if it succeeded; otherwise the search ends or goes on
with the cut at the current point alone. -/
def settle (setting : Setting α) (status : SolveStatus) (resetAggregated : Bool) :
    SearchM α (Option Outcome) := do
  if status = .success then return none
  if setting.options.failOnSolverFailure then return some .solverFailure
  let cuts ← fallBack setting
  modifyEngine fun e => { e with
    fullCuts := cuts
    active := .full
    aggregatedCuts := if resetAggregated then cuts else e.aggregatedCuts }
  return none

/-- Solves with the cuts of all near points. -/
def solveFull (setting : Setting α) : SearchM α (Option Outcome) := do
  let cuts ← collectCuts setting
  note [.cutSetBuilt cuts.length (← workspace).bundle.size]
  modifyEngine fun e => { e with fullCuts := cuts }
  load cuts .full
  settle setting (← solve setting false) false

/-- Ends the search if the full step is acceptable or a limit is reached. -/
def acceptanceAndLimits (setting : Setting α) (evaluated : Bool) :
    SearchM α (Option Outcome) := do
  if ← accepts setting evaluated 1 then return some .success
  let w ← workspace
  if (setting.options.iterationLimit : Int) < w.innerIterations then
    return some (if setting.options.failOnIterationLimit then .iterationLimit else .success)
  if w.timeLimit ≤ (← onWorkspace (Workspace.elapsed setting.clock)) then
    return some .timeLimit
  return none

/-- Replaces the aggregated cuts by the cut at the current point and their combination
with the weights of the last solve. -/
def aggregate : SearchM α Unit := do
  let w ← workspace
  let e ← engine
  let (cuts, notices) ← orFault
    (Cut.aggregate w.pointAt w.currentSample (← solver).weights e.aggregatedCuts)
  note notices
  modifyEngine (Engine.replaceAggregated · cuts)

/-- Aggregates if aggregation goes on. -/
def aggregateIf (aggregating : Bool) : SearchM α Unit := if aggregating then aggregate else pure ()

/-- The cut at the full step, unless the step is too long. -/
def fullStep (setting : Setting α) (evaluated : Bool) : SearchM α (List (Cut α)) := do
  let isNear := decide ((← solver).stepNormInf ≤ (← workspace).radii.stationarity)
  if setting.options.addFarPoints || isNear then trialCut setting evaluated else return []

/-- Tries a shortened step if that is asked for; the result is whether it is accepted, and
its cut if not. -/
def shortenedStep (setting : Setting α) : SearchM α (Bool × List (Cut α)) := do
  if !setting.options.tryShortenedStep then return (false, [])
  let norm := (← solver).stepNormInf
  if norm ≤ 0 then return (false, [])
  let radius := (← workspace).radii.stationarity
  let stepsize := setting.options.shortenedStepsize * Scalar.lesser radius norm / norm
  onWorkspace (Workspace.makeTrial stepsize)
  let evaluated ← onWorkspace (Workspace.evaluateTrial setting.oracle)
  if ← accepts setting evaluated 1 then
    note [.shortenedStepAccepted stepsize]
    return (true, [])
  return (false, ← trialCut setting evaluated)

/-- The number of points at which aggregation ends: a whole number of points per
variable, rounded down. -/
def pointThreshold (options : Options α) (dimension : Nat) : Except (Fault α) Int :=
  let threshold := options.aggregationThreshold * Scalar.ofInt dimension
  if Scalar.isFinite threshold then .ok (Scalar.truncate threshold) else .error .tooLarge

/-- Solves again after cuts were added. -/
def solveAgain (setting : Setting α) (added : List (Cut α)) (aggregating : Bool) :
    SearchM α (Option Outcome) := do
  let w ← workspace
  let threshold ← orFault (pointThreshold setting.options w.dimension)
  if aggregating && decide ((w.bundle.size : Int) < threshold) then
    load (← engine).aggregatedCuts .aggregated
    settle setting (← solve setting false) true
  else if aggregating then
    note [.switchedToFull w.bundle.size threshold]
    load (← engine).fullCuts .full
    let status ← solve setting false
    modifyEngine fun e => { e with switched := true }
    settle setting status true
  else
    let slopes ← orFault (added.mapM (Cut.coefficient w.pointAt))
    let extended ← orFault ((← solver).extend slopes (added.map Cut.bias))
    setSolver extended
    modifyEngine fun e => { e with active := .full }
    settle setting (← solve setting true) true

/-- Buffers the lines of a round whose step was rejected. -/
def reportRound (setting : Setting α) : SearchM α Unit := do
  report .innerIteration (.inner (figures (← workspace) (← engine)))
  let blank := setting.rule.blankAfter (← engine).report.size
  if !blank.isEmpty then report .innerIteration (.blank blank)

/-- The part of a round after its step was rejected. -/
def improve (setting : Setting α) (evaluated : Bool) : SearchM α (Option Outcome) := do
  let aggregating := setting.options.tryAggregation && !(← engine).switched
  aggregateIf aggregating
  let fullStepCuts ← fullStep setting evaluated
  let (accepted, shortCuts) ← shortenedStep setting
  if accepted then return some .success
  let added := fullStepCuts ++ shortCuts
  modifyEngine fun e => { e with
    fullCuts := e.fullCuts ++ added
    aggregatedCuts := if aggregating then e.aggregatedCuts ++ added else e.aggregatedCuts }
  reportRound setting
  solveAgain setting added aggregating

/-- One round of the inner loop. -/
def round (setting : Setting α) (first : Bool) : SearchM α (Option Outcome) := do
  record .roundBegan
  flushReport
  let evaluated ← onWorkspace (Workspace.evaluateTrial setting.oracle)
  if !evaluated && first then
    note [.firstTrialNotEvaluated]
    return some .evaluationFailure
  match ← acceptanceAndLimits setting evaluated with
  | some outcome => return some outcome
  | none => improve setting evaluated

/-- Rounds until one ends the search, at most as many as the first argument says. -/
def rounds (setting : Setting α) : Nat → Bool → SearchM α Outcome
  | 0, _ => throw .unsettled
  | fuel + 1, first => do
    match ← round setting first with
    | some outcome => return outcome
    | none => rounds setting fuel false

/-- The search proper. -/
def seek (setting : Setting α) : SearchM α Outcome := do
  let w ← workspace
  if !(← onWorkspace (Workspace.evaluateBoth setting.oracle w.current true)) then
    note [.currentNotEvaluated]
    return .evaluationFailure
  let s ← solver
  setSolver ((s.setRadius (some w.radii.trust)).setInexactness w.radii.stationarity)
  if setting.options.tryGradientStep then
    if let some outcome ← gradientStep setting then return outcome
  if let some outcome ← solveFull setting then return outcome
  modifyEngine fun e => { e with aggregatedCuts := e.fullCuts }
  rounds setting (setting.options.iterationLimit + 2) true

/-- Prepares workspace and engine for a search. -/
def prepare : SearchM α Unit := do
  modifyEngine fun e => { e with outcome := .unset }
  setSolver (← solver).clearStep
  onWorkspace Workspace.resetCounters
  onWorkspace Workspace.resetTrial
  modifyEngine fun e => { e with
    fullCuts := [], aggregatedCuts := [], active := .own [], switched := false, solves := 0 }
  modify fun s => { s with journal := #[] }

/-- Accounts for a search that began at the given time: outcome, summary line, totals and
time spent. -/
def account (setting : Setting α) (start : α) (outcome : Outcome) : SearchM α Unit := do
  modifyEngine fun e => { e with outcome }
  report .iteration (.summary (figures (← workspace) (← engine)))
  flushReport
  onWorkspace Workspace.addTotals
  let stop ← onWorkspace (Workspace.readClock setting.clock)
  onWorkspace (Workspace.addSearchTime (stop - start))
  let w ← workspace
  note [.finished outcome w.innerIterations w.minimizerIterations (← engine).solves w.bundle.size]

/-- Searches for a direction and accounts for the search in the workspace. -/
def conclude (setting : Setting α) : SearchM α Outcome := do
  prepare
  let start ← onWorkspace (Workspace.readClock setting.clock)
  let outcome ← seek setting
  account setting start outcome
  return outcome

/-- Searches for a direction. Reaching the time limit is a fault. -/
def computeDirection (setting : Setting α) : SearchM α Outcome := do
  let outcome ← conclude setting
  if outcome = .timeLimit then throw .timeLimitReached
  return outcome

/-- Takes the step of the engine's solver once more. -/
def retakeStep : SearchM α Unit := do
  match (← engine).solver with
  | some s => onWorkspace (takeStep s)
  | none => throw .missingSolver

end NonsmoothDescent.Search
