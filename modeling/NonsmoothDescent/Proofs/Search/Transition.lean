import NonsmoothDescent.Proofs.Search.Quiet

/-!
# The search as a transition system

The stages that a direction search goes through, and the steps from one to the next. A
step is one operation of the search, or one of its decisions; solves, acceptance tests
and the beginnings of rounds each end a step, so that everything the journal tells of is
a state that the system reaches. What holds throughout every search is proved by
induction along the steps.
-/

namespace NonsmoothDescent

variable {α : Type} [Scalar α]

/-- Why a solve was made. -/
inductive SolveKind (α : Type) where
  /-- For the gradient step. -/
  | gradient
  /-- With the cuts of all near points. -/
  | full
  /-- With the aggregated cuts. -/
  | aggregated
  /-- With the full cuts, to end aggregation; the engine does not know yet. -/
  | switching
  /-- The same, once the engine knows. -/
  | switched
  /-- Warm, with new cuts behind the old ones. -/
  | warm
  /-- In place of a solve that failed: the first one on all near points, or a later one. -/
  | fallback (plane : Plane α) (first : Bool)

/-- A solve within a round, other than a fallback, with all its consequences drawn. -/
inductive SolveKind.InRound : SolveKind α → Prop where
  | aggregated : InRound .aggregated
  | switched : InRound .switched
  | warm : InRound .warm

/-- Where a search is. -/
inductive Stage (α : Type) where
  /-- The current point is evaluated and the solver configured. -/
  | ready
  /-- A solve was made. -/
  | solved (kind : SolveKind α)
  /-- The gradient step was tested. -/
  | gradientTested (accepted : Bool)
  /-- There is no gradient step, or it was rejected. -/
  | opened
  /-- A round is to begin. -/
  | round (first : Bool)
  /-- A round has begun and its trial point been evaluated. -/
  | begun (first evaluated : Bool)
  /-- The full step was tested. -/
  | tested (evaluated accepted : Bool)
  /-- The full step was rejected, and no limit is reached. -/
  | rejected (evaluated : Bool)
  /-- Aggregation has been done if it goes on. -/
  | sampling (aggregating evaluated : Bool)
  /-- The full step has given these cuts. -/
  | sampled (aggregating : Bool) (cuts : List (Cut α))
  /-- The shortened step was tested. -/
  | shortTested (aggregating : Bool) (cuts : List (Cut α)) (evaluated accepted : Bool)
  /-- Both steps have given these cuts. -/
  | chosen (aggregating : Bool) (added : List (Cut α))
  /-- The cuts were added to the lists. -/
  | augmented (aggregating : Bool) (added : List (Cut α))
  /-- The search has ended. -/
  | ended (outcome : Outcome)

namespace Engine

/-- Whether the next round aggregates cuts. -/
def aggregating (e : Engine α) (options : Options α) : Bool :=
  options.tryAggregation && !e.switched

end Engine

namespace SearchState

/-- The state after the radius rule was asked and the test recorded. -/
def tested (setting : Setting α) (evaluated : Bool) (s : SearchState α) : SearchState α :=
  (s.on (s.asked setting)).logged (.tested · evaluated)

/-- Whether the trial is acceptable. -/
def passes (setting : Setting α) (evaluated : Bool) (stepsize : α) (s : SearchState α) : Bool :=
  (s.asked setting).accepting setting evaluated stepsize

/-- The state after a cold solve with planes in place of the solver's. -/
def resolved (setting : Setting α) (planes : List (Plane α)) (active : ActiveCuts α)
    (s : SearchState α) : SearchState α :=
  (s.on (s.loaded planes active)).solved setting false

/-- The state after a warm solve with planes behind the solver's. -/
def continued (setting : Setting α) (planes : List (Plane α)) (s : SearchState α) :
    SearchState α :=
  (s.on (s.extended planes)).solved setting true

end SearchState

namespace Engine

/-- The collected cuts are the full cuts. -/
def collected (e : Engine α) (cuts : List (Cut α)) : Engine α := { e with fullCuts := cuts }

/-- The rounds start with the full cuts as the aggregated ones. -/
def entered (e : Engine α) : Engine α := { e with aggregatedCuts := e.fullCuts }

/-- The search has gone over to the full cuts. -/
def marked (e : Engine α) : Engine α := { e with switched := true }

/-- New cuts go to the full cuts, and to the aggregated ones while aggregation goes on. -/
def augmented (e : Engine α) (aggregating : Bool) (added : List (Cut α)) : Engine α :=
  { e with
    fullCuts := e.fullCuts ++ added
    aggregatedCuts := if aggregating then e.aggregatedCuts ++ added else e.aggregatedCuts }

/-- After a fallback its cut is all there is. -/
def restarted (e : Engine α) (cut : Cut α) : Engine α :=
  { e with fullCuts := [cut], aggregatedCuts := [cut], active := .full }

end Engine

/-- The length of the shortened step. -/
def shortStepsize (options : Options α) (radius norm : α) : α :=
  options.shortenedStepsize * Scalar.lesser radius norm / norm

open Search in
/-- One step of a search. -/
inductive Step (setting : Setting α) :
    Stage α → SearchState α → Stage α → SearchState α → Prop where
  /-- The cut at the current point alone gives a direction for the gradient step. -/
  | solveGradient {s : SearchState α} {plane : Plane α}
      (hon : setting.options.tryGradientStep = true)
      (hcurrent : s.workspace.CurrentPlane plane) :
      Step setting .ready s (.solved .gradient)
        (s.resolved setting [plane] (.own [plane.toCut]))
  | testGradient {s s₁ : SearchState α} {evaluated : Bool}
      (htry : tryStep setting setting.options.gradientStepsize s = .ok evaluated s₁) :
      Step setting (.solved .gradient) s
        (.gradientTested (s₁.passes setting evaluated setting.options.gradientStepsize))
        (s₁.tested setting evaluated)
  | acceptGradient {s s₁ : SearchState α} (hnote : note [.gradientStepAccepted] s = .ok () s₁) :
      Step setting (.gradientTested true) s (.ended .success) s₁
  | rejectGradient {s : SearchState α} : Step setting (.gradientTested false) s .opened s
  | omitGradient {s : SearchState α} (hoff : setting.options.tryGradientStep = false) :
      Step setting .ready s .opened s
  /-- The cuts of all near points are the full cuts. -/
  | solveFull {s s₁ s₂ : SearchState α} {cuts : List (Cut α)} {planes : List (Plane α)}
      (hcollect : collectCuts setting s = .ok cuts s₁)
      (hnote : note [.cutSetBuilt cuts.length s₁.workspace.bundle.size] s₁ = .ok () s₂)
      (hplanes : Cut.DenoteAll s₂.workspace cuts planes) :
      Step setting .opened s (.solved .full)
        ((s₂.withEngine (·.collected cuts)).resolved setting planes .full)
  | enterLoop {s : SearchState α} (hstatus : s.solver.status = .success) :
      Step setting (.solved .full) s (.round true)
        (s.withEngine Engine.entered)
  | markSwitch {s : SearchState α} :
      Step setting (.solved .switching) s (.solved .switched)
        (s.withEngine Engine.marked)
  | nextRound {s : SearchState α} {kind : SolveKind α} (hkind : kind.InRound)
      (hstatus : s.solver.status = .success) :
      Step setting (.solved kind) s (.round false) s
  | failSolver {s : SearchState α} {kind : SolveKind α} (hkind : kind = .full ∨ kind.InRound)
      (hstatus : s.solver.status ≠ .success)
      (hfail : setting.options.failOnSolverFailure = true) :
      Step setting (.solved kind) s (.ended .solverFailure) s
  /-- A solve that failed is replaced by one with the cut at the current point alone. -/
  | fallBack {s s₁ : SearchState α} {kind : SolveKind α} {plane : Plane α} {first : Bool}
      (hkind : kind = .full ∧ first = true ∨ kind.InRound ∧ first = false)
      (hstatus : s.solver.status ≠ .success)
      (hgo : setting.options.failOnSolverFailure = false)
      (hnote : note [.fallingBack s.solver.status] s = .ok () s₁)
      (hcurrent : s₁.workspace.CurrentPlane plane) :
      Step setting (.solved kind) s (.solved (.fallback plane first))
        (s₁.resolved setting [plane] (.own [plane.toCut]))
  | restart {s s₁ : SearchState α} {plane : Plane α} {first : Bool}
      (hnote : note (if s.solver.status = .success then [] else [.fallbackFailed s.solver.status])
        s = .ok () s₁) :
      Step setting (.solved (.fallback plane first)) s (.round first)
        (s₁.withEngine (·.restarted plane.toCut))
  | beginRound {s s₁ s₂ : SearchState α} {first evaluated : Bool}
      (hflush : flushReport (s.logged .roundBegan) = .ok () s₁)
      (hevaluate : onWorkspace (Workspace.evaluateTrial setting.oracle) s₁ = .ok evaluated s₂) :
      Step setting (.round first) s (.begun first evaluated) s₂
  | failTrial {s s₁ : SearchState α} (hnote : note [.firstTrialNotEvaluated] s = .ok () s₁) :
      Step setting (.begun true false) s (.ended .evaluationFailure) s₁
  | testFull {s : SearchState α} {first evaluated : Bool} (h : first = true → evaluated = true) :
      Step setting (.begun first evaluated) s (.tested evaluated (s.passes setting evaluated 1))
        (s.tested setting evaluated)
  | acceptFull {s : SearchState α} {evaluated : Bool} :
      Step setting (.tested evaluated true) s (.ended .success) s
  | reachLimit {s : SearchState α} {evaluated : Bool}
      (hlimit : (setting.options.iterationLimit : Int) < s.workspace.innerIterations) :
      Step setting (.tested evaluated false) s
        (.ended (if setting.options.failOnIterationLimit then .iterationLimit else .success)) s
  | runOut {s s₁ : SearchState α} {evaluated : Bool} {time : α}
      (hlimit : ¬ (setting.options.iterationLimit : Int) < s.workspace.innerIterations)
      (hclock : onWorkspace (Workspace.elapsed setting.clock) s = .ok time s₁)
      (htime : s.workspace.timeLimit ≤ time) :
      Step setting (.tested evaluated false) s (.ended .timeLimit) s₁
  | goOn {s s₁ : SearchState α} {evaluated : Bool} {time : α}
      (hlimit : ¬ (setting.options.iterationLimit : Int) < s.workspace.innerIterations)
      (hclock : onWorkspace (Workspace.elapsed setting.clock) s = .ok time s₁)
      (htime : ¬ s.workspace.timeLimit ≤ time) :
      Step setting (.tested evaluated false) s (.rejected evaluated) s₁
  | aggregate {s s₁ : SearchState α} {evaluated : Bool}
      (hon : s.engine.aggregating setting.options = true)
      (haggregate : aggregate s = .ok () s₁) :
      Step setting (.rejected evaluated) s (.sampling true evaluated) s₁
  | omitAggregation {s : SearchState α} {evaluated : Bool}
      (hoff : s.engine.aggregating setting.options = false) :
      Step setting (.rejected evaluated) s (.sampling false evaluated) s
  /-- A step that is not too long gives a cut if it can be evaluated. -/
  | sampleFull {s s₁ : SearchState α} {aggregating evaluated : Bool} {cuts : List (Cut α)}
      (hnear : setting.options.addFarPoints = true ∨
        s.solver.stepNormInf ≤ s.workspace.radii.stationarity)
      (hcut : trialCut setting evaluated s = .ok cuts s₁) :
      Step setting (.sampling aggregating evaluated) s (.sampled aggregating cuts) s₁
  | omitFull {s : SearchState α} {aggregating evaluated : Bool}
      (hfar : ¬ (setting.options.addFarPoints = true ∨
        s.solver.stepNormInf ≤ s.workspace.radii.stationarity)) :
      Step setting (.sampling aggregating evaluated) s (.sampled aggregating []) s
  | testShort {s s₁ : SearchState α} {aggregating evaluated : Bool} {cuts : List (Cut α)}
      (hon : setting.options.tryShortenedStep = true) (hnorm : ¬ s.solver.stepNormInf ≤ 0)
      (htry : tryStep setting (shortStepsize setting.options s.workspace.radii.stationarity
        s.solver.stepNormInf) s = .ok evaluated s₁) :
      Step setting (.sampled aggregating cuts) s
        (.shortTested aggregating cuts evaluated (s₁.passes setting evaluated 1))
        (s₁.tested setting evaluated)
  | omitShort {s : SearchState α} {aggregating : Bool} {cuts : List (Cut α)}
      (hoff : setting.options.tryShortenedStep = false ∨ s.solver.stepNormInf ≤ 0) :
      Step setting (.sampled aggregating cuts) s (.chosen aggregating cuts) s
  | acceptShort {s s₁ : SearchState α} {aggregating evaluated : Bool} {cuts : List (Cut α)}
      {stepsize : α} (hnote : note [.shortenedStepAccepted stepsize] s = .ok () s₁) :
      Step setting (.shortTested aggregating cuts evaluated true) s (.ended .success) s₁
  | sampleShort {s s₁ : SearchState α} {aggregating evaluated : Bool} {cuts new : List (Cut α)}
      (hcut : trialCut setting evaluated s = .ok new s₁) :
      Step setting (.shortTested aggregating cuts evaluated false) s
        (.chosen aggregating (cuts ++ new)) s₁
  | augment {s s₁ : SearchState α} {aggregating : Bool} {added : List (Cut α)}
      (hreport : reportRound setting (s.withEngine (·.augmented aggregating added)) =
        .ok () s₁) :
      Step setting (.chosen aggregating added) s (.augmented aggregating added) s₁
  | solveAggregated {s : SearchState α} {added : List (Cut α)} {threshold : Int}
      {planes : List (Plane α)}
      (hthreshold : pointThreshold setting.options s.workspace.dimension = .ok threshold)
      (hfew : (s.workspace.bundle.size : Int) < threshold)
      (hplanes : Cut.DenoteAll s.workspace s.engine.aggregatedCuts planes) :
      Step setting (.augmented true added) s (.solved .aggregated)
        (s.resolved setting planes .aggregated)
  /-- With enough points aggregation ends: the full cuts take over. -/
  | solveSwitching {s s₁ : SearchState α} {added : List (Cut α)} {threshold : Int}
      {planes : List (Plane α)}
      (hthreshold : pointThreshold setting.options s.workspace.dimension = .ok threshold)
      (hmany : ¬ (s.workspace.bundle.size : Int) < threshold)
      (hnote : note [.switchedToFull s.workspace.bundle.size threshold] s = .ok () s₁)
      (hplanes : Cut.DenoteAll s₁.workspace s₁.engine.fullCuts planes) :
      Step setting (.augmented true added) s (.solved .switching)
        (s₁.resolved setting planes .full)
  | solveWarm {s : SearchState α} {added : List (Cut α)} {threshold : Int}
      {planes : List (Plane α)}
      (hthreshold : pointThreshold setting.options s.workspace.dimension = .ok threshold)
      (hplanes : Cut.DenoteAll s.workspace added planes) :
      Step setting (.augmented false added) s (.solved .warm) (s.continued setting planes)

/-- The stages and states that a search reaches from its start. -/
inductive Reached (setting : Setting α) (start : SearchState α) :
    Stage α → SearchState α → Prop where
  | start : Reached setting start .ready start
  | step {a b : Stage α} {s t : SearchState α} (h : Reached setting start a s)
      (hstep : Step setting a s b t) : Reached setting start b t

end NonsmoothDescent
