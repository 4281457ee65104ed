import NonsmoothDescent.Cut
import NonsmoothDescent.RadiusRule

/-!
# The workspace

An outer solver and the direction search share a workspace: every sample made so
far, which of them are the current point, the trial point and the bundle of sampled
points, the direction, the radii, counters, and the time budget. Samples are only
ever added, and a sample is known by its number in the table, so that one sample can
be current point, trial point and bundle point at once and what is learned of it is
learned everywhere. Operations on a workspace may stop with a fault and then leave
it as it was at that moment.
-/

namespace NonsmoothDescent

/-- A sample's number in the table. -/
abbrev SampleId := Nat

/-- The state shared by an outer solver and the direction search. -/
structure Workspace (α : Type) where
  /-- The number of variables. -/
  dimension : Nat
  /-- Every sample made so far. -/
  samples : Array (Sample α)
  /-- The bundle of sampled points, in order. -/
  bundle : Array SampleId := #[]
  /-- The current point. -/
  current : SampleId := 0
  /-- The trial point. -/
  trial : SampleId := 0
  /-- The direction. -/
  direction : List α
  /-- The radii. -/
  radii : Radii α
  /-- Whether evaluating a trial point includes its gradient. -/
  jointEvaluation : Bool := false
  /-- Inner iterations since the last reset. -/
  innerIterations : Int := 0
  /-- Minimizer iterations since the last reset. -/
  minimizerIterations : Int := 0
  /-- Inner iterations added up. -/
  totalInnerIterations : Int := 0
  /-- Minimizer iterations added up. -/
  totalMinimizerIterations : Int := 0
  /-- First evaluations of objectives. -/
  objectiveEvaluations : Nat := 0
  /-- First evaluations of gradients. -/
  gradientEvaluations : Nat := 0
  /-- Readings of the clock. -/
  clockReadings : Nat := 0
  /-- Clock reading from which time is counted. -/
  startTime : α
  /-- Time that a run may take. -/
  timeLimit : α
  /-- Time spent in direction searches. -/
  searchTime : α
  /-- Everything noticed, in order. -/
  notices : Array (Notice α) := #[]

/-- Operations on a workspace. -/
abbrev WorkspaceM (α : Type) := EStateM (Fault α) (Workspace α)

/-- Values that a workspace starts with. -/
structure WorkspaceSettings (α : Type) [Scalar α] where
  /-- The stationarity radius. -/
  stationarity : α := 0.1
  /-- The trust-region radius. -/
  trust : α := 1.0
  /-- Time that a run may take. -/
  timeLimit : α := 10000.0
  /-- Clock reading from which time is counted; the present one if none is given. -/
  startTime : Option α := none
  /-- Whether evaluating a trial point includes its gradient. -/
  jointEvaluation : Bool := false

namespace Workspace

variable {α : Type}

/-- Stops with a fault, or goes on with a value. -/
def orFault {β : Type} : Except (Fault α) β → WorkspaceM α β
  | .ok value => pure value
  | .error fault => throw fault

/-- A sample that stands for none: both evaluations have failed. -/
def absentSample : Sample α := { position := [], objective := .failed, gradient := .failed }

/-- The sample with a number. -/
def sampleAt (w : Workspace α) (id : SampleId) : Sample α := w.samples.getD id absentSample

/-- The current point. -/
def currentSample (w : Workspace α) : Sample α := w.sampleAt w.current

/-- The trial point. -/
def trialSample (w : Workspace α) : Sample α := w.sampleAt w.trial

/-- The points of the bundle, in order. -/
def points (w : Workspace α) : List (Sample α) := w.bundle.toList.map w.sampleAt

/-- The bundle point at a position. -/
def pointAt (w : Workspace α) : PointLookup α := fun i =>
  (Position.resolve? w.bundle.size i).bind fun place => w.bundle[place]?.map w.sampleAt

/-- Adds a sample to the table and gives its number. -/
def addSample (s : Sample α) : WorkspaceM α SampleId := do
  let w ← get
  set { w with samples := w.samples.push s }
  return w.samples.size

/-- Makes a sample at the point that nested numbers form. -/
def makeSample (numbers : Nested α) : WorkspaceM α SampleId := do
  let s ← orFault (Sample.ofNested (← get).dimension numbers)
  addSample s

/-- Puts a sample at the end of the bundle and gives its position there. -/
def addToBundle (id : SampleId) : WorkspaceM α Nat := do
  let w ← get
  set { w with bundle := w.bundle.push id }
  return w.bundle.size

/-- Puts new samples into the table, and into the bundle too if that is asked for. -/
def withSamples (w : Workspace α) (samples : List (Sample α)) (inBundle : Bool) : Workspace α :=
  samples.foldl (fun w s =>
    { w with
      samples := w.samples.push s
      bundle := if inBundle then w.bundle.push w.samples.size else w.bundle }) w

/-- Records notices. -/
def note (notices : List (Notice α)) : WorkspaceM α Unit :=
  modify fun w => { w with notices := w.notices ++ notices }

/-- Reads the clock. -/
def readClock (clock : Nat → α) : WorkspaceM α α := do
  let w ← get
  set { w with clockReadings := w.clockReadings + 1 }
  return clock w.clockReadings

variable [Scalar α]

/-- A workspace at a start point. Radii and time limit are checked first, then the
start point; the clock is read last, and only if no start time is given. -/
def create (dimension : Nat) (clock : Nat → α) (settings : WorkspaceSettings α)
    (start : Nested α) : Except (Fault α) (Workspace α) := do
  if settings.stationarity ≤ 0 then throw (.stationarityRadiusNotPositive settings.stationarity)
  if settings.trust ≤ 0 then throw (.trustRadiusNotPositive settings.trust)
  if settings.timeLimit < 0 then throw (.timeLimitNegative settings.timeLimit)
  let first ← Sample.ofNested dimension start
  let (startTime, readings) := match settings.startTime with
    | some time => (time, 0)
    | none => (clock 0, 1)
  return {
    dimension
    samples := #[first]
    direction := Vec.zeros dimension
    radii := ⟨settings.stationarity, settings.trust⟩
    jointEvaluation := settings.jointEvaluation
    clockReadings := readings
    startTime
    timeLimit := settings.timeLimit
    searchTime := 0 }

/-- Evaluates the objective of a sample unless that has been done, and tells whether it
is known. A first evaluation is counted if that is asked for. -/
def evaluateObjective (o : Oracle α) (id : SampleId) (counted : Bool) : WorkspaceM α Bool := do
  let w ← get
  let s := w.sampleAt id
  let (evaluated, notices) := s.evaluateObjective o
  set { w with
    samples := w.samples.setIfInBounds id evaluated
    objectiveEvaluations :=
      if s.objective.isPending && counted then w.objectiveEvaluations + 1
      else w.objectiveEvaluations
    notices := w.notices ++ notices }
  return evaluated.objective.isKnown

/-- Evaluates the gradient of a sample unless that has been done, and tells whether it
is known. A first evaluation is counted if that is asked for. -/
def evaluateGradient (o : Oracle α) (id : SampleId) (counted : Bool) : WorkspaceM α Bool := do
  let w ← get
  let s := w.sampleAt id
  let (evaluated, notices) := s.evaluateGradient o
  set { w with
    samples := w.samples.setIfInBounds id evaluated
    gradientEvaluations :=
      if s.gradient.isPending && counted then w.gradientEvaluations + 1
      else w.gradientEvaluations
    notices := w.notices ++ notices }
  return evaluated.gradient.isKnown

/-- Evaluates the objective and, if it is known, the gradient. -/
def evaluateBoth (o : Oracle α) (id : SampleId) (counted : Bool) : WorkspaceM α Bool := do
  if ← evaluateObjective o id counted then evaluateGradient o id counted else return false

/-- Evaluates the trial point as the workspace asks for. -/
def evaluateTrial (o : Oracle α) : WorkspaceM α Bool := do
  let w ← get
  if w.jointEvaluation then evaluateBoth o w.trial true else evaluateObjective o w.trial true

/-- Makes the trial point: the current point plus a multiple of the direction. -/
def makeTrial (stepsize : α) : WorkspaceM α Unit := do
  let w ← get
  let s ← orFault
    (Sample.shifted w.dimension w.currentSample 1 stepsize (Tensor.ofVector w.direction))
  let id ← addSample s
  modify fun w => { w with trial := id }

/-- Makes the current point the trial point too. -/
def resetTrial : WorkspaceM α Unit := modify fun w => { w with trial := w.current }

/-- Replaces the direction. One entry fills all. -/
def setDirection (d : Tensor α) : WorkspaceM α Unit := do
  match d.fill? (← get).dimension with
  | some direction => modify fun w => { w with direction }
  | none => throw .sizeMismatch

/-- Counts inner iterations. -/
def countInner (k : Int) : WorkspaceM α Unit :=
  modify fun w => { w with innerIterations := w.innerIterations + k }

/-- Counts iterations of the minimizer. -/
def countMinimizer (k : Int) : WorkspaceM α Unit :=
  modify fun w => { w with minimizerIterations := w.minimizerIterations + k }

/-- Sets both iteration counters to zero. -/
def resetCounters : WorkspaceM α Unit :=
  modify fun w => { w with innerIterations := 0, minimizerIterations := 0 }

/-- Adds both iteration counters to their totals. -/
def addTotals : WorkspaceM α Unit :=
  modify fun w => { w with
    totalInnerIterations := w.totalInnerIterations + w.innerIterations
    totalMinimizerIterations := w.totalMinimizerIterations + w.minimizerIterations }

/-- Adds time spent in a direction search. -/
def addSearchTime (seconds : α) : WorkspaceM α Unit :=
  modify fun w => { w with searchTime := w.searchTime + seconds }

/-- Reads the clock and gives the time since the start. -/
def elapsed (clock : Nat → α) : WorkspaceM α α := do
  let now ← readClock clock
  return now - (← get).startTime

end Workspace

end NonsmoothDescent
