import NonsmoothDescent.Scalar
import NonsmoothDescent.Options.Name

/-!
# Options

The options of a search as a record, with their default values, and access to them
by name. The limit is a natural number here; ranges of the amounts are checked
where options are read from entries.
-/

namespace NonsmoothDescent

/-- The options of a search. -/
structure Options (α : Type) [Scalar α] where
  /-- Add points beyond the stationarity radius. -/
  addFarPoints : Bool := false
  /-- Report failure at the iteration limit. -/
  failOnIterationLimit : Bool := false
  /-- Report failure when a subproblem is not solved. -/
  failOnSolverFailure : Bool := false
  /-- Aggregate cuts between rounds. -/
  tryAggregation : Bool := false
  /-- Try a step along the gradient first. -/
  tryGradientStep : Bool := true
  /-- Try a shortened step in each round. -/
  tryShortenedStep : Bool := true
  /-- Sampled points per variable up to which cuts are aggregated. -/
  aggregationThreshold : α := 10.0
  /-- Weight of the squared distance in a cut's bias. -/
  downshift : α := 0.01
  /-- Length of the gradient step. -/
  gradientStepsize : α := 0.0001
  /-- Length of the shortened step. -/
  shortenedStepsize : α := 0.01
  /-- Share of the predicted decrease that a step must achieve. -/
  acceptanceTolerance : α := 0.00000001
  /-- Number of inner iterations after which the search stops. -/
  iterationLimit : Nat := 20

namespace Options

variable {α : Type} [Scalar α]

/-- Whether a toggle is on. -/
def isOn (o : Options α) : Toggle → Bool
  | .addFarPoints => o.addFarPoints
  | .failOnIterationLimit => o.failOnIterationLimit
  | .failOnSolverFailure => o.failOnSolverFailure
  | .tryAggregation => o.tryAggregation
  | .tryGradientStep => o.tryGradientStep
  | .tryShortenedStep => o.tryShortenedStep

/-- Switches a toggle. -/
def switch (o : Options α) (on : Bool) : Toggle → Options α
  | .addFarPoints => { o with addFarPoints := on }
  | .failOnIterationLimit => { o with failOnIterationLimit := on }
  | .failOnSolverFailure => { o with failOnSolverFailure := on }
  | .tryAggregation => { o with tryAggregation := on }
  | .tryGradientStep => { o with tryGradientStep := on }
  | .tryShortenedStep => { o with tryShortenedStep := on }

/-- The value of a real-valued option. -/
def get (o : Options α) : Amount → α
  | .aggregationThreshold => o.aggregationThreshold
  | .downshift => o.downshift
  | .gradientStepsize => o.gradientStepsize
  | .shortenedStepsize => o.shortenedStepsize
  | .acceptanceTolerance => o.acceptanceTolerance

/-- Replaces the value of a real-valued option. -/
def set (o : Options α) (value : α) : Amount → Options α
  | .aggregationThreshold => { o with aggregationThreshold := value }
  | .downshift => { o with downshift := value }
  | .gradientStepsize => { o with gradientStepsize := value }
  | .shortenedStepsize => { o with shortenedStepsize := value }
  | .acceptanceTolerance => { o with acceptanceTolerance := value }

end Options

end NonsmoothDescent
