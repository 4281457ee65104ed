/-!
# Option names

The search has six toggles, five amounts and one limit. Each option has a plain
name; a solver that runs the search writes it with a mark in front, and one of the
names also has a spelling with capitals. Reading a name accepts all of these. The
table gives for each option the range of its values and a description.
-/

namespace NonsmoothDescent

/-- Options that are on or off. -/
inductive Toggle where
  /-- Add points beyond the stationarity radius. -/
  | addFarPoints
  /-- Report failure at the iteration limit. -/
  | failOnIterationLimit
  /-- Report failure when a subproblem is not solved. -/
  | failOnSolverFailure
  /-- Aggregate cuts between rounds. -/
  | tryAggregation
  /-- Try a step along the gradient first. -/
  | tryGradientStep
  /-- Try a shortened step in each round. -/
  | tryShortenedStep
  deriving DecidableEq, Repr

/-- Options with a real value. -/
inductive Amount where
  /-- Sampled points per variable up to which cuts are aggregated. -/
  | aggregationThreshold
  /-- Weight of the squared distance in a cut's bias. -/
  | downshift
  /-- Length of the gradient step. -/
  | gradientStepsize
  /-- Length of the shortened step. -/
  | shortenedStepsize
  /-- Share of the predicted decrease that a step must achieve. -/
  | acceptanceTolerance
  deriving DecidableEq, Repr

/-- The name of an option. -/
inductive OptionName where
  /-- A toggle. -/
  | toggle (t : Toggle)
  /-- A real-valued option. -/
  | amount (a : Amount)
  /-- The limit on inner iterations. -/
  | iterationLimit
  deriving DecidableEq, Repr

namespace OptionName

/-- All options, in the order in which they are checked and described. -/
def all : List OptionName :=
  [.toggle .addFarPoints, .toggle .failOnIterationLimit, .toggle .failOnSolverFailure,
   .toggle .tryAggregation, .toggle .tryGradientStep, .toggle .tryShortenedStep,
   .amount .aggregationThreshold, .amount .downshift, .amount .gradientStepsize,
   .amount .shortenedStepsize, .amount .acceptanceTolerance, .iterationLimit]

/-- The plain name. -/
def plain : OptionName → String
  | .toggle .addFarPoints => "add_far_points"
  | .toggle .failOnIterationLimit => "fail_on_iteration_limit"
  | .toggle .failOnSolverFailure => "fail_on_qp_failure"
  | .toggle .tryAggregation => "try_aggregation"
  | .toggle .tryGradientStep => "try_gradient_step"
  | .toggle .tryShortenedStep => "try_shortened_step"
  | .amount .aggregationThreshold => "aggregation_size_threshold"
  | .amount .downshift => "downshift_constant"
  | .amount .gradientStepsize => "gradient_stepsize"
  | .amount .shortenedStepsize => "shortened_stepsize"
  | .amount .acceptanceTolerance => "step_acceptance_tolerance"
  | .iterationLimit => "inner_iteration_limit"

/-- The mark in front of a name at the level of a solver. -/
def mark : String := "DCCP_"

/-- The name at the level of a solver. -/
def marked (name : OptionName) : String := mark ++ name.plain

/-- The spelling with capitals that one option has besides its plain name. -/
def capitalSpelling : String := "fail_on_QP_failure"

/-- The option with the given plain name. -/
def ofPlain? (text : String) : Option OptionName := all.find? fun name => name.plain == text

/-- Drops the mark, once, from a text that begins with it. -/
def unmarked (text : String) : String :=
  if mark.toList.isPrefixOf text.toList then String.ofList (text.toList.drop mark.length) else text

/-- The option that a text names: plain or marked, the capitals allowed either way. -/
def read? (text : String) : Option OptionName :=
  let bare := unmarked text
  ofPlain? (if bare = capitalSpelling then plain (.toggle .failOnSolverFailure) else bare)

/-- What the option does. -/
def description : OptionName → String
  | .toggle .addFarPoints =>
    "Determines whether to add points far outside stationarity radius to point set " ++
      "during subproblem solve."
  | .toggle .failOnIterationLimit =>
    "Determines whether to fail if iteration limit exceeded."
  | .toggle .failOnSolverFailure =>
    "Determines whether to fail if QP solver ever fails."
  | .toggle .tryAggregation =>
    "Determines whether to consider aggregating subgradients."
  | .toggle .tryGradientStep =>
    "Determines whether to consider gradient step before solving cutting plane " ++
      "subproblem. Stepsize set by gradient_stepsize."
  | .toggle .tryShortenedStep =>
    "Determines whether to consider shortened step if subproblem solver does not " ++
      "terminate after considering full QP step. Stepsize set by shortened_stepsize."
  | .amount .aggregationThreshold =>
    "Threshold for switching from aggregation to full point set (scaled by the " ++
      "number of variables)."
  | .amount .downshift =>
    "Downshifting constant. The linear term of an added cut is the minimum of the " ++
      "linearization value at the bundle point and the current objective minus this " ++
      "value times the squared distance to the current iterate."
  | .amount .gradientStepsize =>
    "Gradient stepsize. If the step computed from the current gradient alone is " ++
      "acceptable with this stepsize, the full cutting plane subproblem is avoided."
  | .amount .shortenedStepsize =>
    "Shortened stepsize. The stepsize considered is " ++
      "shortened_stepsize*min(stat. rad.,||qp_step||_inf)/||qp_step||_inf."
  | .amount .acceptanceTolerance => "Tolerance for step acceptance."
  | .iterationLimit =>
    "Limit on the number of inner iterations that will be performed."

end OptionName

/-- The largest allowed value of a real-valued option; the smallest is zero. -/
def Amount.upperBound? {α : Type} [One α] : Amount → Option α
  | .acceptanceTolerance => some 1
  | _ => none

end NonsmoothDescent
