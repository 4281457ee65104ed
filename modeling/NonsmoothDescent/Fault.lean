import NonsmoothDescent.Options.Name
import NonsmoothDescent.Scalar
import NonsmoothDescent.Text.Template

/-!
# Faults

Everything that can stop an operation, one constructor per cause. Causes that
describe a misuse of the library have a message of their own; the others are told
by their constructor alone.
-/

namespace NonsmoothDescent

/-- Why an operation stopped. Scalars that a message shows are kept as they were given. -/
inductive Fault (α : Type) where
  /-- An option name that is not known. -/
  | unknownOption (name : String)
  /-- A value for the iteration limit that is no whole number. -/
  | limitNotWhole (given : Entry α)
  /-- A value for the iteration limit that is negative. -/
  | limitNegative (value : Int)
  /-- A value of a real-valued option outside its range. -/
  | amountOutOfRange (name : Amount) (value : α)
  /-- A number of variables that is missing or not positive. -/
  | dimensionNotPositive (given : Option Int)
  /-- Something other than a function given as objective. -/
  | objectiveNotAFunction
  /-- Something other than a function given as gradient. -/
  | gradientNotAFunction
  /-- A stationarity radius at or below zero. -/
  | stationarityRadiusNotPositive (value : α)
  /-- A trust-region radius at or below zero. -/
  | trustRadiusNotPositive (value : α)
  /-- A time limit below zero. -/
  | timeLimitNegative (value : α)
  /-- A tolerance factor below zero. -/
  | toleranceFactorNegative (value : α)
  /-- A factor for shrinking radii that is not in the half-open unit interval. -/
  | updateFactorOutOfRange (value : α)
  /-- A point with the wrong number of entries. -/
  | pointSize (size dimension : Nat)
  /-- A cut with both or neither of a sampled point and a coefficient vector. -/
  | ambiguousCut
  /-- Multipliers that do not belong to the cuts they are to combine. -/
  | multiplierCount (multipliers cuts : Nat)
  /-- Unequal numbers of coefficient vectors and biases. -/
  | biasCount (coefficients biases : Nat)
  /-- Coefficient vectors of one wrong length. -/
  | coefficientSize (size dimension : Nat)
  /-- The time limit was reached. -/
  | timeLimitReached
  /-- Vectors or tensors whose sizes do not fit each other. -/
  | sizeMismatch
  /-- An objective value was needed where none is known. -/
  | missingObjective
  /-- A gradient was needed where none is known. -/
  | missingGradient
  /-- A position outside a list. -/
  | outOfBounds
  /-- A collection that was never made. -/
  | unknownCollection (name : String)
  /-- No subproblem solver has been made yet. -/
  | missingSolver
  /-- A value of a kind that cannot be converted. -/
  | wrongKind
  /-- A text that is no numeral, or a number without a whole part. -/
  | notANumber
  /-- A number too large to be converted. -/
  | tooLarge
  /-- A name that is not an option of the search. -/
  | unexpectedName (name : String)
  /-- A kind of report line that does not exist. -/
  | unknownKind (name : String)
  /-- A line template that cannot be filled. -/
  | template (fault : TemplateFault)
  /-- More rounds were made than any search can make. -/
  | unsettled

namespace Fault

/-- The message of a misuse; other faults have none. -/
def message? : Fault Float → Option String
  | unknownOption name => some ("Unknown cutting-plane option: " ++ name)
  | limitNotWhole given =>
    some (OptionName.iterationLimit.plain ++ " must be an integer, got " ++ given.plainText)
  | limitNegative value =>
    some (OptionName.iterationLimit.plain ++ " must lie in [0, inf], got " ++ toString value)
  | amountOutOfRange name value =>
    let upper := match (name.upperBound? : Option Float) with
      | some bound => Decimal.shortest bound
      | none => "inf"
    some ((OptionName.amount name).plain ++ " must lie in [0.0, " ++ upper ++ "], got " ++
      Decimal.shortest value)
  | dimensionNotPositive given =>
    let shown := match given with
      | some n => toString n
      | none => Entry.plainText .nothing
    some ("Number of variables n must be positive, got " ++ shown)
  | objectiveNotAFunction => some "Objective function f must be callable"
  | gradientNotAFunction => some "Gradient grad must be callable"
  | stationarityRadiusNotPositive value =>
    some ("stationarity_radius must be positive, got " ++ Decimal.shortest value)
  | trustRadiusNotPositive value =>
    some ("trust_region_radius must be positive, got " ++ Decimal.shortest value)
  | timeLimitNegative value =>
    some ("cpu_time_limit must be nonnegative, got " ++ Decimal.shortest value)
  | toleranceFactorNegative value =>
    some ("stationarity_tolerance_factor must be nonnegative, got " ++ Decimal.shortest value)
  | updateFactorOutOfRange value =>
    some ("radius_update_factor must lie in (0, 1], got " ++ Decimal.shortest value)
  | pointSize size dimension =>
    some ("Iterate size " ++ toString size ++ " does not match n=" ++ toString dimension)
  | ambiguousCut => some "Cut needs exactly one of index or vector"
  | multiplierCount multipliers cuts =>
    some ("Dual multiplier length " ++ toString multipliers ++ " does not match cut count " ++
      toString cuts)
  | biasCount coefficients biases =>
    some (toString coefficients ++ " coefficient vectors but " ++ toString biases ++ " biases")
  | coefficientSize size dimension =>
    some ("Cut coefficients have size " ++ toString size ++ ", expected " ++ toString dimension)
  | timeLimitReached => some "CPU time limit has been reached."
  | _ => none

end Fault

end NonsmoothDescent
