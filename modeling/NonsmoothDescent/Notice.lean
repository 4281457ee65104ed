import NonsmoothDescent.Report
import NonsmoothDescent.Vec

/-!
# Notices

What a run has to tell beside its result, one constructor per event, in the order
in which the events happen. A notice keeps the values it is about; its wording is
made from them over the doubles.
-/

namespace NonsmoothDescent

/-- An event worth telling. -/
inductive Notice (α : Type) where
  /-- The objective stopped with a fault. -/
  | objectiveFault (description : String)
  /-- The objective came out infinite or undefined. -/
  | objectiveNotFinite (value : α)
  /-- The gradient stopped with a fault. -/
  | gradientFault (description : String)
  /-- The gradient has the wrong length or an entry that is not finite. -/
  | gradientInvalid (size : Nat)
  /-- Cuts were aggregated with these weights to this slope. -/
  | aggregated (cuts : Nat) (weights slope : List α)
  /-- A subproblem could not be posed. -/
  | unsolvable (status : SolveStatus) (cuts : Nat)
  /-- The minimizer failed with a message of its own. -/
  | minimizerFailed (message : String)
  /-- The point of an unfinished minimizer run is good enough. -/
  | pointAccepted (exitCode : Int) (gap : α)
  /-- The radius rule fired; the radius is the one after the update. -/
  | radiiUpdated (combinationNorm stationarity : α)
  /-- The current point could not be evaluated. -/
  | currentNotEvaluated
  /-- The first trial point could not be evaluated. -/
  | firstTrialNotEvaluated
  /-- The gradient step is acceptable. -/
  | gradientStepAccepted
  /-- The cuts of all near points were collected. -/
  | cutSetBuilt (cuts points : Nat)
  /-- A solve failed and the gradient cut takes its place. -/
  | fallingBack (status : SolveStatus)
  /-- The solve with the gradient cut failed too. -/
  | fallbackFailed (status : SolveStatus)
  /-- The shortened step is acceptable. -/
  | shortenedStepAccepted (stepsize : α)
  /-- Too many points are in the bundle for aggregation to go on. -/
  | switchedToFull (points : Nat) (threshold : Int)
  /-- The search ended. -/
  | finished (outcome : Outcome) (innerIterations minimizerIterations : Int) (solves points : Nat)
  /-- A report line was emitted. -/
  | reported (kind : LineKind) (line : ProgressLine α)

namespace Notice

/-- The importance of a notice. -/
def level {α : Type} : Notice α → Level
  | .fallbackFailed _ => .warning
  | .reported kind _ => kind.level
  | _ => .debug

/-- A double with three decimals and an exponent. -/
def brief (x : Float) : String := Decimal.rounded .exponent 3 x

/-- The wording of a notice. -/
def message : Notice Float → String
  | .objectiveFault description => "[Problem] objective evaluation raised: " ++ description
  | .objectiveNotFinite value =>
    "[Problem] non-finite objective value: " ++ Decimal.shortest value
  | .gradientFault description => "[Problem] gradient evaluation raised: " ++ description
  | .gradientInvalid size =>
    "[Problem] invalid gradient (shape=" ++ Text.parenthesised [size] ++ ")"
  | .aggregated cuts weights slope =>
    "[Bundle] aggregated " ++ toString cuts ++ " cuts (sum ω=" ++ brief (Vec.sum weights) ++
      ", |g_agg|=" ++ brief (Vec.normSq slope).sqrt ++ ")"
  | .unsolvable status cuts =>
    "[QP] cannot solve: " ++ status.name ++ " (" ++ toString cuts ++ " cuts)"
  | .minimizerFailed message => "[QP] SLSQP failed: " ++ message
  | .pointAccepted exitCode gap =>
    "[QP] accepting SLSQP point (exit " ++ toString exitCode ++ "), gap=" ++
      Decimal.rounded .exponent 2 gap
  | .radiiUpdated combinationNorm stationarity =>
    "[Termination] radii update: |Gω|∞=" ++ brief combinationNorm ++ ", stat. rad.=" ++
      brief stationarity
  | .currentNotEvaluated => "[CuttingPlane] evaluation failed at current iterate"
  | .firstTrialNotEvaluated => "[CuttingPlane] evaluation failed at first trial iterate"
  | .gradientStepAccepted => "[CuttingPlane] gradient step accepted"
  | .cutSetBuilt cuts points =>
    "[CuttingPlane] full cut set: " ++ toString cuts ++ " cuts from " ++ toString points ++
      " points"
  | .fallingBack status =>
    "[CuttingPlane] QP status " ++ status.name ++ "; falling back to gradient cut"
  | .fallbackFailed status =>
    "[CuttingPlane] gradient-cut fallback QP also failed (" ++ status.name ++ ")"
  | .shortenedStepAccepted stepsize =>
    "[CuttingPlane] shortened step accepted (stepsize=" ++ brief stepsize ++ ")"
  | .switchedToFull points threshold =>
    "[CuttingPlane] bundle size " ++ toString points ++ " ≥ " ++ toString threshold ++
      "; switching to full cut set"
  | .finished outcome inner minimizer solves points =>
    "[CuttingPlane] status=" ++ outcome.name ++ ", inner its=" ++ toString inner ++
      ", QP its=" ++ toString minimizer ++ ", solves=" ++ toString solves ++
      ", bundle=" ++ toString points
  | .reported _ line => line.render

end Notice

end NonsmoothDescent
