/-!
# Outcomes

How a subproblem solve ended and how a direction search ended, with their names
and, for the solver, the code that report lines show.
-/

namespace NonsmoothDescent

/-- How a subproblem solve ended. -/
inductive SolveStatus where
  /-- No solve has been made. -/
  | unset
  /-- Solved to the tolerance asked for. -/
  | success
  /-- The minimizer ran out of iterations. -/
  | iterationLimit
  /-- The minimizer failed, or the data or the result are not finite. -/
  | numericalFailure
  /-- There was nothing to solve. -/
  | inputError
  deriving DecidableEq, Repr

namespace SolveStatus

/-- All outcomes of a solve. -/
def all : List SolveStatus := [.unset, .success, .iterationLimit, .numericalFailure, .inputError]

/-- The name of an outcome. -/
def name : SolveStatus → String
  | .unset => "unset"
  | .success => "success"
  | .iterationLimit => "iteration_limit"
  | .numericalFailure => "numerical_failure"
  | .inputError => "input_error"

/-- The outcome with a given name. -/
def ofName? (text : String) : Option SolveStatus := all.find? fun status => status.name == text

/-- The code of an outcome in report lines. -/
def code : SolveStatus → Int
  | .unset => -1
  | .success => 0
  | .iterationLimit => 1
  | .numericalFailure => 2
  | .inputError => 3

end SolveStatus

/-- How a direction search ended. -/
inductive Outcome where
  /-- The search has not ended. -/
  | unset
  /-- An acceptable step was found, or the radii are to shrink. -/
  | success
  /-- The time limit was reached. -/
  | timeLimit
  /-- A needed evaluation failed. -/
  | evaluationFailure
  /-- The limit on inner iterations was reached and counts as failure. -/
  | iterationLimit
  /-- A subproblem was not solved and that counts as failure. -/
  | solverFailure
  deriving DecidableEq, Repr

namespace Outcome

/-- All outcomes of a search. -/
def all : List Outcome :=
  [.unset, .success, .timeLimit, .evaluationFailure, .iterationLimit, .solverFailure]

/-- The name of an outcome. -/
def name : Outcome → String
  | .unset => "unset"
  | .success => "success"
  | .timeLimit => "cpu_time_limit"
  | .evaluationFailure => "evaluation_failure"
  | .iterationLimit => "iteration_limit"
  | .solverFailure => "qp_failure"

end Outcome

end NonsmoothDescent
