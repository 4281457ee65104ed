import NonsmoothDescent.Subproblem.Basic

/-!
# Minimizers

The dual of a subproblem with two or more planes is left to a minimizer. It is asked
with a start point and answers with weights, an exit code, a number of iterations
and, for a failure, a message. Nothing is assumed of the answer; the exit code zero
claims success and nine claims that the iterations ran out.
-/

namespace NonsmoothDescent

/-- Settings of a minimizer. -/
structure Settings (α : Type) [Scalar α] where
  /-- Accuracy of the objective. -/
  accuracy : α := 0.000000000001
  /-- Largest number of iterations. -/
  iterations : Int := 500

/-- What a minimizer is asked. -/
structure Request (α : Type) [Scalar α] where
  /-- The subproblem whose dual is to be maximized. -/
  subproblem : Subproblem α
  /-- Start point, one weight per plane. -/
  start : List α
  /-- Accuracy and iterations. -/
  settings : Settings α

/-- What a minimizer answers. -/
structure Answer (α : Type) where
  /-- The weights it ended with. -/
  point : List α
  /-- How it ended; zero is success. -/
  exitCode : Int
  /-- Iterations it made. -/
  iterations : Int
  /-- What it says about a failure. -/
  message : String

/-- A minimizer. The number counts the questions asked before, so that a minimizer may
answer the same question differently at another time. -/
abbrev Minimizer (α : Type) [Scalar α] := Nat → Request α → Answer α

/-- A question with its answer. -/
structure Consultation (α : Type) [Scalar α] where
  /-- The question. -/
  request : Request α
  /-- The answer, with one weight per plane. -/
  answer : Answer α

end NonsmoothDescent
