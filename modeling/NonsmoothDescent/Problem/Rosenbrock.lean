import NonsmoothDescent.Problem.Oracle

/-!
# The nonsmooth Rosenbrock function

In two variables, `w * |x₁² - x₂| + (1 - x₁)²` with a weight of eight. Its minimum
is zero at the point (1, 1), where the function has a kink. On the kink the
gradient is taken from the side on which the difference is nonnegative. Value and
gradient form squares in the same way, so they agree on which side a point lies.
-/

namespace NonsmoothDescent.Rosenbrock

variable {α : Type} [Scalar α]

/-- The weight of the kink. -/
def weight : α := 8.0

/-- The function of its two variables. -/
def valueAt (x y : α) : α := weight * Scalar.abs (Scalar.square x - y) + Scalar.square (1 - x)

/-- The gradient. -/
def gradientAt (x y : α) : List α :=
  let side : α := if 0 ≤ Scalar.square x - y then 1 else -1
  [2.0 * weight * side * x - 2.0 * (1 - x), -weight * side]

/-- The first two entries of a vector; the others do not matter. -/
def firstTwo (x : List α) : Except EvaluationFault (α × α) :=
  match x with
  | [] => .error (.index 0 0)
  | [_] => .error (.index 1 1)
  | a :: b :: _ => .ok (a, b)

/-- The function of a vector. -/
def value (x : List α) : Except EvaluationFault α := do
  let (a, b) ← firstTwo x
  return valueAt a b

/-- The gradient at a vector. -/
def gradient (x : List α) : Except EvaluationFault (List α) := do
  let (a, b) ← firstTwo x
  return gradientAt a b

end NonsmoothDescent.Rosenbrock
