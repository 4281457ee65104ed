import NonsmoothDescent.Position
import NonsmoothDescent.Problem.Rosenbrock

/-!
# Formulas

An objective may be given as a formula in the entries of its argument: constants,
entries, sums, products, differences, quotients, absolute values, maxima, a choice
by comparison, the nonsmooth Rosenbrock function, and a formula that refuses every
argument. Arguments are evaluated from left to right and the first fault ends the
evaluation; a choice evaluates only the branch it takes. A gradient is a list of
formulas, a single one, or rows of them.
-/

namespace NonsmoothDescent

/-- A formula in the entries of a vector. -/
inductive Formula (α : Type) where
  /-- A constant. -/
  | constant (c : α)
  /-- An entry of the argument; a negative number counts from the end. -/
  | entry (i : Int)
  /-- A sum of one or more terms. -/
  | sum (first : Formula α) (rest : List (Formula α))
  /-- A product of one or more factors. -/
  | product (first : Formula α) (rest : List (Formula α))
  /-- A difference. -/
  | difference (a b : Formula α)
  /-- A quotient; zero is no divisor. -/
  | quotient (a b : Formula α)
  /-- An absolute value. -/
  | magnitude (a : Formula α)
  /-- The largest of one or more values. -/
  | maximum (first : Formula α) (rest : List (Formula α))
  /-- The third formula if the first is below the second, else the fourth. -/
  | choice (a b below other : Formula α)
  /-- The nonsmooth Rosenbrock function of two values. -/
  | rosenbrock (a b : Formula α)
  /-- No value at all. -/
  | refusal

namespace Formula

variable {α : Type} [Scalar α]

/-- The entry at a position; a negative position counts from the end. -/
def entryAt (x : List α) (i : Int) : Except EvaluationFault α :=
  match (Position.resolve? x.length i).bind fun place => x[place]? with
  | some value => .ok value
  | none => .error (if Position.isWord i then .index i x.length else .notAnIndex)

mutual

/-- The value of a formula at a vector. -/
def eval (x : List α) : Formula α → Except EvaluationFault α
  | .constant c => .ok c
  | .entry i => entryAt x i
  | .sum first rest => do
    let start ← eval x first
    return (← evalAll x rest).foldl (· + ·) start
  | .product first rest => do
    let start ← eval x first
    return (← evalAll x rest).foldl (· * ·) start
  | .difference a b => return (← eval x a) - (← eval x b)
  | .quotient a b => do
    let dividend ← eval x a
    let divisor ← eval x b
    if Scalar.same divisor 0 then throw .division
    return dividend / divisor
  | .magnitude a => return Scalar.abs (← eval x a)
  | .maximum first rest => do
    let start ← eval x first
    return (← evalAll x rest).foldl Scalar.greater start
  | .choice a b below other => do
    let left ← eval x a
    let right ← eval x b
    if left < right then eval x below else eval x other
  | .rosenbrock a b => return Rosenbrock.valueAt (← eval x a) (← eval x b)
  | .refusal => .error .refused

/-- The values of several formulas, from left to right. -/
def evalAll (x : List α) : List (Formula α) → Except EvaluationFault (List α)
  | [] => .ok []
  | f :: rest => do
    let value ← eval x f
    return value :: (← evalAll x rest)

end

end Formula

/-- A gradient given by formulas. -/
inductive GradientFormula (α : Type) where
  /-- One formula per entry. -/
  | entries (formulas : List (Formula α))
  /-- A single formula. -/
  | single (formula : Formula α)
  /-- Rows of formulas, read one after another. -/
  | rows (formulas : List (List (Formula α)))
  /-- The gradient of the nonsmooth Rosenbrock function. -/
  | rosenbrock

/-- The value of a gradient formula. Rows must have one length. -/
def GradientFormula.eval {α : Type} [Scalar α] (x : List α) :
    GradientFormula α → Except EvaluationFault (List α)
  | .entries formulas => Formula.evalAll x formulas
  | .single formula => return [← formula.eval x]
  | .rows formulas => do
    let values ← formulas.mapM (Formula.evalAll x)
    let even := match values with
      | [] => true
      | first :: rest => rest.all fun row => row.length == first.length
    if even then return values.flatten else throw (.unevenRows values.length)
  | .rosenbrock => Rosenbrock.gradient x

end NonsmoothDescent
