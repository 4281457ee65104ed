import NonsmoothDescent.Fault
import NonsmoothDescent.Notice

/-!
# Objective and gradient

The objective and its gradient are functions that may stop with a fault. The oracle
turns whatever they do into a value or a failed evaluation: a fault, a value that is
not finite and a gradient of the wrong length are all failures, and each is noticed.
Without a gradient function the gradient is formed from values of the objective, in a
way that is part of the oracle. The oracle of a problem takes forward differences.
-/

namespace NonsmoothDescent

/-- Why a function gave no value: whatever has stopped it, as that describes itself. -/
structure EvaluationFault where
  /-- The description. -/
  description : String
  deriving DecidableEq, Repr

namespace EvaluationFault

/-- The function refuses its argument. -/
def refused : EvaluationFault := ⟨"ValueError('raise')"⟩

/-- An entry that the argument does not have. -/
def index (i : Int) (size : Nat) : EvaluationFault :=
  ⟨"IndexError('index " ++ toString i ++ " is out of bounds for axis 0 with size " ++
    toString size ++ "')"⟩

/-- A number that is too large to number any entry. -/
def notAnIndex : EvaluationFault :=
  ⟨"IndexError('only integers, slices (`:`), ellipsis (`...`), numpy.newaxis (`None`) and " ++
    "integer or boolean arrays are valid indices')"⟩

/-- A division by zero. -/
def division : EvaluationFault := ⟨"ZeroDivisionError('float division by zero')"⟩

/-- Rows of a gradient that differ in length. -/
def unevenRows (rows : Nat) : EvaluationFault :=
  ⟨"ValueError('setting an array element with a sequence. The requested array has an " ++
    "inhomogeneous shape after 1 dimensions. The detected shape was " ++
    Text.parenthesised [rows] ++ " + inhomogeneous part.')"⟩

end EvaluationFault

/-- Something that was to be a function. -/
inductive Supplied (β : Type) where
  /-- Nothing was given. -/
  | absent
  /-- What was given is no function. -/
  | unusable
  /-- A function. -/
  | function (f : β)

/-- An objective on vectors of a fixed length, with its gradient. -/
structure Oracle (α : Type) where
  /-- The number of variables. -/
  dimension : Nat
  /-- There is at least one variable. -/
  positive : 0 < dimension
  /-- The objective. -/
  value : List α → Except EvaluationFault α
  /-- The gradient, if there is a function for it. -/
  gradient : Option (List α → Except EvaluationFault (List α))
  /-- How a gradient is formed from values of the objective where there is no function for it. -/
  differences : (List α → Except EvaluationFault α) → List α → Except EvaluationFault (List α)

namespace Oracle

variable {α : Type} [Scalar α]

/-- The increment of one entry for a forward difference. Where the chosen increment is
lost in rounding, one relative to the size of the entry takes its place. -/
def incrementAt (h x : α) : α :=
  if Scalar.same (x + h - x) 0 then
    let relative := 1.490116119384765625e-8 * Scalar.larger 1 (Scalar.abs x)
    if 0 ≤ x then relative else -relative
  else h

/-- The gradient by forward differences, dividing by the difference of the entries as
they are after rounding. -/
def forwardDifferences {ε : Type} (h : α) (f : List α → Except ε α) (x : List α) :
    Except ε (List α) := do
  let base ← f x
  x.zipIdx.mapM fun (entry, i) => do
    let moved := entry + incrementAt h entry
    return ((← f (x.set i moved)) - base) / (moved - entry)

/-- The oracle of a problem, with an increment for forward differences. The number of
variables is checked first, then the objective, then the gradient. -/
def make (dimension : Option Int) (value : Supplied (List α → Except EvaluationFault α))
    (gradient : Supplied (List α → Except EvaluationFault (List α))) (increment : α) :
    Except (Fault α) (Oracle α) :=
  match dimension with
  | none => .error (.dimensionNotPositive none)
  | some n =>
    if h : 0 < n then
      match value, gradient with
      | .function value, .function gradient =>
        .ok ⟨n.toNat, by omega, value, some gradient, forwardDifferences increment⟩
      | .function value, .absent =>
        .ok ⟨n.toNat, by omega, value, none, forwardDifferences increment⟩
      | .function _, .unusable => .error .gradientNotAFunction
      | _, _ => .error .objectiveNotAFunction
    else .error (.dimensionNotPositive (some n))

/-- Evaluates the objective: its value unless the evaluation failed, and notices. -/
def evaluateObjective (o : Oracle α) (x : List α) : Option α × List (Notice α) :=
  match o.value x with
  | .error fault => (none, [.objectiveFault fault.description])
  | .ok value =>
    if Scalar.isFinite value then (some value, []) else (none, [.objectiveNotFinite value])

/-- What the gradient function gives, or what is formed from values of the objective. -/
def rawGradient (o : Oracle α) (x : List α) : Except EvaluationFault (List α) :=
  match o.gradient with
  | some gradient => gradient x
  | none => o.differences o.value x

/-- Evaluates the gradient: its value unless the evaluation failed, and notices. -/
def evaluateGradient (o : Oracle α) (x : List α) : Option (List α) × List (Notice α) :=
  match o.rawGradient x with
  | .error fault => (none, [.gradientFault fault.description])
  | .ok slope =>
    if slope.length = o.dimension ∧ Vec.isFinite slope then (some slope, [])
    else (none, [.gradientInvalid slope.length])

end Oracle

end NonsmoothDescent
