import NonsmoothDescent.Problem.Oracle
import NonsmoothDescent.Tensor

/-!
# Samples

A sample is a point together with what is known about the objective and the
gradient there. Each is evaluated at most once: a value or a failure, once obtained,
stays. A joint evaluation leaves the gradient alone if the objective failed.
-/

namespace NonsmoothDescent

/-- What is known of a quantity that is evaluated at most once. -/
inductive Evaluation (β : Type) where
  /-- Not evaluated yet. -/
  | pending
  /-- Evaluated without success. -/
  | failed
  /-- Evaluated. -/
  | known (value : β)
  deriving Repr, DecidableEq

namespace Evaluation

variable {β : Type}

/-- The result of an evaluation that has now been made. -/
def ofOption : Option β → Evaluation β
  | some value => .known value
  | none => .failed

/-- The value, if there is one. -/
def value? : Evaluation β → Option β
  | .known value => some value
  | _ => none

/-- Whether the evaluation is still to be made. -/
def isPending : Evaluation β → Bool
  | .pending => true
  | _ => false

/-- Whether the evaluation gave a value. -/
def isKnown : Evaluation β → Bool
  | .known _ => true
  | _ => false

end Evaluation

/-- A point and what is known there. -/
structure Sample (α : Type) where
  /-- The point. -/
  position : List α
  /-- The objective at the point. -/
  objective : Evaluation α := .pending
  /-- The gradient at the point. -/
  gradient : Evaluation (List α) := .pending
  deriving Repr

namespace Sample

variable {α : Type}

/-- A sample at the point with the given entries, if they are as many as there are
variables. -/
def create (dimension : Nat) (entries : List α) : Except (Fault α) (Sample α) :=
  if entries.length = dimension then .ok { position := entries }
  else .error (.pointSize entries.length dimension)

/-- A sample at the point that nested numbers form, read row by row. -/
def ofNested (dimension : Nat) (numbers : Nested α) : Except (Fault α) (Sample α) :=
  match numbers.tensor? with
  | some t => create dimension t.entries
  | none => .error .sizeMismatch

variable [Scalar α]

/-- A sample at `a * x + b * d`, where `x` is the point of this sample. -/
def shifted (dimension : Nat) (s : Sample α) (a b : α) (d : Tensor α) :
    Except (Fault α) (Sample α) :=
  let base := (Tensor.ofVector s.position).map (a * ·)
  match Tensor.pairwise? (· + ·) base (d.map (b * ·)) with
  | some sum => create dimension sum.entries
  | none => .error .sizeMismatch

/-- Evaluates the objective unless that has been done. -/
def evaluateObjective (o : Oracle α) (s : Sample α) : Sample α × List (Notice α) :=
  if s.objective.isPending then
    let (value, notices) := o.evaluateObjective s.position
    ({ s with objective := .ofOption value }, notices)
  else (s, [])

/-- Evaluates the gradient unless that has been done. -/
def evaluateGradient (o : Oracle α) (s : Sample α) : Sample α × List (Notice α) :=
  if s.gradient.isPending then
    let (slope, notices) := o.evaluateGradient s.position
    ({ s with gradient := .ofOption slope }, notices)
  else (s, [])

/-- The largest coordinate distance from a vector to the point of a sample. -/
def distance (x : List α) (s : Sample α) : Except (Fault α) α :=
  match Vec.pairwise? (· - ·) x s.position with
  | some difference => .ok (Vec.normInf difference)
  | none => .error .sizeMismatch

/-- The text of a sample with one variable. -/
def describe (s : Sample Float) : String :=
  let entries := ", ".intercalate (s.position.map Decimal.shortestOpen)
  let value := match s.objective.value? with
    | some value => Decimal.shortest value
    | none => "inf"
  "Iterate(x=array([" ++ entries ++ "]), f=" ++ value ++ ")"

end Sample

/-- Whether a known value is below another; an unknown value is below none, and every
known value is below an unknown one. -/
def below {α : Type} [Scalar α] : Option α → Option α → Bool
  | some a, some b => decide (a < b)
  | some _, none => true
  | none, _ => false

end NonsmoothDescent
