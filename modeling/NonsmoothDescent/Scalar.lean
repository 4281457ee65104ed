import NonsmoothDescent.Decimal.Exact

/-!
# Scalars

The whole search is written over a type of scalars with arithmetic, comparison and
decimal literals and with no laws attached, so one program text runs on doubles
and can be read over an exact ordered field. A comparison may fail both ways, as it
does for NaN; the choices below say on which side each operation then comes out.
Running code uses the instance for `Float`.
-/

namespace NonsmoothDescent

/-- Arithmetic that the search needs. No law is assumed of any operation. -/
class Scalar (α : Type) extends Zero α, One α, Add α, Sub α, Mul α, Div α, Neg α, LT α, LE α,
    OfScientific α where
  /-- The scalar of a whole number. -/
  ofInt : Int → α
  /-- Whether a scalar is an ordinary number, neither infinite nor undefined. -/
  isFinite : α → Bool
  /-- The whole part of a finite scalar, toward zero. -/
  truncate : α → Int
  /-- The square. On doubles this is a power, which may differ from the product of the
  scalar with itself in the last place. -/
  square : α → α
  /-- Strict comparison is decidable. -/
  decLt (a b : α) : Decidable (a < b)
  /-- Comparison is decidable. -/
  decLe (a b : α) : Decidable (a ≤ b)

namespace Scalar

variable {α : Type} [Scalar α]

instance (a b : α) : Decidable (a < b) := decLt a b

instance (a b : α) : Decidable (a ≤ b) := decLe a b

/-- The second argument if it is below the first, else the first. -/
def lesser (a b : α) : α := if b < a then b else a

/-- The second argument if it is above the first, else the first. -/
def greater (a b : α) : α := if a < b then b else a

/-- The larger of two scalars; undefined if they cannot be compared. -/
def larger (a b : α) : α := if a < b then b else if b ≤ a then a else a + b

/-- The absolute value; that of a negative zero is zero. -/
def abs (a : α) : α := if 0 < a then a else 0 - a

/-- Whether two scalars compare as equal; signs of zero do not matter. -/
def same (a b : α) : Bool := a ≤ b && b ≤ a

end Scalar

instance : Scalar Float where
  zero := 0.0
  one := 1.0
  ofInt := Float.ofInt
  isFinite := Float.isFinite
  truncate := fun x => (Binary64.ofFloat x).wholePart
  square := fun x => x.pow 2.0
  decLt := Float.decLt
  decLe := Float.decLe

end NonsmoothDescent
