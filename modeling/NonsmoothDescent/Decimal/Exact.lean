/-!
# The exact value of a binary64 number

A double is a sign, a significand and a power of two, or it is infinite, or it is
not a number. Everything that prints or truncates a double goes through this
reading of its bits, so the text never depends on a rounded intermediate value.
A magnitude is kept as a quotient of two natural numbers; comparison with a power
of ten and rounding to a decimal grid are then exact integer arithmetic.
-/

namespace NonsmoothDescent

/-- A power of two. -/
def twoTo (k : Nat) : Nat := Nat.pow 2 k

/-- A power of ten. -/
def tenTo (k : Nat) : Nat := Nat.pow 10 k

/-- What the bits of a double stand for. -/
inductive Binary64 where
  /-- The number with the given sign and magnitude `significand * 2 ^ exponent`. -/
  | finite (negative : Bool) (significand : Nat) (exponent : Int)
  /-- An infinity of the given sign. -/
  | infinite (negative : Bool)
  /-- Not a number, whatever its payload. -/
  | nan
  deriving Repr, DecidableEq

namespace Binary64

/-- Reads sign, exponent field and fraction field. A zero exponent field marks
zero and the subnormal numbers, which have no hidden leading bit. -/
def ofFloat (x : Float) : Binary64 :=
  let word := x.toBits.toNat
  let negative := word / twoTo 63 = 1
  let field : Nat := word / twoTo 52 % twoTo 11
  let fraction := word % twoTo 52
  if field = 2047 then
    if fraction = 0 then .infinite negative else .nan
  else if field = 0 then .finite negative fraction (-1074)
  else .finite negative (twoTo 52 + fraction) ((field : Int) - 1075)

/-- The sign bit of a number that is not NaN; NaN counts as unsigned. -/
def isNegative : Binary64 → Bool
  | .finite negative _ _ => negative
  | .infinite negative => negative
  | .nan => false

end Binary64

/-- A nonnegative rational number, kept as numerator over denominator. -/
structure Magnitude where
  /-- Numerator, not reduced against the denominator. -/
  num : Nat
  /-- Denominator; every constructor below makes it positive. -/
  den : Nat
  deriving Repr, DecidableEq

namespace Magnitude

/-- The magnitude `significand * 2 ^ exponent`. -/
def ofBinary (significand : Nat) (exponent : Int) : Magnitude :=
  if 0 ≤ exponent then ⟨significand * twoTo exponent.toNat, 1⟩
  else ⟨significand, twoTo (-exponent).toNat⟩

/-- The magnitude divided by `10 ^ k`. -/
def overTenTo (v : Magnitude) (k : Int) : Magnitude :=
  if 0 ≤ k then ⟨v.num, v.den * tenTo k.toNat⟩ else ⟨v.num * tenTo (-k).toNat, v.den⟩

/-- The largest natural number that is not above the magnitude. -/
def floor (v : Magnitude) : Nat := v.num / v.den

/-- The nearest natural number; a magnitude halfway between two goes to the even one. -/
def nearest (v : Magnitude) : Nat :=
  let below := v.num / v.den
  let rest := 2 * (v.num % v.den)
  if rest < v.den then below
  else if v.den < rest then below + 1
  else if below % 2 = 0 then below else below + 1

/-- Whether one magnitude is below or equal to another, by cross multiplication. -/
def le (v w : Magnitude) : Bool := v.num * w.den ≤ w.num * v.den

/-- Whether one magnitude is strictly below another. -/
def lt (v w : Magnitude) : Bool := v.num * w.den < w.num * v.den

/-- Whether the magnitude is at least `10 ^ k`. -/
def reachesTenTo (v : Magnitude) (k : Int) : Bool :=
  let w := v.overTenTo k
  w.den ≤ w.num

/-- The exponent of the leading decimal digit of a positive magnitude
`significand * 2 ^ exponent`. The binary length gives it up to one, as 0.30103
is the decimal length of a bit, and comparison with powers of ten settles it. -/
def leadingExponent (significand : Nat) (exponent : Int) : Int :=
  let guess := Int.fdiv ((significand.log2 + exponent) * 30103) 100000
  let v := ofBinary significand exponent
  if v.reachesTenTo (guess + 1) then guess + 1
  else if v.reachesTenTo guess then guess
  else guess - 1

end Magnitude

/-- The whole part of a finite number, toward zero; zero for the others. -/
def Binary64.wholePart : Binary64 → Int
  | .finite negative significand exponent =>
    let size : Int := (Magnitude.ofBinary significand exponent).floor
    if negative then -size else size
  | _ => 0

end NonsmoothDescent
