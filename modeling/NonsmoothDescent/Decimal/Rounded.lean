import NonsmoothDescent.Decimal.Exact

/-!
# Decimal text with a chosen number of digits

The positional form has a fixed number of places after the point; the exponent
form has one digit before the point, a fixed number after it, and a signed
exponent of at least two digits. Both round the exact binary value once, a tie
going to the even last digit. Infinities and NaN are written in small letters.
-/

namespace NonsmoothDescent.Decimal

/-- The two layouts of a rounded number. -/
inductive Layout where
  /-- Digits on both sides of a point, no exponent. -/
  | positional
  /-- One leading digit, the remaining digits, and a power of ten. -/
  | exponent
  deriving Repr, DecidableEq

/-- Decimal digits of a natural number, filled up with leading zeros to a width. -/
def digitsPadded (n width : Nat) : String :=
  let text := toString n
  "".pushn '0' (width - text.length) ++ text

/-- A point followed by the given digits; no digits, no point. -/
def fraction (digits : String) : String :=
  if digits.isEmpty then "" else "." ++ digits

/-- An exponent mark with its sign and at least two digits. -/
def exponentMark (k : Int) : String :=
  (if k < 0 then "e-" else "e+") ++ digitsPadded k.natAbs 2

/-- The magnitude rounded to `places` digits after the point. -/
def positional (significand : Nat) (exponent : Int) (places : Nat) : String :=
  let scaled := ((Magnitude.ofBinary significand exponent).overTenTo (-places)).nearest
  toString (scaled / tenTo places) ++
    (if places = 0 then "" else fraction (digitsPadded (scaled % tenTo places) places))

/-- The magnitude with one digit before the point and `places` after it. Rounding
up to the next power of ten moves the exponent instead of adding a digit. -/
def withExponent (significand : Nat) (exponent : Int) (places : Nat) : String :=
  if significand = 0 then "0" ++ fraction ("".pushn '0' places) ++ exponentMark 0
  else
    let k := Magnitude.leadingExponent significand exponent
    let scaled := ((Magnitude.ofBinary significand exponent).overTenTo (k - places)).nearest
    let (digits, k) := if scaled = tenTo (places + 1) then (tenTo places, k + 1) else (scaled, k)
    let text := digitsPadded digits (places + 1)
    String.ofList (text.toList.take 1) ++ fraction (String.ofList (text.toList.drop 1)) ++ exponentMark k

/-- The text of a number without its sign. -/
def unsigned (layout : Layout) (places : Nat) : Binary64 → String
  | .nan => "nan"
  | .infinite _ => "inf"
  | .finite _ significand exponent =>
    match layout with
    | .positional => positional significand exponent places
    | .exponent => withExponent significand exponent places

/-- The rounded text of a double. The sign of zero is kept. -/
def rounded (layout : Layout) (places : Nat) (x : Float) : String :=
  let value := Binary64.ofFloat x
  (if value.isNegative then "-" else "") ++ unsigned layout places value

/-- Whether a text shows no digit other than zero before its exponent mark. -/
def showsZero (text : String) : Bool :=
  (text.toList.takeWhile (· ≠ 'e')).all fun c => c = '0' || c = '.'

/-- The rounded text of a double, without the minus sign where all digits shown are zero. -/
def roundedUnsignedZero (layout : Layout) (places : Nat) (x : Float) : String :=
  let value := Binary64.ofFloat x
  let text := unsigned layout places value
  if value.isNegative && !showsZero text then "-" ++ text else text

end NonsmoothDescent.Decimal
