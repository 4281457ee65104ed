import NonsmoothDescent.Decimal.Rounded

/-!
# The shortest decimal that reads back

Of all decimals that round to a given double, the text has the fewest digits, and
of those the one nearest to the exact value; a tie goes to the even last digit.
A decimal rounds to the double when it lies between the midpoints to the double's
two neighbours, the midpoints themselves included exactly if the significand is
even. If a grid of decimals has a point in that interval, then one of the two grid
points around the value is such a point, so two candidates per digit count suffice.
-/

namespace NonsmoothDescent.Decimal

/-- The decimals that round to one double: everything between two magnitudes. -/
structure Rounding where
  /-- Midpoint to the next smaller double. -/
  lower : Magnitude
  /-- The exact value. -/
  value : Magnitude
  /-- Midpoint to the next larger double. -/
  upper : Magnitude
  /-- Whether the midpoints themselves round to this double. -/
  closed : Bool

namespace Rounding

/-- The interval around `significand * 2 ^ exponent`. Below a power of two the
doubles lie twice as dense, unless the exponent is already the smallest. -/
def around (significand : Nat) (exponent : Int) : Rounding :=
  let narrow := significand = twoTo 52 ∧ -1074 < exponent
  { lower := .ofBinary (4 * significand - if narrow then 1 else 2) (exponent - 2)
    value := .ofBinary significand exponent
    upper := .ofBinary (4 * significand + 2) (exponent - 2)
    closed := significand % 2 = 0 }

/-- Whether the decimal `digits * 10 ^ k` rounds to the double. -/
def contains (r : Rounding) (digits : Nat) (k : Int) : Bool :=
  let point : Magnitude := ⟨digits, 1⟩
  let lower := r.lower.overTenTo k
  let upper := r.upper.overTenTo k
  if r.closed then lower.le point && point.le upper else lower.lt point && point.lt upper

/-- The admitted decimal with last digit at `10 ^ k` that is nearest to the value. -/
def nearestOn (r : Rounding) (k : Int) : Option Nat :=
  let scaled := r.value.overTenTo k
  let below := scaled.floor
  let first := scaled.nearest
  let second := if first = below then below + 1 else below
  if r.contains first k then some first else if r.contains second k then some second else none

/-- Tries ever finer grids, from `count` digits on; seventeen digits always suffice. -/
def search (r : Rounding) (leading : Int) : Nat → Nat → Nat × Int
  | 0, count => ((r.value.overTenTo (leading - count)).nearest, leading - count)
  | tries + 1, count =>
    match r.nearestOn (leading - count) with
    | some digits => (digits, leading - count)
    | none => search r leading tries (count + 1)

end Rounding

/-- Moves trailing zeros of the digits into the exponent; the fuel is a bound on their number. -/
def stripZeros : Nat → Nat × Int → Nat × Int
  | 0, d => d
  | fuel + 1, (digits, k) =>
    if digits ≠ 0 ∧ digits % 10 = 0 then stripZeros fuel (digits / 10, k + 1) else (digits, k)

/-- The digits and the exponent of the last digit of the shortest decimal for a
positive magnitude. -/
def shortestDigits (significand : Nat) (exponent : Int) : Nat × Int :=
  let leading := Magnitude.leadingExponent significand exponent
  stripZeros 20 ((Rounding.around significand exponent).search leading 17 0)

/-- How a shortest decimal is written. A leading exponent below the first bound or not
below the second is written with an exponent mark. -/
structure ShortestStyle where
  /-- Smallest leading exponent that is written positionally. -/
  least : Int
  /-- First leading exponent that is not written positionally. -/
  limit : Int
  /-- What ends a positional whole number. -/
  wholeEnd : String
  /-- What ends a mantissa of one digit. -/
  mantissaEnd : String
  /-- The largest number of digits after the point, if there is one. -/
  places : Option Nat := none

/-- Numbers from 0.0001 up to but not including 1e16 are written positionally and always
have a digit after the point; a mantissa of one digit has no point. -/
def closedStyle : ShortestStyle := ⟨-4, 16, ".0", "", none⟩

/-- Numbers from 0.0001 up to but not including 1e8 are written positionally. Every number
has a point, no zero is written behind it, and at most eight digits are. -/
def openStyle : ShortestStyle := ⟨-4, 8, ".", ".", some 8⟩

/-- Whether a style writes a leading exponent with an exponent mark. -/
def ShortestStyle.marksExponent (style : ShortestStyle) (leading : Int) : Bool :=
  leading < style.least || style.limit ≤ leading

/-- The exponent of the leading digit of `digits * 10 ^ k`. -/
def leadingOf (digits : Nat) (k : Int) : Int := k + (toString digits).length - 1

/-- Shortens digits that reach beyond the places of a style: the exact value is rounded to
the last place instead, a tie going to the even digit. -/
def shorten (style : ShortestStyle) (value : Magnitude) (digits : Nat) (k : Int) : Nat × Int :=
  match style.places with
  | none => (digits, k)
  | some places =>
    let leading := leadingOf digits k
    let last := if style.marksExponent leading then leading - places else -(places : Int)
    if k < last then stripZeros 20 ((value.overTenTo last).nearest, last) else (digits, k)

/-- Lays out `digits * 10 ^ k`, with an exponent mark or positionally. -/
def layOut (style : ShortestStyle) (marked : Bool) (digits : Nat) (k : Int) : String :=
  let text := toString digits
  let leading := leadingOf digits k
  if marked then
    let places := String.ofList (text.toList.drop 1)
    String.ofList (text.toList.take 1) ++
      (if places.isEmpty then style.mantissaEnd else fraction places) ++ exponentMark leading
  else if 0 ≤ k then text.pushn '0' k.toNat ++ style.wholeEnd
  else if 0 ≤ leading then
    let whole := (leading + 1).toNat
    String.ofList (text.toList.take whole) ++ fraction (String.ofList (text.toList.drop whole))
  else "0." ++ "".pushn '0' (-leading - 1).toNat ++ text

/-- The shortest text of a double in a style. Zero keeps its sign. -/
def shortestIn (style : ShortestStyle) (x : Float) : String :=
  match Binary64.ofFloat x with
  | .nan => "nan"
  | .infinite negative => (if negative then "-" else "") ++ "inf"
  | .finite negative significand exponent =>
    let sign := if negative then "-" else ""
    if significand = 0 then sign ++ "0" ++ style.wholeEnd
    else
      let (digits, k) := shortestDigits significand exponent
      let marked := style.marksExponent (leadingOf digits k)
      let (digits, k) := shorten style (.ofBinary significand exponent) digits k
      sign ++ layOut style marked digits k

/-- The shortest text of a double. -/
def shortest (x : Float) : String := shortestIn closedStyle x

/-- The shortest text of a double with an open point. -/
def shortestOpen (x : Float) : String := shortestIn openStyle x

end NonsmoothDescent.Decimal
