import NonsmoothDescent.Text.Script

/-!
# Numerals

A real numeral is an optional sign, then `inf`, `infinity` or `nan` in letters of
either case, or digits with an optional point and an optional exponent. A whole
numeral is an optional sign and digits. In both, one underscore may stand between
two digits, and blanks may frame the numeral. What is read is the exact decimal;
rounding to a double is a later step.
-/

namespace NonsmoothDescent

/-- What a real numeral says. -/
inductive Numeral where
  /-- The decimal `± significand * 10 ^ exponent`. -/
  | decimal (negative : Bool) (significand : Nat) (exponent : Int)
  /-- An infinity of the given sign. -/
  | infinity (negative : Bool)
  /-- Not a number. -/
  | nan
  deriving Repr, DecidableEq

namespace Numeral

/-- The number written by ASCII digits, continued from the digits already read. -/
def ofDigits (digits : List Char) (start : Nat) : Nat :=
  digits.foldl (fun value c => 10 * value + (c.toNat - '0'.toNat)) start

/-- Removes the underscores, provided each stands between two digits. The flag tells
whether the previous character was a digit. -/
def joinDigits : Bool → List Char → Option (List Char)
  | _, [] => some []
  | afterDigit, '_' :: rest =>
    match rest with
    | c :: _ => if afterDigit && c.isDigit then joinDigits false rest else none
    | [] => none
  | _, c :: rest => (joinDigits c.isDigit rest).map (c :: ·)

/-- Splits off a sign; `true` stands for minus. -/
def splitSign : List Char → Bool × List Char
  | '-' :: rest => (true, rest)
  | '+' :: rest => (false, rest)
  | text => (false, text)

/-- The exponent part: nothing, or a mark, a sign and at least one digit. -/
def readExponent : List Char → Option Int
  | [] => some 0
  | mark :: rest =>
    let (negative, digits) := splitSign rest
    if (mark = 'e' || mark = 'E') && !digits.isEmpty && digits.all Char.isDigit then
      let value : Int := ofDigits digits 0
      some (if negative then -value else value)
    else none

/-- Digits with an optional point and exponent; at least one digit stands beside the point. -/
def readDecimal (negative : Bool) (text : List Char) : Option Numeral :=
  let whole := text.takeWhile Char.isDigit
  let rest := text.dropWhile Char.isDigit
  let (places, rest) := match rest with
    | '.' :: rest => (rest.takeWhile Char.isDigit, rest.dropWhile Char.isDigit)
    | rest => ([], rest)
  if whole.isEmpty && places.isEmpty then none
  else (readExponent rest).map fun exponent =>
    .decimal negative (ofDigits places (ofDigits whole 0)) (exponent - places.length)

/-- Reads a numeral that has its sign, if any, and nothing around it. -/
def readBare (text : List Char) : Option Numeral :=
  let (negative, rest) := splitSign text
  let word := rest.map Char.toLower
  if word = ['i', 'n', 'f'] || word = ['i', 'n', 'f', 'i', 'n', 'i', 't', 'y'] then
    some (.infinity negative)
  else if word = ['n', 'a', 'n'] then some .nan
  else readDecimal negative rest

/-- Reads a real numeral. -/
def read? (text : String) : Option Numeral :=
  (joinDigits false (Text.trim (Text.toAscii text.toList))).bind readBare

/-- The nearest double. A decimal far outside the range of doubles is infinite or
zero without its power of ten being formed. -/
def toFloat : Numeral → Float
  | .nan => 0.0 / 0.0
  | .infinity negative => if negative then -1.0 / 0.0 else 1.0 / 0.0
  | .decimal negative significand exponent =>
    let leading := exponent + (toString significand).length
    let magnitude : Float :=
      if significand = 0 ∨ leading < -400 then 0.0
      else if 400 < leading then 1.0 / 0.0
      else OfScientific.ofScientific significand (exponent < 0) exponent.natAbs
    if negative then -magnitude else magnitude

/-- The largest number of digits a whole numeral may have. -/
def wholeDigitLimit : Nat := 4300

/-- Reads a whole numeral. -/
def readWhole? (text : String) : Option Int :=
  let (negative, rest) := splitSign (Text.trim (Text.toAscii text.toList))
  match joinDigits false rest with
  | none => none
  | some digits =>
    if digits.isEmpty || !digits.all Char.isDigit || wholeDigitLimit < digits.length then none
    else
      let value : Int := ofDigits digits 0
      some (if negative then -value else value)

end Numeral

end NonsmoothDescent
