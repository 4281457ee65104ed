import NonsmoothDescent.Text.Entry

/-!
# Line templates

A template is text with directives: a percent sign, flags, a field width, a
precision after a point, and a letter. `d` shows a whole number, `s` the text of
any entry, `e` and `f` a real number with an exponent or positionally, and a
doubled percent sign shows one. Filling a template takes one entry per directive
from left to right and fails at the first directive that cannot be shown; entries
left over are a failure as well. A template is first cut into pieces, which needs
no entries, so a fault of a late piece shows only if all earlier pieces were filled.
Widths and precisions are limited, and a number beyond its limit is such a fault.
-/

namespace NonsmoothDescent

/-- Why a template cannot be filled. -/
inductive TemplateFault where
  /-- A directive is left and no entry. -/
  | tooFewEntries
  /-- An entry is left and no directive. -/
  | tooManyEntries
  /-- The entry is not of the kind its directive shows. -/
  | wrongKind
  /-- A directive asks for an entry by name. -/
  | namedEntry
  /-- The letter is not a known one. -/
  | unknownLetter
  /-- The template ends within a directive. -/
  | incomplete
  /-- A width or a precision is beyond its limit. -/
  | oversized
  /-- NaN has no whole part. -/
  | notANumber
  /-- An infinity has no whole part, a whole number exceeds every double, or more digits
  of a whole number are asked for than there may be. -/
  | tooLarge
  deriving Repr, DecidableEq

/-- How a directive lays out what it shows. -/
structure FieldLayout where
  /-- Left-aligned in its width. -/
  left : Bool := false
  /-- A plus sign before numbers that are not negative. -/
  plus : Bool := false
  /-- A space before numbers that are not negative, unless a plus sign is asked for. -/
  space : Bool := false
  /-- Numbers are filled up with zeros after the sign. -/
  zeros : Bool := false
  /-- Least number of characters. -/
  width : Nat := 0
  /-- Digits or characters to show. -/
  precision : Option Nat := none
  deriving Repr

/-- A piece of a template. -/
inductive Piece where
  /-- A character shown as it is. -/
  | plain (c : Char)
  /-- A directive with the letter that says what it shows. -/
  | directive (field : FieldLayout) (letter : Char)
  /-- A directive that asks for an entry by name. -/
  | named
  /-- The template ended within a directive. -/
  | cutOff
  /-- A directive with a width or a precision beyond its limit. -/
  | oversized
  deriving Repr

namespace Template

/-- What is being read: plain text, or the given part of a directive. -/
inductive Mode where
  /-- Outside directives. -/
  | plain
  /-- Just after the percent sign. -/
  | start
  /-- Among the flags. -/
  | flags (field : FieldLayout)
  /-- In the field width. -/
  | width (field : FieldLayout)
  /-- After the point. -/
  | precision (field : FieldLayout) (digits : Nat)

/-- The largest field width. -/
def widthLimit : Nat := 0x7fffffffffffffff

/-- The largest precision. -/
def precisionLimit : Nat := 0x7fffffff

/-- The largest precision of a whole number, three short of the general one. -/
def wholePrecisionLimit : Nat := 0x7ffffffc

/-- A number continued by a digit, and what is read next if it stays within its limit. -/
def nextDigit (limit value : Nat) (c : Char) (next : Nat → Mode) : Mode × List Piece :=
  let value := 10 * value + (c.toNat - '0'.toNat)
  if value ≤ limit then (next value, []) else (.plain, [.oversized])

/-- Ends a directive at its letter. -/
def finish (field : FieldLayout) (c : Char) : Mode × List Piece :=
  (.plain, [.directive field c])

/-- A character after the width: a point opens the precision, anything else is the letter. -/
def afterWidth (field : FieldLayout) (c : Char) : Mode × List Piece :=
  if c = '.' then (.precision field 0, []) else finish field c

/-- A character in the width. -/
def inWidth (field : FieldLayout) (c : Char) : Mode × List Piece :=
  if c.isDigit then
    nextDigit widthLimit field.width c fun width => .width { field with width }
  else afterWidth field c

/-- A character among the flags. -/
def inFlags (field : FieldLayout) (c : Char) : Mode × List Piece :=
  if c = '-' then (.flags { field with left := true }, [])
  else if c = '+' then (.flags { field with plus := true }, [])
  else if c = ' ' then (.flags { field with space := true }, [])
  else if c = '0' then (.flags { field with zeros := true }, [])
  else inWidth field c

/-- Reads one character. A doubled percent sign is one only if nothing stands between. -/
def advance : Mode → Char → Mode × List Piece
  | .plain, c => if c = '%' then (.start, []) else (.plain, [.plain c])
  | .start, c =>
    if c = '%' then (.plain, [.plain '%'])
    else if c = '(' then (.plain, [.named])
    else inFlags {} c
  | .flags field, c => inFlags field c
  | .width field, c => inWidth field c
  | .precision field digits, c =>
    if c.isDigit then nextDigit precisionLimit digits c (.precision field)
    else finish { field with precision := some digits } c

/-- Cuts a template into pieces. -/
def pieces : Mode → List Char → List Piece
  | .plain, [] => []
  | _, [] => [.cutOff]
  | mode, c :: rest =>
    let (mode, done) := advance mode c
    done ++ pieces mode rest

/-- Fills up a text with spaces to its field width. -/
def pad (field : FieldLayout) (text : String) : String :=
  let gap := "".pushn ' ' (field.width - text.length)
  if field.left then text ++ gap else gap ++ text

/-- Lays out a number from its sign and its digits. -/
def layOutNumber (field : FieldLayout) (negative : Bool) (digits : String) : String :=
  let sign := if negative then "-" else if field.plus then "+" else if field.space then " " else ""
  if field.zeros && !field.left then
    sign ++ "".pushn '0' (field.width - sign.length - digits.length) ++ digits
  else pad field (sign ++ digits)

/-- The whole number an entry stands for, truncating toward zero. -/
def wholeOf : Entry Float → Except TemplateFault Int
  | .whole i => .ok i
  | .flag b => .ok (if b then 1 else 0)
  | .real x =>
    match Binary64.ofFloat x with
    | .nan => .error .notANumber
    | .infinite _ => .error .tooLarge
    | value => .ok value.wholePart
  | _ => .error .wrongKind

/-- The real number an entry stands for. -/
def realOf : Entry Float → Except TemplateFault Float
  | .real x => .ok x
  | .flag b => .ok (if b then 1 else 0)
  | .whole i => if (Float.ofInt i).isFinite then .ok (Float.ofInt i) else .error .tooLarge
  | _ => .error .wrongKind

/-- Shows a whole number; a precision is a least number of digits. -/
def showWhole (field : FieldLayout) (i : Int) : String :=
  layOutNumber field (i < 0) (Decimal.digitsPadded i.natAbs (field.precision.getD 0))

/-- The digits after the point of a real number: six unless a precision is given. In the
exponent form the largest precision leaves no room for the leading digit and counts as none. -/
def placesOf (field : FieldLayout) (layout : Decimal.Layout) : Nat :=
  match layout, field.precision with
  | _, none => 6
  | .exponent, some precision => if precision = precisionLimit then 0 else precision
  | .positional, some precision => precision

/-- Shows a real number. -/
def showReal (field : FieldLayout) (layout : Decimal.Layout) (x : Float) : String :=
  let value := Binary64.ofFloat x
  layOutNumber field value.isNegative (Decimal.unsigned layout (placesOf field layout) value)

/-- Shows a text; a precision cuts it off. -/
def showText (field : FieldLayout) (text : String) : String :=
  pad field (match field.precision with
    | some limit => String.ofList (text.toList.take limit)
    | none => text)

/-- Shows an entry as its directive asks. -/
def showEntry (field : FieldLayout) (letter : Char) (entry : Entry Float) : Except TemplateFault String :=
  if letter = 'd' then do
    let i ← wholeOf entry
    if wholePrecisionLimit < field.precision.getD 0 then throw .tooLarge
    return showWhole field i
  else if letter = 's' then return showText field entry.plainText
  else if letter = 'e' then return showReal field .exponent (← realOf entry)
  else if letter = 'f' then return showReal field .positional (← realOf entry)
  else throw .unknownLetter

/-- Fills pieces from left to right. -/
def fillPieces : List Piece → List (Entry Float) → Except TemplateFault String
  | [], [] => .ok ""
  | [], _ :: _ => .error .tooManyEntries
  | .plain c :: rest, entries => do return c.toString ++ (← fillPieces rest entries)
  | .named :: _, _ => .error .namedEntry
  | .cutOff :: _, _ => .error .incomplete
  | .oversized :: _, _ => .error .oversized
  | .directive _ _ :: _, [] => .error .tooFewEntries
  | .directive field letter :: rest, entry :: entries => do
    let shown ← showEntry field letter entry
    return shown ++ (← fillPieces rest entries)

/-- Fills a template. Without entries the template is the line as it stands, percent
signs included. -/
def fill (template : String) (entries : List (Entry Float)) : Except TemplateFault String :=
  if entries.isEmpty then .ok template
  else fillPieces (pieces .plain template.toList) entries

end Template

end NonsmoothDescent
