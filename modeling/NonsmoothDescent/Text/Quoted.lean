import NonsmoothDescent.Text.Unmarked

/-!
# Quoted text

A quoted text stands between single quotes; if it holds a single quote and no
double quote, it stands between double quotes instead. The delimiter and the
backslash are escaped by a backslash, line breaks and tabs by their letters, and
other characters that leave no mark of their own by their code.
-/

namespace NonsmoothDescent.Text

/-- The last hexadecimal digits of a number, in small letters. -/
def hexDigits : Nat → Nat → List Char
  | 0, _ => []
  | count + 1, n => hexDigits count (n / 16) ++ [Nat.digitChar (n % 16)]

/-- A character by its code, in two, four or eight hexadecimal digits. -/
def byCode (c : Char) : List Char :=
  let n := c.toNat
  if n < 0x100 then '\\' :: 'x' :: hexDigits 2 n
  else if n < 0x10000 then '\\' :: 'u' :: hexDigits 4 n
  else '\\' :: 'U' :: hexDigits 8 n

/-- How one character is written between the given delimiters. -/
def quotedChar (delimiter c : Char) : List Char :=
  if c = delimiter || c = '\\' then ['\\', c]
  else if c = '\n' then ['\\', 'n']
  else if c = '\r' then ['\\', 'r']
  else if c = '\t' then ['\\', 't']
  else if leavesMark c then [c]
  else byCode c

/-- The delimiter of a quoted text. -/
def delimiter (text : List Char) : Char :=
  if '\'' ∈ text ∧ '"' ∉ text then '"' else '\''

/-- The quoted form of a text. -/
def quoted (text : String) : String :=
  let d := delimiter text.toList
  String.ofList (d :: text.toList.flatMap (quotedChar d) ++ [d])

/-- Items in brackets, separated by a comma and a space. -/
def bracketed (items : List String) : String := "[" ++ ", ".intercalate items ++ "]"

/-- Sizes in parentheses; a single one is followed by a comma. -/
def parenthesised (sizes : List Nat) : String :=
  match sizes with
  | [n] => "(" ++ toString n ++ ",)"
  | _ => "(" ++ ", ".intercalate (sizes.map toString) ++ ")"

end NonsmoothDescent.Text
