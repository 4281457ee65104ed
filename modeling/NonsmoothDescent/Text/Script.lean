/-!
# Blanks and decimal digits of any script

A numeral may be written with the decimal digits of any script and may be framed
by blanks of any kind. Reading starts by bringing a text to the ASCII forms: a
digit becomes the ASCII digit of the same value, a blank becomes a space. Of the
ASCII characters only the space and the five line and page marks (9 to 13) are
blanks; the separators (28 to 31) are not.
-/

namespace NonsmoothDescent.Text

/-- Code points of the digit zero of every script; the nine other digits follow each. -/
def zeroDigits : List Nat :=
  [0x30, 0x660, 0x6f0, 0x7c0, 0x966, 0x9e6, 0xa66, 0xae6, 0xb66, 0xbe6, 0xc66, 0xce6, 0xd66,
   0xde6, 0xe50, 0xed0, 0xf20, 0x1040, 0x1090, 0x17e0, 0x1810, 0x1946, 0x19d0, 0x1a80, 0x1a90,
   0x1b50, 0x1bb0, 0x1c40, 0x1c50, 0xa620, 0xa8d0, 0xa900, 0xa9d0, 0xa9f0, 0xaa50, 0xabf0,
   0xff10, 0x104a0, 0x10d30, 0x11066, 0x110f0, 0x11136, 0x111d0, 0x112f0, 0x11450, 0x114d0,
   0x11650, 0x116c0, 0x11730, 0x118e0, 0x11950, 0x11c50, 0x11d50, 0x11da0, 0x16a60, 0x16ac0,
   0x16b50, 0x1d7ce, 0x1d7d8, 0x1d7e2, 0x1d7ec, 0x1d7f6, 0x1e140, 0x1e2f0, 0x1e950, 0x1fbf0]

/-- The value of a decimal digit of any script. -/
def digitValue? (c : Char) : Option Nat :=
  (zeroDigits.find? fun first => first ≤ c.toNat && c.toNat < first + 10).map (c.toNat - ·)

/-- Blanks among the ASCII characters. -/
def isPlainBlank (c : Char) : Bool :=
  c = ' ' || (9 ≤ c.toNat && c.toNat ≤ 13)

/-- Blanks of any script. -/
def isBlank (c : Char) : Bool :=
  let n := c.toNat
  isPlainBlank c || n = 0x85 || n = 0xa0 || n = 0x1680 ||
    (0x2000 ≤ n && n ≤ 0x200a) || n = 0x2028 || n = 0x2029 || n = 0x202f || n = 0x205f || n = 0x3000

/-- The ASCII digit of a value below ten. -/
def asciiDigit (value : Nat) : Char := Char.ofNat ('0'.toNat + value)

/-- Digits and blanks of any script in their ASCII form; every other character stays. -/
def toAscii (text : List Char) : List Char :=
  text.map fun c =>
    if isBlank c then ' '
    else match digitValue? c with
      | some value => asciiDigit value
      | none => c

/-- The text without the blanks at both ends. -/
def trim (text : List Char) : List Char :=
  ((text.dropWhile isPlainBlank).reverse.dropWhile isPlainBlank).reverse

end NonsmoothDescent.Text
