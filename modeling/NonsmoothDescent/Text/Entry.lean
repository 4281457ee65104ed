import NonsmoothDescent.Decimal.Shortest
import NonsmoothDescent.Text.Quoted

/-!
# Loosely typed entries

Option values and the arguments of a report line arrive as entries: nothing, a
flag, a whole number of any size, a real number, a text, or a list of entries.
This module gives the type, generic in the real numbers, and the text of an entry
over the doubles. Inside a list a text is quoted; on its own it stands for itself.
-/

namespace NonsmoothDescent

/-- A value whose kind is not known in advance. -/
inductive Entry (α : Type) where
  /-- No value. -/
  | nothing
  /-- A truth value. -/
  | flag (b : Bool)
  /-- A whole number of any size. -/
  | whole (i : Int)
  /-- A real number. -/
  | real (x : α)
  /-- A text. -/
  | text (s : String)
  /-- Several entries. -/
  | list (items : List (Entry α))

namespace Entry

/-- The spelling of a truth value. -/
def flagText (b : Bool) : String := if b then "True" else "False"

mutual

/-- The text of an entry inside a list. -/
def nestedText : Entry Float → String
  | .nothing => "None"
  | .flag b => flagText b
  | .whole i => toString i
  | .real x => Decimal.shortest x
  | .text s => Text.quoted s
  | .list items => Text.bracketed (nestedTexts items)

/-- The texts of several entries inside a list. -/
def nestedTexts : List (Entry Float) → List String
  | [] => []
  | item :: items => nestedText item :: nestedTexts items

end

/-- The text of an entry on its own. -/
def plainText : Entry Float → String
  | .text s => s
  | entry => entry.nestedText

end Entry

end NonsmoothDescent
