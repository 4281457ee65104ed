import NonsmoothDescent.Decimal.Numeral
import NonsmoothDescent.Fault
import NonsmoothDescent.Options.Basic

/-!
# Options from entries

Options are given as names with loosely typed values. Any value has a truth value;
flags, whole numbers and numerals have a real value; the iteration limit must equal
its own whole part, which no text does. Options are checked one after another in
the order of the table, so of several faults the first in that order is told. Names
are read before any value, and of several spellings of one option the last wins.
-/

namespace NonsmoothDescent

/-- How whole numbers and texts are read as scalars. -/
class ScalarReader (α : Type) where
  /-- The nearest scalar of a whole number, unless it is too large. -/
  ofWhole? : Int → Option α
  /-- The scalar that a numeral stands for. -/
  ofText? : String → Option α

instance : ScalarReader Float where
  ofWhole? i := if (Float.ofInt i).isFinite then some (Float.ofInt i) else none
  ofText? text := (Numeral.read? text).map Numeral.toFloat

namespace Entry

variable {α : Type} [Scalar α]

/-- The truth value: false are nothing, zero, and what is empty. -/
def truth : Entry α → Bool
  | .nothing => false
  | .flag b => b
  | .whole i => i ≠ 0
  | .real x => !Scalar.same x 0
  | .text s => !s.isEmpty
  | .list items => !items.isEmpty

/-- The real value. -/
def real? [ScalarReader α] : Entry α → Except (Fault α) α
  | .flag b => .ok (if b then 1 else 0)
  | .whole i => match ScalarReader.ofWhole? i with
    | some x => .ok x
    | none => .error .tooLarge
  | .real x => .ok x
  | .text s => match ScalarReader.ofText? s with
    | some x => .ok x
    | none => .error .notANumber
  | .nothing | .list _ => .error .wrongKind

/-- The whole number that the entry equals. -/
def whole? : Entry α → Except (Fault α) Int
  | .flag b => .ok (if b then 1 else 0)
  | .whole i => .ok i
  | .real x =>
    if Scalar.isFinite x then
      let i := Scalar.truncate x
      if Scalar.same x (Scalar.ofInt i) then .ok i else .error (.limitNotWhole (.real x))
    else if Scalar.same x x then .error .tooLarge
    else .error .notANumber
  | .text s => match Numeral.readWhole? s with
    | some _ => .error (.limitNotWhole (.text s))
    | none => .error .notANumber
  | .nothing | .list _ => .error .wrongKind

end Entry

namespace Options

variable {α : Type} [Scalar α] [ScalarReader α]

/-- Whether a value lies in the range of a real-valued option. -/
def inRange (name : Amount) (value : α) : Bool :=
  let below := match (name.upperBound? : Option α) with
    | some bound => decide (value ≤ bound)
    | none => true
  0 ≤ value && below

/-- Gives an option the value of an entry. -/
def assign (o : Options α) (name : OptionName) (given : Entry α) : Except (Fault α) (Options α) :=
  match name with
  | .toggle t => .ok (o.switch given.truth t)
  | .amount a => do
    let value ← given.real?
    if inRange a value then return o.set value a else throw (.amountOutOfRange a value)
  | .iterationLimit => do
    let value ← given.whole?
    if value < 0 then throw (.limitNegative value)
    else return { o with iterationLimit := value.toNat }

/-- The last value given for an option. -/
def lastGiven? (given : List (OptionName × Entry α)) (name : OptionName) : Option (Entry α) :=
  (given.reverse.find? fun pair => pair.1 = name).map Prod.snd

/-- Options from named values. An option that is not named keeps its default. -/
def ofNamed (given : List (OptionName × Entry α)) : Except (Fault α) (Options α) :=
  OptionName.all.foldlM (fun o name =>
    match lastGiven? given name with
    | some entry => o.assign name entry
    | none => .ok o) {}

/-- A list of pairs as a mapping: a key given twice keeps its first place and its last
value. -/
def mapping {β : Type} (pairs : List (String × β)) : List (String × β) :=
  pairs.foldl (fun made pair =>
    if made.any (·.1 == pair.1) then
      made.map fun old => if old.1 == pair.1 then (old.1, pair.2) else old
    else made ++ [pair]) []

/-- Reads all names of a mapping, in any spelling. -/
def readNames (given : List (String × Entry α)) : Except (Fault α) (List (OptionName × Entry α)) :=
  given.mapM fun (text, entry) =>
    match OptionName.read? text with
    | some name => .ok (name, entry)
    | none => .error (.unknownOption text)

/-- Options from a mapping with names in any spelling. -/
def ofMapping (given : List (String × Entry α)) : Except (Fault α) (Options α) := do
  ofNamed (← readNames given)

/-- Options from plain names only. -/
def ofPlain (given : List (String × Entry α)) : Except (Fault α) (Options α) := do
  ofNamed (← given.mapM fun (text, entry) =>
    match OptionName.ofPlain? text with
    | some name => .ok (name, entry)
    | none => .error (.unexpectedName text))

/-- The plain names of the options that a mapping sets, each once, in alphabetical order. -/
def namesSet (given : List (String × Entry α)) : List String :=
  ((OptionName.all.filter fun name => given.any fun pair =>
    OptionName.read? pair.1 == some name).map OptionName.plain).mergeSort (fun a b => decide (a ≤ b))

/-- The message that options were set from a mapping. -/
def message (given : List (String × Entry α)) : String :=
  "[Config] cutting-plane options set: " ++
    Text.bracketed ((namesSet given).map Text.quoted)

/-- The values of all options, by name. -/
def toEntries (o : Options α) : List (OptionName × Entry α) :=
  OptionName.all.map fun name => (name, match name with
    | .toggle t => .flag (o.isOn t)
    | .amount a => .real (o.get a)
    | .iterationLimit => .whole o.iterationLimit)

end Options

end NonsmoothDescent
