import NonsmoothDescent.Position

/-!
# Tensors

Numbers may arrive as one number, a vector, or vectors nested to any depth. Nested
numbers form a tensor if everything at one depth has one shape; otherwise they are
uneven. A tensor keeps its shape and its entries row by row. Two tensors combine
entrywise if their shapes agree from the last axis backwards, where an axis of
size one, or one that is not there, stretches to the size of the other. Shapes are
limited in the number of axes and in their sizes, also where there are no entries.
-/

namespace NonsmoothDescent

/-- Numbers nested to any depth. -/
inductive Nested (α : Type) where
  /-- A single number. -/
  | number (x : α)
  /-- A row of nested numbers. -/
  | row (items : List (Nested α))

/-- A shape and the entries row by row. -/
structure Tensor (α : Type) where
  /-- Size along each axis, the outermost first. -/
  shape : List Nat
  /-- Entries, the last axis running fastest. -/
  entries : List α
  deriving Repr

namespace Tensor

/-- The number of entries of a shape. -/
def volume (shape : List Nat) : Nat := shape.foldl (· * ·) 1

/-- The largest number of axes. -/
def axisLimit : Nat := 64

/-- The number of entries at which a tensor, at eight bytes an entry, fills 63 bits. -/
def volumeLimit : Nat := 0x1000000000000000

/-- Whether a shape is within the limits. Axes of size zero do not count as sizes. -/
def isAllowed (shape : List Nat) : Bool :=
  shape.length ≤ axisLimit && volume (shape.filter (· ≠ 0)) < volumeLimit

end Tensor

namespace Nested

variable {α : Type}

mutual

/-- The shape of nested numbers, if they are even. A row with no items has one axis. -/
def shape? : Nested α → Option (List Nat)
  | .number _ => some []
  | .row [] => some [0]
  | .row (item :: items) => do
    let first ← shape? item
    if shapesAre first items then some ((items.length + 1) :: first) else none

/-- Whether all items have the given shape. -/
def shapesAre (shape : List Nat) : List (Nested α) → Bool
  | [] => true
  | item :: items => shape? item == some shape && shapesAre shape items

end

mutual

/-- The numbers from left to right. -/
def entries : Nested α → List α
  | .number x => [x]
  | .row items => entriesOf items

/-- The numbers of several items from left to right. -/
def entriesOf : List (Nested α) → List α
  | [] => []
  | item :: items => entries item ++ entriesOf items

end

/-- The tensor of nested numbers, if they are even and not nested too deep. -/
def tensor? (v : Nested α) : Option (Tensor α) :=
  (v.shape?.filter Tensor.isAllowed).map fun shape => ⟨shape, v.entries⟩

end Nested

namespace Tensor

variable {α β : Type}

/-- A vector as a tensor with one axis. -/
def ofVector (v : List α) : Tensor α := ⟨[v.length], v⟩

/-- Applies a function to each entry. -/
def map (f : α → β) (t : Tensor α) : Tensor β := ⟨t.shape, t.entries.map f⟩

/-- The sizes asked for, where a negative one stands for whatever fits. More than one
such size, or one beside sizes that do not divide the count, fits nothing. -/
def resolveShape? (count : Nat) (sizes : List Int) : Option (List Nat) :=
  let known := volume ((sizes.filter (0 ≤ ·)).map Int.toNat)
  match (sizes.filter (· < 0)).length with
  | 0 => if known = count then some (sizes.map Int.toNat) else none
  | 1 =>
    if known ≠ 0 ∧ count % known = 0 then
      some (sizes.map fun size => if size < 0 then count / known else size.toNat)
    else none
  | _ => none

/-- The same entries in another shape, which must be within the limits. -/
def reshape? (t : Tensor α) (sizes : List Int) : Option (Tensor α) :=
  if sizes.all Position.isWord then
    ((resolveShape? t.entries.length sizes).filter isAllowed).map fun shape => ⟨shape, t.entries⟩
  else none

/-- The common size of two axes. -/
def commonSize? (a b : Nat) : Option Nat :=
  if a = b then some a else if a = 1 then some b else if b = 1 then some a else none

/-- The common shape of two shapes with equally many axes. -/
def commonShape? : List Nat → List Nat → Option (List Nat)
  | [], [] => some []
  | a :: as, b :: bs => do return (← commonSize? a b) :: (← commonShape? as bs)
  | _, _ => none

/-- Puts axes of size one in front until there are `axes` of them. -/
def withAxes (axes : Nat) (shape : List Nat) : List Nat :=
  List.replicate (axes - shape.length) 1 ++ shape

/-- Cuts entries into parts of a given size. -/
def parts (size : Nat) : Nat → List α → List (List α)
  | 0, _ => []
  | count + 1, entries => entries.take size :: parts size count (entries.drop size)

/-- Repeats entries along the axes of size one until they fill the larger shape. -/
def stretch : List Nat → List Nat → List α → List α
  | a :: as, b :: bs, entries =>
    let rows := (parts (volume as) a entries).map (stretch as bs)
    if a = b then rows.flatten else (List.replicate b rows.flatten).flatten
  | _, _, entries => entries

/-- Combines two tensors entry by entry. -/
def pairwise? (op : α → α → β) (s t : Tensor α) : Option (Tensor β) :=
  let axes := max s.shape.length t.shape.length
  let sShape := withAxes axes s.shape
  let tShape := withAxes axes t.shape
  (commonShape? sShape tShape).map fun shape =>
    ⟨shape, List.zipWith op (stretch sShape shape s.entries) (stretch tShape shape t.entries)⟩

/-- The entries that fill a vector of length `n`: as many as that, or one for all. Axes
of size one in front do not count. -/
def fill? (n : Nat) (t : Tensor α) : Option (List α) :=
  match t.shape.dropWhile (· = 1), t.entries with
  | [], [x] => some (List.replicate n x)
  | [size], entries => if size = n then some entries else none
  | _, _ => none

end Tensor

end NonsmoothDescent
