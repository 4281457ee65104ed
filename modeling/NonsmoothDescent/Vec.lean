import NonsmoothDescent.Scalar

/-!
# Vectors

A vector is the list of its entries. Products and sums run from the first entry to
the last and start at zero. `dot` and `combine` read as far as the shorter vector
goes and are meant for vectors of one length; `dot?` and `pairwise?` are the forms
that check. Entrywise arithmetic lets a vector of length one stand for a constant
vector of any length, an inner product never does.
-/

namespace NonsmoothDescent.Vec

variable {α : Type} [Scalar α]

/-- The sum of all entries. -/
def sum (v : List α) : α := v.foldl (· + ·) 0

/-- The inner product. -/
def dot (v w : List α) : α := sum (List.zipWith (· * ·) v w)

/-- The inner product of two vectors of one length. -/
def dot? (v w : List α) : Option α := if v.length = w.length then some (dot v w) else none

/-- The squared Euclidean length. -/
def normSq (v : List α) : α := dot v v

/-- The largest absolute value of an entry, zero for the empty vector. -/
def normInf (v : List α) : α := (v.map Scalar.abs).foldl Scalar.larger 0

/-- The largest entry; zero for the empty vector. -/
def maximum : List α → α
  | [] => 0
  | a :: rest => rest.foldl Scalar.larger a

/-- The zero vector of a given length. -/
def zeros (n : Nat) : List α := List.replicate n 0

/-- A multiple of a vector. -/
def scale (a : α) (v : List α) : List α := v.map (a * ·)

/-- Adds two vectors of one length. -/
def add (v w : List α) : List α := List.zipWith (· + ·) v w

/-- The vector `a * v + b * w` of two vectors of one length. -/
def combine (a : α) (v : List α) (b : α) (w : List α) : List α := add (scale a v) (scale b w)

/-- Entrywise operation on vectors of one length, or where one of them has length one. -/
def pairwise? (op : α → α → α) (v w : List α) : Option (List α) :=
  if v.length = w.length then some (List.zipWith op v w)
  else match v, w with
    | [a], _ => some (w.map (op a ·))
    | _, [b] => some (v.map (op · b))
    | _, _ => none

/-- A vector of the given length: missing entries are zero, surplus ones are dropped. -/
def fit (n : Nat) (v : List α) : List α := v.take n ++ zeros (n - v.length)

/-- Whether all entries are finite. -/
def isFinite (v : List α) : Bool := v.all Scalar.isFinite

end NonsmoothDescent.Vec
