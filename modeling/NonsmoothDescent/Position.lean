/-!
# Positions

A position in a sequence is a whole number: zero is the first place, and a negative
number counts from the end, minus one being the last place.
-/

namespace NonsmoothDescent.Position

/-- Whether a whole number fits a machine word of 64 bits, as positions have to. -/
def isWord (i : Int) : Bool := -0x8000000000000000 ≤ i && i < 0x8000000000000000

/-- The place that a position stands for in a sequence of the given size. -/
def resolve? (size : Nat) (i : Int) : Option Nat :=
  let place := if i < 0 then i + size else i
  if 0 ≤ place ∧ place < size then some place.toNat else none

/-- A position counted from the start is its own place, as long as there is one. -/
theorem resolve?_ofNat {size place : Nat} (h : place < size) :
    resolve? size place = some place := by
  have start : ¬ (place : Int) < 0 := by omega
  simp [resolve?, start, h]

/-- Places lie within the sequence. -/
theorem lt_of_resolve? {size place : Nat} {i : Int} (h : resolve? size i = some place) :
    place < size := by
  simp only [resolve?, Option.ite_none_right_eq_some, Option.some.injEq] at h
  obtain ⟨⟨_, below⟩, rfl⟩ := h
  omega

end NonsmoothDescent.Position
