import Mathlib
import NonsmoothDescent.Subproblem.Basic

/-!
# Exact arithmetic

Every ordered field with a floor is a type of scalars. Its operations are those of
the field, all its elements are finite, and the choices between two scalars are its
minimum, maximum and absolute value. What the search does in exact arithmetic is
what it does over such a field; the real and the rational numbers are two of them.

Clipping an entry into a bound is projection onto an interval: no admissible entry
lies on the far side of the clipped one.
-/

namespace NonsmoothDescent

variable {K : Type} [Field K] [LinearOrder K] [FloorRing K]

/-- The scalars of exact arithmetic. -/
instance (priority := low) exactScalar : Scalar K where
  ofInt := Int.cast
  isFinite := fun _ => true
  truncate := fun x => if 0 ≤ x then ⌊x⌋ else ⌈x⌉
  square := fun x => x * x
  decLt := inferInstance
  decLe := inferInstance

namespace Scalar

/-- Exact scalars are all finite. -/
@[simp] theorem isFinite_exact (a : K) : isFinite a = true := rfl

/-- The lesser of two exact scalars is their minimum. -/
theorem lesser_eq_min (a b : K) : lesser a b = min a b := by
  unfold lesser
  split
  · rename_i h
    exact (min_eq_right h.le).symm
  · rename_i h
    exact (min_eq_left (not_lt.mp h)).symm

/-- The greater of two exact scalars is their maximum. -/
theorem greater_eq_max (a b : K) : greater a b = max a b := by
  unfold greater
  split
  · rename_i h
    exact (max_eq_right h.le).symm
  · rename_i h
    exact (max_eq_left (not_lt.mp h)).symm

/-- The larger of two exact scalars is their maximum. -/
theorem larger_eq_max (a b : K) : larger a b = max a b := by
  unfold larger
  split
  · rename_i h
    exact (max_eq_right h.le).symm
  · rename_i h
    rw [if_pos (not_lt.mp h), max_eq_left (not_lt.mp h)]

/-- The absolute value of an exact scalar is that of the field. -/
theorem abs_eq [IsStrictOrderedRing K] (a : K) : Scalar.abs a = |a| := by
  unfold Scalar.abs
  split
  · rename_i h
    exact (abs_of_pos h).symm
  · rename_i h
    rw [zero_sub, abs_of_nonpos (not_lt.mp h)]

end Scalar

namespace StepBound

variable [IsStrictOrderedRing K]

/-- A bound leaves room around zero. -/
def Positive : StepBound K → Prop
  | .unbounded => True
  | .within radius => 0 < radius

/-- An entry lies within the bound. -/
def Allows : StepBound K → K → Prop
  | .unbounded, _ => True
  | .within radius, x => |x| ≤ radius

/-- What was clipped is within the bound. -/
theorem allows_clip {bound : StepBound K} (hb : bound.Positive) (x : K) :
    bound.Allows (bound.clip x) := by
  cases bound with
  | unbounded => trivial
  | within radius =>
    have hr : 0 < radius := hb
    simp only [Allows, clip]
    split
    · rw [abs_neg, abs_of_pos hr]
    · split
      · rw [abs_of_pos hr]
      · exact abs_le.mpr ⟨by linarith, by linarith⟩

/-- Zero is clipped to zero, so that without slopes there is no step. -/
theorem clip_neg_zero {bound : StepBound K} (hb : bound.Positive) :
    bound.clip (-0) = 0 := by
  cases bound with
  | unbounded => exact neg_zero
  | within radius =>
    have hr : 0 < radius := hb
    simp only [clip, neg_zero]
    rw [if_neg (by linarith), if_neg (by linarith)]

/-- Clipping `-v` minimizes `v * y + ½ y²` over the bound: where it moves the entry, it
moves it toward every admissible one. -/
theorem clip_optimal {bound : StepBound K} (hb : bound.Positive) (v : K) {y : K}
    (hy : bound.Allows y) : 0 ≤ (v + bound.clip (-v)) * (y - bound.clip (-v)) := by
  cases bound with
  | unbounded => simp [clip]
  | within radius =>
    obtain ⟨hlow, hhigh⟩ := abs_le.mp (show |y| ≤ radius from hy)
    simp only [clip]
    split
    · exact mul_nonneg (by linarith) (by linarith)
    · split
      · exact mul_nonneg_of_nonpos_of_nonpos (by linarith) (by linarith)
      · simp

end StepBound

end NonsmoothDescent
