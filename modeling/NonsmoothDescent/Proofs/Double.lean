import Mathlib

/-!
# Comparing doubles

A double that is not a number compares with nothing. Every other double compares with zero,
and from both sides alike.
-/

namespace NonsmoothDescent.Double

open Float.Model

variable {x : Float}

/-- One double is below another if their models compare so. -/
theorem lt_iff_compare {x y : Float} :
    x < y ↔ x.toModel.unpack.compare y.toModel.unpack = some .lt := by
  have hlt : x < y ↔ x.toModel.unpack.lt y.toModel.unpack = true := decide_eq_true_iff
  rw [hlt]
  exact beq_iff_eq

/-- One double is at most another if their models compare so. -/
theorem le_iff_compare {x y : Float} :
    x ≤ y ↔ (x.toModel.unpack.compare y.toModel.unpack).any (·.isLE) = true :=
  decide_eq_true_iff

/-- A double is NaN if its model is no number. -/
theorem isNaN_iff : x.isNaN = true ↔ x.toModel.unpack = .notANumber := by
  change x.toModel.unpack.isNaN = true ↔ _
  cases x.toModel.unpack <;> simp [UnpackedFloat.isNaN]

/-- The model of zero is the zero with a positive sign. -/
theorem unpack_zero : (0 : Float).toModel.unpack = .zero .positive := rfl

/-- A number that can be compared with zero at all compares the same from both sides. -/
theorem compare_zero_cases (u : UnpackedFloat) : u = .notANumber ∨
    ∃ order, u.compare (.zero .positive) = some order ∧
      (UnpackedFloat.zero .positive).compare u = some order.swap := by
  cases u with
  | notANumber => exact .inl rfl
  | zero => exact .inr ⟨_, rfl, rfl⟩
  | infinity sign | finite sign => cases sign <;> exact .inr ⟨_, rfl, rfl⟩

/-- A double that is not at most zero is positive or NaN. -/
theorem pos_or_isNaN_of_not_le (h : ¬ x ≤ 0) : 0 < x ∨ x.isNaN = true := by
  rw [le_iff_compare, unpack_zero] at h
  rw [lt_iff_compare, isNaN_iff, unpack_zero]
  rcases compare_zero_cases x.toModel.unpack with hnan | ⟨order, hleft, hright⟩
  · exact .inr hnan
  · rw [hleft] at h
    rw [hright]
    cases order with
    | gt => exact .inl rfl
    | lt | eq => exact absurd rfl h

/-- A double that is not below zero is at least zero or NaN. -/
theorem nonneg_or_isNaN_of_not_lt (h : ¬ x < 0) : 0 ≤ x ∨ x.isNaN = true := by
  rw [lt_iff_compare, unpack_zero] at h
  rw [le_iff_compare, isNaN_iff, unpack_zero]
  rcases compare_zero_cases x.toModel.unpack with hnan | ⟨order, hleft, hright⟩
  · exact .inr hnan
  · rw [hleft] at h
    rw [hright]
    cases order with
    | lt => exact absurd rfl h
    | gt | eq => exact .inl rfl

/-- A double that reaches zero is a number. -/
theorem isNaN_eq_false_of_nonneg (h : 0 ≤ x) : x.isNaN = false := by
  rw [← Bool.not_eq_true, isNaN_iff]
  intro hnan
  rw [le_iff_compare, hnan] at h
  cases h

end NonsmoothDescent.Double
