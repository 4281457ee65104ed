import NonsmoothDescent.Proofs.Scalar
import NonsmoothDescent.Options.Reader

/-!
# Accepted options

Options are accepted if all their amounts lie in range. Over exact numbers the defaults do,
and no amount of accepted options is negative.
-/

namespace NonsmoothDescent.Options

variable {α : Type} [Scalar α]

/-- All amounts lie in range. -/
def Accepted (o : Options α) : Prop := ∀ a : Amount, inRange a (o.get a) = true

variable {K : Type} [Field K] [LinearOrder K] [FloorRing K]

/-- Accepted amounts are not negative. -/
theorem Accepted.nonneg {o : Options K} (h : o.Accepted) (a : Amount) : 0 ≤ o.get a := by
  have hrange := h a
  simp only [inRange, Bool.and_eq_true, decide_eq_true_eq] at hrange
  exact hrange.1

variable [IsStrictOrderedRing K]

/-- Every default passes its own check. -/
theorem accepted_default : ({} : Options K).Accepted := by
  intro a
  cases a <;> simp only [inRange, get, Amount.upperBound?, Bool.and_eq_true] <;>
    norm_num

end NonsmoothDescent.Options
