import NonsmoothDescent.Proofs.Subproblem.Solve

/-!
# The model and the decrease it predicts

The model of a subproblem at a step is the largest plane value there. Where no plane
starts above a value, the model starts at most there, no weighting has a dual value that
comes closer to it than half the squared length of its step, and at that step the model
is lower by the squared length, up to the gap. The bound on the step does not matter: a
step that is clipped still goes down along the combination by its squared length.
-/

namespace NonsmoothDescent

variable {K : Type} [Field K] [LinearOrder K] [FloorRing K]

/-- The zero step is within every positive bound. -/
theorem StepBound.allows_zero [IsStrictOrderedRing K] {bound : StepBound K} (hb : bound.Positive) :
    bound.Allows 0 := by
  cases bound with
  | unbounded => trivial
  | within radius => exact abs_zero.trans_le (le_of_lt hb)

namespace Subproblem

/-- The model at a step: the largest plane value. -/
def model (p : Subproblem K) (step : List K) : K := Vec.maximum (p.valuesAt step)

/-- At the zero step the values of the planes are their biases. -/
theorem valuesAt_zeros (p : Subproblem K) (n : Nat) : p.valuesAt (Vec.zeros n) = p.biases :=
  List.map_congr_left fun plane _ => by rw [Vec.dot_comm, Vec.dot_zeros_left, add_zero]

/-- The model starts at the largest bias. -/
theorem model_zeros {p : Subproblem K} {plane : Plane K} (hmem : plane ∈ p.planes)
    (h : ∀ q ∈ p.planes, q.bias ≤ plane.bias) (n : Nat) :
    p.model (Vec.zeros n) = plane.bias := by
  have hbias : plane.bias ∈ p.biases := List.mem_map_of_mem hmem
  rw [model, valuesAt_zeros]
  refine le_antisymm ?_ (Vec.le_maximum hbias)
  exact (Vec.maximum_le_iff (List.ne_nil_of_mem hbias)).mpr (List.forall_mem_map.mpr h)

variable [IsStrictOrderedRing K] {p : Subproblem K} {weights : List K} {value : K}

/-- Along its step a combination falls by the squared length at least. -/
theorem dot_stepOf_le (hb : p.bound.Positive) (v : List K) :
    Vec.dot v (p.stepOf v) ≤ -Vec.normSq (p.stepOf v) := by
  induction v with
  | nil => simp [stepOf, Vec.normSq]
  | cons a v ih =>
    have hclip := StepBound.clip_optimal hb a (StepBound.allows_zero hb)
    simp only [stepOf, Vec.normSq, List.map_cons, Vec.dot_cons] at ih ⊢
    linarith

/-- No dual value comes closer to a bound on the biases than half the squared step. -/
theorem dual_le_sub_normSq (hb : p.bound.Positive) (hw : IsWeighting p.planes.length weights)
    (h : ∀ q ∈ p.planes, q.bias ≤ value) :
    p.dual weights ≤ value - 1 / 2 * Vec.normSq (p.stepAt weights) := by
  have hmean : Vec.dot weights p.biases ≤ value :=
    hw.dot_le (List.length_map ..) (List.forall_mem_map.mpr h)
  have hfall := dot_stepOf_le hb (p.combination weights)
  rw [dual_eq, Vec.dot_comm]
  simp only [stepAt] at *
  linarith

/-- At the step of a weighting the model is lower by the squared step, up to the gap. -/
theorem model_stepAt_le (hp : p.WellFormed) (hb : p.bound.Positive)
    (hw : IsWeighting p.planes.length weights) (h : ∀ q ∈ p.planes, q.bias ≤ value) :
    p.model (p.stepAt weights) ≤
      value - Vec.normSq (p.stepAt weights) + p.gap weights := by
  have hdual := dual_le_sub_normSq hb hw h
  have hgap := primal_sub_dual hp weights
  rw [primal] at hgap
  rw [model]
  linarith

end Subproblem

/-- The optimality error of a solver with a weighting is the gap. -/
theorem Solver.Weighted.optimalityError_eq [IsStrictOrderedRing K] {s : Solver K}
    (h : s.Weighted) : s.optimalityError = s.subproblem.gap s.weights := by
  have hlength : s.weights.length = s.cuts := h.isWeighting.length_eq
  have hne : s.weights.length ≠ 0 := by
    intro hzero
    have hsum := h.isWeighting.sum_eq_one
    rw [List.length_eq_zero_iff.mp hzero, Vec.sum_nil] at hsum
    exact zero_ne_one hsum
  unfold optimalityError
  rw [if_neg (not_or.mpr ⟨hne, not_not.mpr hlength⟩), h.step_eq]
  rfl

end NonsmoothDescent
