import NonsmoothDescent.Proofs.Subproblem.Certificate
import NonsmoothDescent.Proofs.Subproblem.Hull

/-!
# Carrying a result over

A weighting of new planes that mixes to the same plane as the old weights has the same
step and the same dual value. Then no feasible step of the new subproblem does better
than the old one could, up to the gap of the old weights. Such a weighting exists if the
new planes begin with the old ones, if the old mixture is one of them, and in any case
if it lies in their hull.
-/

namespace NonsmoothDescent

variable {K : Type} [Field K] [LinearOrder K] [FloorRing K]

/-- A positive radius gives a positive bound, and any other none. -/
theorem StepBound.positive_ofRadius [IsStrictOrderedRing K] (radius : Option K) :
    (StepBound.ofRadius radius).Positive := by
  cases radius with
  | none => trivial
  | some r =>
    by_cases hr : 0 < r
    · rw [ofRadius, if_pos hr]
      exact hr
    · rw [ofRadius, if_neg hr]
      trivial

namespace Solver

/-- The mixture of the planes by the weights. -/
def combined (s : Solver K) : Plane K :=
  Subproblem.mix s.dimension s.subproblem.planes s.weights

/-- Kept weights that are a weighting are the start of a warm solve. -/
theorem warmStart_eq [IsStrictOrderedRing K] {s : Solver K} {kept : List K} {m : Nat}
    (hsaved : s.saved = some kept) (hw : IsWeighting m kept) (hm : m ≤ s.cuts) :
    s.warmStart = kept ++ Vec.zeros (s.cuts - m) := by
  unfold warmStart
  rw [hsaved]
  dsimp only
  rw [if_neg, hw.length_eq]
  simp only [hw.length_eq, hw.sum_eq_one, Bool.or_eq_true, decide_eq_true_eq, not_or, not_lt,
    not_le]
  exact ⟨hm, zero_lt_one⟩

/-- The weights carry the result of one solver over to the planes of another. -/
structure Carries (s t : Solver K) (weights : List K) : Prop where
  isWeighting : IsWeighting t.cuts weights
  /-- They have the same dual value. -/
  dual_eq : t.subproblem.dual weights = s.subproblem.dual s.weights
  /-- They have the same step. -/
  step_eq : t.subproblem.stepAt weights = s.step
  /-- Up to the old gap, no dual value of the old planes is larger. -/
  dual_le : ∀ other, IsWeighting s.cuts other →
    s.subproblem.dual other ≤ t.subproblem.dual weights + s.subproblem.gap s.weights
  /-- Up to the old gap, no primal value of the new planes is less than the old one. -/
  primal_le : ∀ y, t.subproblem.Feasible y →
    s.subproblem.primal s.step ≤ t.subproblem.primal y + s.subproblem.gap s.weights

/-- No weighting of the planes has a larger dual value than the weights. -/
def Optimal (s : Solver K) : Prop :=
  ∀ other, IsWeighting s.cuts other → s.subproblem.dual other ≤ s.subproblem.dual s.weights

/-- Optimal weights have no smaller dual value than a result that can be carried over. -/
theorem Carries.dual_le_of_optimal {s t : Solver K} {weights : List K} (h : s.Carries t weights)
    (ht : t.Optimal) : s.subproblem.dual s.weights ≤ t.subproblem.dual t.weights := by
  rw [← h.dual_eq]
  exact ht weights h.isWeighting

section Carries

variable [IsStrictOrderedRing K] {s t : Solver K} {weights : List K}
  (hs : s.subproblem.WellFormed) (ht : t.subproblem.WellFormed) (hw : s.Weighted)
  (hb : t.subproblem.bound = s.subproblem.bound) (hpos : s.subproblem.bound.Positive)
include hs ht hw hb hpos

/-- Weights that mix the new planes to the old combination carry the result over. -/
theorem carries_of_mix_eq (hweights : IsWeighting t.cuts weights)
    (hmix : Subproblem.mix t.dimension t.subproblem.planes weights = s.combined) :
    s.Carries t weights := by
  have hdual : t.subproblem.dual weights = s.subproblem.dual s.weights :=
    Subproblem.dual_eq_of_mix_eq hb hmix
  refine ⟨hweights, hdual, ?_, fun other ho => ?_, fun y hy => ?_⟩
  · rw [hw.step_eq]
    exact Subproblem.stepAt_eq_of_mix_eq hb hmix
  · rw [hdual]
    exact Subproblem.dual_le_dual_add_gap hs hpos ho
  · have hbelow := Subproblem.dual_add_le_primal ht (hb ▸ hpos) hweights hy
    have hgap := Subproblem.primal_sub_dual hs s.weights
    have hdistance := Vec.normSq_nonneg (Vec.sub y (t.subproblem.stepAt weights))
    rw [hw.step_eq]
    linarith

/-- Planes behind the old ones get no weight. -/
theorem carries_append {more : List (Plane K)} (hd : t.dimension = s.dimension)
    (h : t.subproblem.planes = s.subproblem.planes ++ more) :
    s.Carries t (s.weights ++ Vec.zeros (t.cuts - s.cuts)) := by
  have hcuts : t.cuts = s.cuts + more.length := by
    rw [cuts, h, List.length_append]
    rfl
  rw [hcuts, Nat.add_sub_cancel_left]
  refine carries_of_mix_eq hs ht hw hb hpos ?_ ?_
  · rw [hcuts]
    exact Subproblem.isWeighting_append_zeros hw.isWeighting _
  · rw [combined, h, hd]
    refine Subproblem.mix_append_zeros _ ?_ hw.isWeighting.length_eq
    rw [← h, ← hd]
    exact ht

/-- Where the old mixture is the second plane, it gets all weight. -/
theorem carries_second {first : Plane K} {rest : List (Plane K)}
    (h : t.subproblem.planes = first :: s.combined :: rest) :
    s.Carries t (0 :: 1 :: Vec.zeros (t.cuts - 2)) := by
  have hcuts : t.cuts = rest.length + 2 := by
    rw [cuts, h]
    rfl
  rw [hcuts, Nat.add_sub_cancel]
  refine carries_of_mix_eq hs ht hw hb hpos ?_ ?_
  · rw [hcuts]
    exact Subproblem.isWeighting_second _
  · rw [h]
    exact Subproblem.mix_second _ (h ▸ ht)

/-- An old mixture in the hull of the new planes is carried over by some weights. -/
theorem exists_carries (hd : t.dimension = s.dimension)
    (h : s.combined.point t.dimension ∈ Subproblem.hull t.dimension t.subproblem.planes) :
    ∃ weights, s.Carries t weights := by
  have hlength : s.combined.slope.length = t.dimension := by
    rw [hd]
    exact Subproblem.length_slope_mix hs _
  obtain ⟨weights, hweights, hmix⟩ := Subproblem.exists_mix_of_mem_hull ht hlength h
  exact ⟨weights, carries_of_mix_eq hs ht hw hb hpos hweights hmix⟩

end Carries

end Solver

end NonsmoothDescent
