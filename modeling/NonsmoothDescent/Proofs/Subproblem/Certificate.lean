import NonsmoothDescent.Proofs.Subproblem.Solve

/-!
# What a gap certifies

A weighting of the planes bounds the primal value of every feasible step from below,
and its gap says how far its own step is from that bound. A small gap therefore
certifies the step as nearly least, as near to the minimizer, and the weighting as
nearly best. The optimality error that a solver shows after a success is this gap.
-/

namespace NonsmoothDescent

variable {K : Type} [Field K] [LinearOrder K] [IsStrictOrderedRing K] [FloorRing K]

namespace Subproblem

/-- What weights say about the subproblem, with the step `d` that belongs to them. -/
structure Certificate (p : Subproblem K) (weights : List K) : Prop where
  /-- The step lies within the bound. -/
  feasible : p.Feasible (p.stepAt weights)
  /-- The dual value and half the squared distance from `d` bound each primal value. -/
  dual_add_le : ∀ y, p.Feasible y →
    p.dual weights + 1 / 2 * Vec.normSq (Vec.sub y (p.stepAt weights)) ≤ p.primal y
  /-- The gap is the distance of the primal value at `d` from the dual value. -/
  primal_sub_dual_eq : p.primal (p.stepAt weights) - p.dual weights = p.gap weights
  /-- There is no negative gap. -/
  zero_le_gap : 0 ≤ p.gap weights
  /-- A gap of at most `ε` certifies `d` as least up to `ε`. -/
  primal_le : ∀ ε, p.gap weights ≤ ε → ∀ y, p.Feasible y →
    p.primal (p.stepAt weights) ≤ p.primal y + ε
  /-- It certifies that minimizers are near. -/
  distance_le : ∀ ε, p.gap weights ≤ ε → ∀ d, p.IsMinimizer d →
    1 / 2 * Vec.normSq (Vec.sub (p.stepAt weights) d) ≤ ε
  /-- It certifies the dual value as largest up to `ε`. -/
  dual_le : ∀ ε, p.gap weights ≤ ε → ∀ other, IsWeighting p.planes.length other →
    p.dual other ≤ p.dual weights + ε

/-- Every weighting has its certificate. -/
theorem certificate {p : Subproblem K} (hp : p.WellFormed) (hb : p.bound.Positive)
    {weights : List K} (hw : IsWeighting p.planes.length weights) : p.Certificate weights where
  feasible := feasible_stepAt hp hb weights
  dual_add_le _ hy := dual_add_le_primal hp hb hw hy
  primal_sub_dual_eq := primal_sub_dual hp weights
  zero_le_gap := gap_nonneg hw
  primal_le ε hε y hy := by
    have hbelow := dual_add_le_primal hp hb hw hy
    have hat := primal_sub_dual hp weights
    have hdistance := Vec.normSq_nonneg (Vec.sub y (p.stepAt weights))
    linarith
  distance_le ε hε d hd := by
    rw [Vec.normSq_sub_comm]
    exact (distance_le_gap hp hb hw hd).trans hε
  dual_le ε hε other ho := by
    have h : p.dual other ≤ p.dual weights + p.gap weights := dual_le_dual_add_gap hp hb ho
    linarith

/-- The step of a weighting without gap is the only minimizer. -/
theorem unique_minimizer {p : Subproblem K} (hp : p.WellFormed) (hb : p.bound.Positive)
    {weights : List K} (hw : IsWeighting p.planes.length weights) (hgap : p.gap weights = 0) :
    p.IsMinimizer (p.stepAt weights) ∧ ∀ d, p.IsMinimizer d → d = p.stepAt weights := by
  refine ⟨isMinimizer_of_gap_eq_zero hp hb hw hgap, fun d hd => ?_⟩
  have hdistance := distance_le_gap hp hb hw hd
  have hnonneg := Vec.normSq_nonneg (Vec.sub d (p.stepAt weights))
  apply Vec.eq_of_normSq_sub_eq_zero
  · rw [hd.feasible.length_eq, (feasible_stepAt hp hb weights).length_eq]
  · linarith

end Subproblem

/-- Every weighting of the planes of a subproblem certifies its step by its gap, and the
optimality error after a successful solve is the gap of the solver's weights: it is never
negative, and without it the solver's step is the only minimizer. -/
theorem gap_certifies {p : Subproblem K} (hp : p.WellFormed) (hb : p.bound.Positive) :
    (∀ weights, IsWeighting p.planes.length weights → p.Certificate weights) ∧
    ∀ (s : Solver K) (warm : Bool) (ask : Request K → Answer K), s.subproblem = p →
      (s.solveBy warm ask).solver.status = .success →
        IsWeighting p.planes.length (s.solveBy warm ask).solver.weights ∧
        (s.solveBy warm ask).solver.step = p.stepAt (s.solveBy warm ask).solver.weights ∧
        (s.solveBy warm ask).solver.optimalityError =
          p.gap (s.solveBy warm ask).solver.weights ∧
        0 ≤ (s.solveBy warm ask).solver.optimalityError ∧
        ((s.solveBy warm ask).solver.optimalityError = 0 →
          p.IsMinimizer (s.solveBy warm ask).solver.step ∧
            ∀ d, p.IsMinimizer d → d = (s.solveBy warm ask).solver.step) := by
  refine ⟨fun weights hw => Subproblem.certificate hp hb hw, ?_⟩
  rintro s warm ask rfl hsuccess
  have hw := Solver.isWeighting_of_success hsuccess
  have hstep := (Solver.solveBy_coherent s warm ask (Solver.cuts_ne_zero_of_success hsuccess)).2
  have herror := Solver.optimalityError_of_success hsuccess
  refine ⟨hw, hstep, herror, ?_, fun hzero => ?_⟩
  · rw [herror]
    exact Subproblem.gap_nonneg hw
  · rw [hstep]
    exact Subproblem.unique_minimizer hp hb hw (herror ▸ hzero)

/-- Two planes in one variable, with a bound that cuts the step off at a quarter. -/
def clippedExample : Solver ℚ :=
  { subproblem := { dimension := 1, planes := [⟨[1], 0⟩, ⟨[-1], -1⟩], bound := .within (1 / 4) }
    combination := [0]
    step := [0] }

/-- A minimizer that puts all weight on the first plane. -/
def firstPlaneOnly : Request ℚ → Answer ℚ := fun _ => ⟨[1, 0], 0, 1, ""⟩

/-- Equal weights leave a gap on the clipped example; the minimizer leaves none, and its
step at the bound is the only minimizer. -/
theorem gap_certifies_clipped :
    clippedExample.subproblem.Certificate [1 / 2, 1 / 2] ∧
      clippedExample.subproblem.gap [1 / 2, 1 / 2] = 1 / 2 ∧
      (clippedExample.solveBy false firstPlaneOnly).solver.status = .success ∧
      clippedExample.subproblem.IsMinimizer [-1 / 4] ∧
      ∀ d, clippedExample.subproblem.IsMinimizer d → d = [-1 / 4] := by
  have hp : clippedExample.subproblem.WellFormed := by
    unfold Subproblem.WellFormed
    decide +kernel
  have hb : clippedExample.subproblem.bound.Positive :=
    show (0 : ℚ) < 1 / 4 by norm_num
  have hw : IsWeighting clippedExample.subproblem.planes.length ([1 / 2, 1 / 2] : List ℚ) :=
    ⟨rfl, by decide +kernel, by decide +kernel⟩
  have hsuccess : (clippedExample.solveBy false firstPlaneOnly).solver.status = .success := by
    decide +kernel
  have hstep : (clippedExample.solveBy false firstPlaneOnly).solver.step = [-1 / 4] := by
    decide +kernel
  have hzero : (clippedExample.solveBy false firstPlaneOnly).solver.optimalityError = 0 := by
    decide +kernel
  obtain ⟨hcertificate, hsolve⟩ := gap_certifies hp hb
  obtain ⟨_, _, _, _, hleast⟩ := hsolve clippedExample false firstPlaneOnly rfl hsuccess
  rw [hstep] at hleast
  exact ⟨hcertificate _ hw, by decide +kernel, hsuccess, hleast hzero⟩

end NonsmoothDescent
