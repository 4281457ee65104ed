import NonsmoothDescent.Proofs.Vec

/-!
# Duality of the subproblem

The primal value of a step is the largest plane value plus half the squared length.
Every weighting of the planes bounds it from below over the whole bound, and the step
that belongs to the weighting exceeds that lower bound by the gap. So a small gap
certifies the step, its distance from the minimizer and the dual value at once.
-/

namespace NonsmoothDescent

variable {K : Type} [Field K] [LinearOrder K] [FloorRing K]

/-- Weights on `m` planes: nonnegative, with sum one. -/
structure IsWeighting (m : Nat) (weights : List K) : Prop where
  length_eq : weights.length = m
  nonneg : ∀ a ∈ weights, 0 ≤ a
  sum_eq_one : Vec.sum weights = 1

/-- All weight goes to one plane if there is but one. -/
theorem IsWeighting.eq_one {weights : List K} (h : IsWeighting 1 weights) : weights = [1] := by
  obtain ⟨a, rfl⟩ := List.length_eq_one_iff.mp h.length_eq
  have hsum := h.sum_eq_one
  rw [Vec.sum_cons, Vec.sum_nil, add_zero] at hsum
  rw [hsum]

section Mean

variable [IsStrictOrderedRing K]

/-- A weighted mean does not exceed a common upper bound. -/
theorem dot_le_of_forall_le {weights values : List K} {m : K}
    (hl : weights.length = values.length) (hw : ∀ a ∈ weights, 0 ≤ a)
    (hv : ∀ x ∈ values, x ≤ m) : Vec.dot weights values ≤ Vec.sum weights * m := by
  induction weights generalizing values with
  | nil => simp
  | cons a weights ih =>
    cases values with
    | nil => simp at hl
    | cons x values =>
      obtain ⟨ha, hrest⟩ := List.forall_mem_cons.mp hw
      obtain ⟨hx, hvalues⟩ := List.forall_mem_cons.mp hv
      have htail := ih (by simpa using hl) hrest hvalues
      have hhead := mul_le_mul_of_nonneg_left hx ha
      rw [Vec.dot_cons, Vec.sum_cons, add_mul]
      exact add_le_add hhead htail

/-- A weighted mean is bounded as the values are. -/
theorem IsWeighting.dot_le {m : Nat} {weights values : List K} (hw : IsWeighting m weights)
    (hl : values.length = m) {bound : K} (hv : ∀ x ∈ values, x ≤ bound) :
    Vec.dot weights values ≤ bound := by
  have h := dot_le_of_forall_le (by rw [hw.length_eq, hl]) hw.nonneg hv
  rwa [hw.sum_eq_one, one_mul] at h

end Mean

namespace Subproblem

/-- All slopes have one entry per variable. -/
def WellFormed {α : Type} (p : Subproblem α) : Prop :=
  ∀ plane ∈ p.planes, plane.slope.length = p.dimension

/-- The step that belongs to weights. -/
def stepAt (p : Subproblem K) (weights : List K) : List K := p.stepOf (p.combination weights)

/-- The dual value of weights. -/
def dual (p : Subproblem K) (weights : List K) : K := -p.negDual weights

/-- The primal value of a step. -/
def primal (p : Subproblem K) (step : List K) : K :=
  Vec.maximum (p.valuesAt step) + 1 / 2 * Vec.normSq step

/-- A step has one entry per variable, each within the bound. -/
structure Feasible (p : Subproblem K) (step : List K) : Prop where
  length_eq : step.length = p.dimension
  allowed : ∀ x ∈ step, p.bound.Allows x

/-- A feasible step with the least primal value. -/
structure IsMinimizer (p : Subproblem K) (step : List K) : Prop where
  feasible : p.Feasible step
  le_primal : ∀ y, p.Feasible y → p.primal step ≤ p.primal y

section Combination

/-- Adding weighted slopes to a vector, plane after plane. -/
def accumulate {α : Type} [Scalar α] (total : List α) (weighted : List (Plane α × α)) : List α :=
  weighted.foldl (fun total x => Vec.add total (Vec.scale x.2 x.1.slope)) total

/-- The weighted combination of planes in `n` variables. -/
def mix {α : Type} [Scalar α] (n : Nat) (planes : List (Plane α)) (weights : List α) : Plane α :=
  ⟨accumulate (Vec.zeros n) (planes.zip weights), Vec.dot weights (planes.map Plane.bias)⟩

/-- The combination of slopes adds them up one by one. -/
theorem combination_eq_accumulate {α : Type} [Scalar α] (p : Subproblem α) (weights : List α) :
    p.combination weights = accumulate (Vec.zeros p.dimension) (p.planes.zip weights) := rfl

/-- Adding slopes of the right length leaves the length. -/
theorem length_accumulate {α : Type} [Scalar α] {total : List α} {weighted : List (Plane α × α)}
    (h : ∀ x ∈ weighted, x.1.slope.length = total.length) :
    (accumulate total weighted).length = total.length := by
  induction weighted generalizing total with
  | nil => rfl
  | cons x weighted ih =>
    obtain ⟨hx, hrest⟩ := List.forall_mem_cons.mp h
    have hl : (Vec.add total (Vec.scale x.2 x.1.slope)).length = total.length := by
      simp [hx]
    change (accumulate (Vec.add total _) weighted).length = _
    rw [ih (by simpa only [hl] using hrest), hl]

/-- A mixture of planes has a slope of their length. -/
theorem length_slope_mix {α : Type} [Scalar α] {n : Nat} {planes : List (Plane α)}
    (h : ∀ p ∈ planes, p.slope.length = n) (weights : List α) :
    (mix n planes weights).slope.length = n := by
  unfold mix
  rw [length_accumulate, Vec.length_zeros]
  intro x hx
  rw [Vec.length_zeros]
  exact h x.1 (List.of_mem_zip hx).1

/-- The combination has one entry per variable. -/
theorem length_combination {α : Type} [Scalar α] {p : Subproblem α} (hp : p.WellFormed)
    (weights : List α) : (p.combination weights).length = p.dimension :=
  length_slope_mix hp weights

/-- The step has the length of the combination. -/
@[simp] theorem length_stepOf {α : Type} [Scalar α] (p : Subproblem α) (v : List α) :
    (p.stepOf v).length = v.length := by
  simp [stepOf]

/-- An inner product with added slopes is the sum of those with each. -/
theorem dot_accumulate {total : List K} {weighted : List (Plane K × K)}
    (h : ∀ x ∈ weighted, x.1.slope.length = total.length) (y : List K) :
    Vec.dot (accumulate total weighted) y =
      Vec.dot total y + (weighted.map fun x => x.2 * Vec.dot x.1.slope y).sum := by
  induction weighted generalizing total with
  | nil => simp [accumulate]
  | cons x weighted ih =>
    obtain ⟨hx, hrest⟩ := List.forall_mem_cons.mp h
    have hl : (Vec.add total (Vec.scale x.2 x.1.slope)).length = total.length := by
      simp [hx]
    change Vec.dot (accumulate (Vec.add total _) weighted) y = _
    rw [ih (by simpa only [hl] using hrest), Vec.dot_add_left (by simp [hx]), Vec.dot_scale_left,
      List.map_cons, List.sum_cons, add_assoc]

/-- An inner product with the combination is the weighted sum of those with each slope. -/
theorem dot_combination {p : Subproblem K} (hp : p.WellFormed) (weights y : List K) :
    Vec.dot (p.combination weights) y =
      ((p.planes.zip weights).map fun x => x.2 * Vec.dot x.1.slope y).sum := by
  rw [combination_eq_accumulate, dot_accumulate, Vec.dot_zeros_left, zero_add]
  intro x hx
  rw [Vec.length_zeros]
  exact hp x.1 (List.of_mem_zip hx).1

/-- The weighted plane value is that of the combined plane. -/
theorem dot_valuesAt {p : Subproblem K} (hp : p.WellFormed) (weights y : List K) :
    Vec.dot weights (p.valuesAt y) =
      Vec.dot p.biases weights + Vec.dot (p.combination weights) y := by
  rw [dot_combination hp, valuesAt, biases]
  generalize p.planes = planes
  induction planes generalizing weights with
  | nil => simp
  | cons plane planes ih =>
    cases weights with
    | nil => simp
    | cons a weights =>
      simp only [List.map_cons, Vec.dot_cons, List.zip_cons_cons, List.sum_cons, ih]
      ring

/-- At a step there is one value per plane. -/
@[simp] theorem length_valuesAt (p : Subproblem K) (y : List K) :
    (p.valuesAt y).length = p.planes.length := by
  simp [valuesAt]

/-- The dual value in terms of biases, step and combination. -/
theorem dual_eq (p : Subproblem K) (weights : List K) :
    p.dual weights = Vec.dot p.biases weights + 1 / 2 * Vec.normSq (p.stepAt weights) +
      Vec.dot (p.combination weights) (p.stepAt weights) := by
  have hhalf : (0.5 : K) = 1 / 2 := by norm_num
  simp only [dual, negDual, stepAt, neg_neg, hhalf]

section Mixture

variable {p q : Subproblem K} {weights weights' : List K} (hb : p.bound = q.bound)
  (h : mix p.dimension p.planes weights = mix q.dimension q.planes weights')
include hb h

/-- The step of weights depends on their mixture only. -/
theorem stepAt_eq_of_mix_eq : p.stepAt weights = q.stepAt weights' := by
  have hslope : p.combination weights = q.combination weights' := congrArg Plane.slope h
  rw [stepAt, stepAt, stepOf, stepOf, hslope, hb]

/-- So does their dual value. -/
theorem dual_eq_of_mix_eq : p.dual weights = q.dual weights' := by
  have hslope : p.combination weights = q.combination weights' := congrArg Plane.slope h
  have hbias : Vec.dot weights p.biases = Vec.dot weights' q.biases := congrArg Plane.bias h
  rw [dual_eq, dual_eq, stepAt_eq_of_mix_eq hb h, hslope, Vec.dot_comm, hbias,
    Vec.dot_comm weights']

end Mixture

end Combination

variable [IsStrictOrderedRing K]

/-- The step of weights is feasible whatever these are. -/
theorem feasible_stepAt {p : Subproblem K} (hp : p.WellFormed) (hb : p.bound.Positive)
    (weights : List K) : p.Feasible (p.stepAt weights) := by
  constructor
  · rw [stepAt, length_stepOf, length_combination hp]
  · intro x hx
    obtain ⟨v, _, rfl⟩ := List.mem_map.mp hx
    exact StepBound.allows_clip hb (-v)

/-- The step of a combination minimizes its linear value plus half the squared length,
strongly so. -/
theorem linear_growth {p : Subproblem K} (hb : p.bound.Positive) {v y : List K}
    (hl : v.length = y.length) (hy : ∀ x ∈ y, p.bound.Allows x) :
    Vec.dot v (p.stepOf v) + 1 / 2 * Vec.normSq (p.stepOf v) +
        1 / 2 * Vec.normSq (Vec.sub y (p.stepOf v)) ≤
      Vec.dot v y + 1 / 2 * Vec.normSq y := by
  induction v generalizing y with
  | nil =>
    cases y with
    | nil => simp [stepOf, Vec.sub, Vec.normSq]
    | cons b y => simp at hl
  | cons a v ih =>
    cases y with
    | nil => simp at hl
    | cons b y =>
      obtain ⟨hhead, hrest⟩ := List.forall_mem_cons.mp hy
      have htail := ih (by simpa using hl) hrest
      have hclip := StepBound.clip_optimal hb a hhead
      simp only [stepOf, Vec.sub, Vec.normSq, List.map_cons, List.zipWith_cons_cons,
        Vec.dot_cons] at htail ⊢
      nlinarith only [htail, hclip]

variable {p : Subproblem K} {weights : List K}

/-- The dual value bounds every primal value from below, with half the squared distance
from the step to spare. -/
theorem dual_add_le_primal (hp : p.WellFormed) (hb : p.bound.Positive)
    (hw : IsWeighting p.planes.length weights) {y : List K} (hy : p.Feasible y) :
    p.dual weights + 1 / 2 * Vec.normSq (Vec.sub y (p.stepAt weights)) ≤ p.primal y := by
  have hmean : Vec.dot weights (p.valuesAt y) ≤ Vec.maximum (p.valuesAt y) :=
    hw.dot_le (length_valuesAt p y) fun x hx => Vec.le_maximum hx
  have hlength : (p.combination weights).length = y.length := by
    rw [length_combination hp, hy.length_eq]
  have hgrowth := linear_growth hb hlength hy.allowed
  rw [dot_valuesAt hp] at hmean
  rw [dual_eq, primal]
  change _ ≤ Vec.dot (p.combination weights) y + 1 / 2 * Vec.normSq y at hgrowth
  simp only [stepAt] at *
  linarith

/-- The gap is the distance of the primal value at the step from the dual value. -/
theorem primal_sub_dual (hp : p.WellFormed) (weights : List K) :
    p.primal (p.stepAt weights) - p.dual weights = p.gap weights := by
  have hmean := dot_valuesAt hp weights (p.stepAt weights)
  simp only [gap, gapAt, primal, dual_eq, stepAt] at *
  linarith

/-- A weighting leaves no negative gap. -/
theorem gap_nonneg (hw : IsWeighting p.planes.length weights) : 0 ≤ p.gap weights := by
  have hmean : Vec.dot weights (p.valuesAt (p.stepAt weights)) ≤
      Vec.maximum (p.valuesAt (p.stepAt weights)) :=
    hw.dot_le (length_valuesAt p _) fun x hx => Vec.le_maximum hx
  exact sub_nonneg.mpr hmean

/-- A step with no gap is a minimizer. -/
theorem isMinimizer_of_gap_eq_zero (hp : p.WellFormed) (hb : p.bound.Positive)
    (hw : IsWeighting p.planes.length weights) (hgap : p.gap weights = 0) :
    p.IsMinimizer (p.stepAt weights) := by
  refine ⟨feasible_stepAt hp hb weights, fun y hy => ?_⟩
  have hbelow := dual_add_le_primal hp hb hw hy
  have hat := primal_sub_dual hp weights
  have hdistance := Vec.normSq_nonneg (Vec.sub y (p.stepAt weights))
  linarith

/-- Minimizers are within the gap of the step. -/
theorem distance_le_gap (hp : p.WellFormed) (hb : p.bound.Positive)
    (hw : IsWeighting p.planes.length weights) {d : List K} (hd : p.IsMinimizer d) :
    1 / 2 * Vec.normSq (Vec.sub d (p.stepAt weights)) ≤ p.gap weights := by
  have hbelow := dual_add_le_primal hp hb hw hd.feasible
  have hleast := hd.le_primal _ (feasible_stepAt hp hb weights)
  have hat := primal_sub_dual hp weights
  linarith

/-- No weighting has a dual value above that of another by more than the gap. -/
theorem dual_le_dual_add_gap (hp : p.WellFormed) (hb : p.bound.Positive)
    {other : List K} (ho : IsWeighting p.planes.length other) :
    p.dual other ≤ p.dual weights + p.gap weights := by
  have hbelow := dual_add_le_primal hp hb ho (feasible_stepAt hp hb weights)
  have hat := primal_sub_dual hp weights
  have hdistance := Vec.normSq_nonneg (Vec.sub (p.stepAt weights) (p.stepAt other))
  linarith

end Subproblem

end NonsmoothDescent
