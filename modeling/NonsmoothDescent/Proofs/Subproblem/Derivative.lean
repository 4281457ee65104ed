import NonsmoothDescent.Proofs.Subproblem.Hull

/-!
# The derivative of the dual function

The minimizer of the dual function is handed its value and, coded apart from it, a
vector of plane values. The value is the least of `b · w + v · y + ½ |y|²` over the
admissible steps `y`, and the vector takes the plane values at the step that attains
it. So the vector gives a tangent plane above the function, at all weights and not only
at weightings of the planes: the step of one weight vector is admissible for every other.
The strong growth of the linear problem bounds the function from below, half the squared
change of the combination under the tangent plane. The clip of the step needs no cases of
its own in either bound, so the kinks of the clip are no kinks of the function.
-/

namespace NonsmoothDescent

variable {K : Type} [Field K] [LinearOrder K] [FloorRing K]

namespace Vec

/-- Half the squared length of one vector covers what the other takes off its own half. -/
theorem neg_half_normSq_le [IsStrictOrderedRing K] {v w : List K} (h : v.length = w.length) :
    -(1 / 2 * normSq v) ≤ dot v w + 1 / 2 * normSq w := by
  have hsum := normSq_nonneg (add v w)
  rw [normSq, dot_add_left h, dot_add_right h, dot_add_right h, dot_comm w v] at hsum
  simp only [normSq] at *
  linarith

end Vec

namespace Subproblem

/-- The derivative of the dual value by the weights, as it is coded. -/
def dualGradient (p : Subproblem K) (weights : List K) : List K :=
  (p.negDualGradient weights).map Neg.neg

/-- Its entries are the plane values at the step of the weights. -/
theorem dualGradient_eq (p : Subproblem K) (weights : List K) :
    p.dualGradient weights = p.valuesAt (p.stepAt weights) := by
  rw [dualGradient, negDualGradient, List.map_map, neg_comp_neg, List.map_id]
  rfl

/-- The dual gradient has one entry per plane. -/
@[simp] theorem length_dualGradient (p : Subproblem K) (weights : List K) :
    (p.dualGradient weights).length = p.planes.length := by
  rw [dualGradient_eq, length_valuesAt]

variable {p : Subproblem K} {weights other : List K}

/-- Combining is linear in the weights. -/
theorem dot_combination_sub (hp : p.WellFormed) (h : other.length = weights.length)
    (y : List K) : Vec.dot (p.combination (Vec.sub other weights)) y =
      Vec.dot (p.combination other) y - Vec.dot (p.combination weights) y := by
  rw [dot_combination hp, dot_combination hp, dot_combination hp]
  generalize p.planes = planes
  induction planes generalizing other weights with
  | nil => simp
  | cons plane planes ih =>
    cases other with
    | nil =>
      obtain rfl := List.length_eq_zero_iff.mp h.symm
      simp [Vec.sub]
    | cons a other =>
      cases weights with
      | nil => simp at h
      | cons b weights =>
        have htail := ih (Nat.succ.inj h)
        simp only [Vec.sub, List.zipWith_cons_cons, List.zip_cons_cons, List.map_cons,
          List.sum_cons] at htail ⊢
        rw [htail]
        ring

/-- The change along the derivative: biases and slopes at the step, by the change of weights. -/
theorem dot_dualGradient_sub (hp : p.WellFormed) (h : other.length = weights.length) :
    Vec.dot (p.dualGradient weights) (Vec.sub other weights) =
      Vec.dot p.biases other - Vec.dot p.biases weights +
        (Vec.dot (p.combination other) (p.stepAt weights) -
          Vec.dot (p.combination weights) (p.stepAt weights)) := by
  rw [dualGradient_eq, Vec.dot_comm, dot_valuesAt hp, Vec.dot_sub_right h,
    dot_combination_sub hp h]

section Bounds

variable [IsStrictOrderedRing K] (hp : p.WellFormed) (hb : p.bound.Positive)
  (h : other.length = weights.length)
include hp hb h

/-- The derivative gives a tangent plane above the dual function. -/
theorem dual_le_tangent : p.dual other ≤
    p.dual weights + Vec.dot (p.dualGradient weights) (Vec.sub other weights) := by
  have hstep := feasible_stepAt hp hb weights
  have hlength : (p.combination other).length = (p.stepAt weights).length := by
    rw [length_combination hp, hstep.length_eq]
  -- the step of `weights` competes in the problem that the step of `other` solves
  have hgrowth := linear_growth hb hlength hstep.allowed
  have hdistance :=
    Vec.normSq_nonneg (Vec.sub (p.stepAt weights) (p.stepOf (p.combination other)))
  rw [dot_dualGradient_sub hp h, dual_eq, dual_eq]
  simp only [stepAt] at *
  linarith

/-- The dual function stays above its tangent plane, up to half the squared change of the
combination. -/
theorem tangent_sub_le_dual :
    p.dual weights + Vec.dot (p.dualGradient weights) (Vec.sub other weights) -
      1 / 2 * Vec.normSq (p.combination (Vec.sub other weights)) ≤ p.dual other := by
  have hother := feasible_stepAt hp hb other
  have hstep := feasible_stepAt hp hb weights
  have hlength : (p.stepAt other).length = (p.stepAt weights).length :=
    hother.length_eq.trans hstep.length_eq.symm
  -- the step of `other` competes in the problem that the step of `weights` solves
  have hgrowth := linear_growth hb ((length_combination hp weights).trans hother.length_eq.symm)
    hother.allowed
  have hsquare : -(1 / 2 * Vec.normSq (p.combination (Vec.sub other weights))) ≤
      Vec.dot (p.combination (Vec.sub other weights))
        (Vec.sub (p.stepAt other) (p.stepAt weights)) +
        1 / 2 * Vec.normSq (Vec.sub (p.stepAt other) (p.stepAt weights)) := by
    refine Vec.neg_half_normSq_le ?_
    rw [length_combination hp, Vec.length_sub, hlength, min_self, hstep.length_eq]
  rw [Vec.dot_sub_right hlength, dot_combination_sub hp h, dot_combination_sub hp h] at hsquare
  rw [dot_dualGradient_sub hp h, dual_eq, dual_eq]
  simp only [stepAt] at *
  linarith

end Bounds

end Subproblem

section Real

namespace Vec

/-- A vector as a point of the Euclidean space. -/
noncomputable def euclidean (n : Nat) (v : List ℝ) : EuclideanSpace ℝ (Fin n) :=
  WithLp.toLp _ (point n v)

variable {n : Nat}

/-- A point is that of the list of its entries. -/
theorem euclidean_ofFn (x : EuclideanSpace ℝ (Fin n)) : euclidean n (List.ofFn x) = x := by
  ext i
  simp [euclidean, point]

/-- A list of the right length is that of its point. -/
theorem ofFn_point {v : List ℝ} (h : v.length = n) : List.ofFn (point n v) = v := by
  refine List.ext_getElem (by simp [h]) fun i _ hi => ?_
  simp [point, List.getElem?_eq_getElem hi]

/-- The lists of two points differ by the list of the difference. -/
theorem sub_ofFn (x y : EuclideanSpace ℝ (Fin n)) :
    sub (List.ofFn y) (List.ofFn x) = List.ofFn (y - x) := by
  apply List.ext_getElem <;> simp [sub]

/-- Lists of one length have the inner product of their points. -/
theorem inner_euclidean {v w : List ℝ} (hv : v.length = n) (hw : w.length = n) :
    inner ℝ (euclidean n v) (euclidean n w) = dot v w := by
  induction n generalizing v w with
  | zero =>
    obtain rfl := List.length_eq_zero_iff.mp hv
    simp [euclidean, PiLp.inner_apply]
  | succ n ih =>
    obtain ⟨a, v, rfl⟩ := List.exists_cons_of_length_eq_add_one hv
    obtain ⟨b, w, rfl⟩ := List.exists_cons_of_length_eq_add_one hw
    have htail := ih (Nat.succ.inj hv) (Nat.succ.inj hw)
    simp only [euclidean, point, PiLp.inner_apply, RCLike.inner_apply, conj_trivial] at htail ⊢
    rw [Fin.sum_univ_succ, dot_cons, ← htail]
    simp [mul_comm]

/-- The squared length of a list is the squared norm of its point. -/
theorem norm_euclidean_sq {v : List ℝ} (hv : v.length = n) :
    ‖euclidean n v‖ ^ 2 = normSq v := by
  rw [← real_inner_self_eq_norm_sq, inner_euclidean hv hv, normSq]

end Vec

namespace Subproblem

variable (p : Subproblem ℝ)

/-- The linear map from weights to the combination of the slopes. -/
noncomputable def slopeMap :
    EuclideanSpace ℝ (Fin p.planes.length) →L[ℝ] EuclideanSpace ℝ (Fin p.dimension) :=
  ∑ i, (EuclideanSpace.proj i).smulRight (Vec.euclidean p.dimension p.planes[i].slope)

/-- The dual value as a function on the Euclidean space. -/
noncomputable def dualAt (x : EuclideanSpace ℝ (Fin p.planes.length)) : ℝ := p.dual (List.ofFn x)

/-- The coded derivative as a point of the Euclidean space. -/
noncomputable def gradientAt (x : EuclideanSpace ℝ (Fin p.planes.length)) :
    EuclideanSpace ℝ (Fin p.planes.length) :=
  Vec.euclidean p.planes.length (p.dualGradient (List.ofFn x))

variable {p}

/-- The combination of slopes is a linear map of the weights. -/
theorem euclidean_combination (hp : p.WellFormed) (x : EuclideanSpace ℝ (Fin p.planes.length)) :
    Vec.euclidean p.dimension (p.combination (List.ofFn x)) = p.slopeMap x := by
  have hzip : p.planes.zip (List.ofFn x) = List.ofFn fun i => (p.planes[i], x i) := by
    apply List.ext_getElem <;> simp
  have hslopes : ∀ q ∈ p.planes.zip (List.ofFn x),
      q.1.slope.length = (Vec.zeros p.dimension : List ℝ).length := by
    intro q hq
    rw [Vec.length_zeros]
    exact hp q.1 (List.of_mem_zip hq).1
  ext j
  have hpoint := congrFun (point_accumulate (n := p.dimension) hslopes) j
  rw [Vec.point_zeros, zero_add, hzip, List.map_ofFn, List.sum_ofFn] at hpoint
  rw [combination_eq_accumulate]
  simpa [Vec.euclidean, slopeMap, hzip] using hpoint

/-- The change along the derivative, read in the Euclidean space. -/
theorem inner_gradientAt (x y : EuclideanSpace ℝ (Fin p.planes.length)) :
    inner ℝ (p.gradientAt x) (y - x) =
      Vec.dot (p.dualGradient (List.ofFn x)) (Vec.sub (List.ofFn y) (List.ofFn x)) := by
  rw [Vec.sub_ofFn, gradientAt, ← Vec.inner_euclidean (length_dualGradient ..) (by simp),
    Vec.euclidean_ofFn]

section Calculus

variable (hp : p.WellFormed) (hb : p.bound.Positive)
  (x y : EuclideanSpace ℝ (Fin p.planes.length))
include hp hb

/-- The dual function lies below its tangents. -/
theorem dualAt_le_tangent : p.dualAt y ≤ p.dualAt x + inner ℝ (p.gradientAt x) (y - x) := by
  rw [inner_gradientAt]
  exact dual_le_tangent hp hb (by simp)

/-- Below a tangent it falls by half the squared length of the combined step at most. -/
theorem tangent_sub_le_dualAt :
    p.dualAt x + inner ℝ (p.gradientAt x) (y - x) - 1 / 2 * ‖p.slopeMap (y - x)‖ ^ 2 ≤
      p.dualAt y := by
  have hbelow := tangent_sub_le_dual hp hb
    (show (List.ofFn y).length = (List.ofFn x).length by simp)
  rw [Vec.sub_ofFn, ← Vec.norm_euclidean_sq (length_combination hp _), euclidean_combination hp]
    at hbelow
  rw [inner_gradientAt, Vec.sub_ofFn]
  exact hbelow

/-- The error of the tangent plane is of second order, so the coded vector is the gradient. -/
theorem hasGradientAt_dualAt : HasGradientAt p.dualAt (p.gradientAt x) x := by
  rw [hasGradientAt_iff_isLittleO]
  have hquadratic : (fun y => p.dualAt y - p.dualAt x - inner ℝ (p.gradientAt x) (y - x)) =O[nhds x]
      fun y => ‖y - x‖ ^ 2 := by
    refine Asymptotics.IsBigO.of_bound (1 / 2 * ‖p.slopeMap‖ ^ 2) (.of_forall fun y => ?_)
    have habove := dualAt_le_tangent hp hb x y
    have hbelow := tangent_sub_le_dualAt hp hb x y
    have hnorm : ‖p.slopeMap (y - x)‖ ^ 2 ≤ ‖p.slopeMap‖ ^ 2 * ‖y - x‖ ^ 2 := by
      rw [← mul_pow]
      exact pow_le_pow_left₀ (norm_nonneg _) (p.slopeMap.le_opNorm _) 2
    rw [Real.norm_eq_abs, Real.norm_eq_abs, abs_of_nonneg (sq_nonneg ‖y - x‖),
      abs_of_nonpos (by linarith)]
    linarith
  exact hquadratic.trans_isLittleO (Asymptotics.isLittleO_pow_sub_sub x one_lt_two)

/-- A function below all its tangent planes is concave. -/
theorem concaveOn_dualAt : ConcaveOn ℝ Set.univ p.dualAt := by
  refine ⟨convex_univ, fun x _ y _ a b ha hb' hab => ?_⟩
  set z := a • x + b • y with hz
  have hx := mul_le_mul_of_nonneg_left (dualAt_le_tangent hp hb z x) ha
  have hy := mul_le_mul_of_nonneg_left (dualAt_le_tangent hp hb z y) hb'
  have hmean : a • (x - z) + b • (y - z) = 0 := by
    rw [smul_sub, smul_sub, sub_add_sub_comm, ← hz, ← add_smul, hab, one_smul, sub_self]
  -- the linear parts of the two bounds cancel
  have hlevel : a * inner ℝ (p.gradientAt z) (x - z) + b * inner ℝ (p.gradientAt z) (y - z) =
      0 := by
    rw [← real_inner_smul_right, ← real_inner_smul_right, ← inner_add_right, hmean,
      inner_zero_right]
  calc a • p.dualAt x + b • p.dualAt y
      ≤ (a + b) * p.dualAt z + (a * inner ℝ (p.gradientAt z) (x - z) +
          b * inner ℝ (p.gradientAt z) (y - z)) := by
        simp only [smul_eq_mul]
        linarith
    _ = p.dualAt z := by rw [hlevel, hab, one_mul, add_zero]

end Calculus

/-- Value and derivative of the dual function agree at all weights and under every bound:
the derivative gives the tangent plane, the function lies under it and at most half the
squared change of the combination below, so it is concave and the derivative is its
gradient everywhere. -/
theorem dual_differentiable (hp : p.WellFormed) (hb : p.bound.Positive) :
    (∀ weights other : List ℝ, weights.length = p.planes.length →
      other.length = p.planes.length →
        p.dual other ≤
            p.dual weights + Vec.dot (p.dualGradient weights) (Vec.sub other weights) ∧
          p.dual weights + Vec.dot (p.dualGradient weights) (Vec.sub other weights) -
            1 / 2 * Vec.normSq (p.combination (Vec.sub other weights)) ≤ p.dual other) ∧
    ConcaveOn ℝ Set.univ p.dualAt ∧
    ∀ x, List.ofFn (p.gradientAt x) = p.dualGradient (List.ofFn x) ∧
      HasGradientAt p.dualAt (p.gradientAt x) x := by
  refine ⟨fun weights other hw ho => ?_, concaveOn_dualAt hp hb, fun x => ?_⟩
  · have hlength : other.length = weights.length := ho.trans hw.symm
    exact ⟨dual_le_tangent hp hb hlength, tangent_sub_le_dual hp hb hlength⟩
  · exact ⟨Vec.ofFn_point (length_dualGradient ..), hasGradientAt_dualAt hp hb x⟩

/-- One plane of slope one. The weight `¼` sits where the clip of its step begins. -/
noncomputable def kinked : Subproblem ℝ := ⟨1, [⟨[1], 0⟩], .within (1 / 4)⟩

/-- The combination on the one plane of slope one is the weight. -/
theorem kinked_combination (a : ℝ) : kinked.combination [a] = [a] := by
  simp [combination, kinked, Vec.add, Vec.zeros, Vec.scale]

/-- Its step is the clipped weight. -/
theorem kinked_stepAt (a : ℝ) :
    kinked.stepAt [a] = [(StepBound.within (1 / 4)).clip (-a)] := by
  rw [stepAt, kinked_combination]
  rfl

/-- Its dual value is half the square of the step and the weighted step. -/
theorem kinked_dual (a : ℝ) : kinked.dual [a] =
    1 / 2 * ((StepBound.within (1 / 4)).clip (-a) * (StepBound.within (1 / 4)).clip (-a)) +
      a * (StepBound.within (1 / 4)).clip (-a) := by
  rw [dual_eq, kinked_stepAt, kinked_combination]
  simp [kinked, biases, Vec.normSq]

/-- Its dual gradient is the step. -/
theorem kinked_dualGradient (a : ℝ) :
    kinked.dualGradient [a] = [(StepBound.within (1 / 4)).clip (-a)] := by
  rw [dualGradient_eq, kinked_stepAt]
  simp [kinked, valuesAt]

/-- At the kink of the clip both bounds are attained: the lower one at the weight zero, where
nothing is clipped, the upper one at the weight one. -/
theorem dual_differentiable_kinked : kinked.WellFormed ∧ kinked.bound.Positive ∧
    kinked.dual [1 / 4] + Vec.dot (kinked.dualGradient [1 / 4]) (Vec.sub [0] [1 / 4]) -
      1 / 2 * Vec.normSq (kinked.combination (Vec.sub [0] [1 / 4])) ≤ kinked.dual [0] ∧
    kinked.dual [1] ≤
      kinked.dual [1 / 4] + Vec.dot (kinked.dualGradient [1 / 4]) (Vec.sub [1] [1 / 4]) ∧
    kinked.dual [0] = 0 ∧ kinked.dual [1 / 4] = -1 / 32 ∧ kinked.dual [1] = -7 / 32 ∧
    kinked.dualGradient [1 / 4] = [-1 / 4] ∧
    HasGradientAt kinked.dualAt (Vec.euclidean 1 [-1 / 4]) (Vec.euclidean 1 [1 / 4]) := by
  have hp : kinked.WellFormed := by simp [WellFormed, kinked]
  have hb : kinked.bound.Positive := by norm_num [kinked, StepBound.Positive]
  obtain ⟨hbounds, -, hgradient⟩ := dual_differentiable hp hb
  have hat := (hgradient (Vec.euclidean 1 [1 / 4])).2
  have hofFn : List.ofFn (Vec.euclidean 1 [1 / 4]) = [1 / 4] := Vec.ofFn_point rfl
  have hkink : kinked.dualGradient [1 / 4] = [-1 / 4] := by
    norm_num [kinked_dualGradient, StepBound.clip]
  have hcoded : kinked.gradientAt (Vec.euclidean 1 [1 / 4]) = Vec.euclidean 1 [-1 / 4] := by
    change Vec.euclidean 1 (kinked.dualGradient (List.ofFn (Vec.euclidean 1 [1 / 4]))) = _
    rw [hofFn, hkink]
  rw [hcoded] at hat
  refine ⟨hp, hb, (hbounds [1 / 4] [0] rfl rfl).2, (hbounds [1 / 4] [1] rfl rfl).1, ?_, ?_, ?_,
    hkink, hat⟩ <;>
    norm_num [kinked_dual, StepBound.clip]

end Subproblem

end Real

end NonsmoothDescent
