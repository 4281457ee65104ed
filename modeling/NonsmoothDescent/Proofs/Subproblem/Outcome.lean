import NonsmoothDescent.Proofs.Subproblem.Session

/-!
# What a solve reports

The minimizer is not trusted. Its answer is clipped at zero and scaled to sum one where
the sum is positive; the combination and the step are formed anew from these weights. Its
claim of success stands if the sum is positive, and its claim of failure is overruled if
in addition the weights leave a small gap. So every reported success comes with a
weighting of the planes, and one that overrules the minimizer with a certificate.

Any session keeps the slopes as long as there are variables and the bound positive, so
this holds of each solve in it.
-/

namespace NonsmoothDescent

variable {K : Type} [Field K] [LinearOrder K] [FloorRing K]

section Bound

variable [IsStrictOrderedRing K]

namespace Subproblem

variable {p : Subproblem K}

/-- The step of the zero combination is zero. -/
theorem stepOf_zeros (hb : p.bound.Positive) (n : Nat) :
    p.stepOf (Vec.zeros n) = Vec.zeros n := by
  simp only [stepOf, Vec.zeros, List.map_replicate, StepBound.clip_neg_zero hb]

/-- The largest entry of a feasible step is within the bound. -/
theorem Feasible.normInf_le {step : List K} (h : p.Feasible step) {radius : K} (hr : 0 ≤ radius)
    (hb : p.bound = .within radius) : Vec.normInf step ≤ radius := by
  refine Vec.normInf_le_iff.mpr ⟨hr, fun x hx => ?_⟩
  have hallowed := h.allowed x hx
  rwa [hb] at hallowed

omit [IsStrictOrderedRing K] in
/-- One plane leaves no gap. -/
theorem gap_one (h : p.planes.length = 1) : p.gap [1] = 0 := by
  obtain ⟨plane, hplane⟩ := List.length_eq_one_iff.mp h
  simp [gap, gapAt, valuesAt, hplane, Vec.maximum]

end Subproblem

end Bound

namespace Solver

/-! ## The reading of an answer -/

/-- The clipped point, scaled to sum one if its sum is positive. -/
def readWeights (point : List K) : List K :=
  if 0 < Vec.sum (floorWeights point) then
    (floorWeights point).map (· / Vec.sum (floorWeights point))
  else floorWeights point

section Reading

variable [IsStrictOrderedRing K] {point : List K}

omit [IsStrictOrderedRing K] in
/-- Weights with a positive sum are read as their shares in it. -/
theorem readWeights_of_pos (h : 0 < Vec.sum (floorWeights point)) :
    readWeights point = (floorWeights point).map (· / Vec.sum (floorWeights point)) :=
  if_pos h

omit [IsStrictOrderedRing K] in
/-- There are as many weights without the negative ones. -/
theorem length_floorWeights (point : List K) : (floorWeights point).length = point.length := by
  simp [floorWeights]

/-- Weights with a positive sum are read as a weighting. -/
theorem isWeighting_readWeights (h : 0 < Vec.sum (floorWeights point)) :
    IsWeighting point.length (readWeights point) := by
  have hw := isWeighting_map_div (fun _ ha => floorWeights_nonneg ha) h
  rwa [length_floorWeights, ← readWeights_of_pos h] at hw

/-- Without the negative weights the sum is not negative. -/
theorem sum_floorWeights_nonneg (point : List K) : 0 ≤ Vec.sum (floorWeights point) := by
  rw [Vec.sum_eq]
  exact List.sum_nonneg fun _ ha => floorWeights_nonneg ha

/-- No weight is read as negative. -/
theorem readWeights_nonneg {a : K} (ha : a ∈ readWeights point) : 0 ≤ a := by
  by_cases h : 0 < Vec.sum (floorWeights point)
  · exact (isWeighting_readWeights h).nonneg a ha
  · rw [readWeights, if_neg h] at ha
    exact floorWeights_nonneg ha

/-- No other sums than zero and one are left. -/
theorem sum_readWeights (point : List K) :
    Vec.sum (readWeights point) = 0 ∨ Vec.sum (readWeights point) = 1 := by
  by_cases h : 0 < Vec.sum (floorWeights point)
  · exact .inr (isWeighting_readWeights h).sum_eq_one
  · rw [readWeights, if_neg h]
    exact .inl (le_antisymm (not_lt.mp h) (sum_floorWeights_nonneg point))

end Reading

section Judging

variable (s : Solver K) (answer : Answer K)

/-- The status that comes of an answer. -/
def statusOf : SolveStatus :=
  if 0 < Vec.sum (floorWeights answer.point) then
    if answer.exitCode = 0 ∨ s.subproblem.gap (readWeights answer.point) ≤ s.acceptedGap then
      .success
    else claimed answer.exitCode
  else .numericalFailure

/-- Only exit code zero claims success. -/
theorem claimed_eq_success_iff {exitCode : Int} : claimed exitCode = .success ↔ exitCode = 0 := by
  unfold claimed
  split
  · rename_i h
    simp [h]
  · split <;> simp_all

/-- Only exit code nine claims that the limit was reached. -/
theorem claimed_eq_iterationLimit_iff {exitCode : Int} :
    claimed exitCode = .iterationLimit ↔ exitCode = 9 := by
  unfold claimed
  split
  · rename_i h
    simp [h]
  · split <;> simp_all

/-- An answer is judged by its clipped point, by its exit code and by the gap. -/
theorem judge_eq : (s.judge answer).1 = readWeights answer.point ∧
    (s.judge answer).2.1 = s.statusOf answer := by
  unfold judge statusOf
  dsimp only
  by_cases hpositive : 0 < Vec.sum (floorWeights answer.point)
  · rw [if_neg (by simpa using hpositive), if_pos hpositive, ← readWeights_of_pos hpositive]
    by_cases hzero : answer.exitCode = 0
    · have hsuccess := claimed_eq_success_iff.mpr hzero
      rw [if_pos hsuccess]
      exact ⟨rfl, hsuccess.trans (if_pos (Or.inl hzero)).symm⟩
    · rw [if_neg (mt claimed_eq_success_iff.mp hzero)]
      by_cases hgap : s.subproblem.gap (readWeights answer.point) ≤ s.acceptedGap
      · rw [if_pos hgap]
        exact ⟨rfl, (if_pos (Or.inr hgap)).symm⟩
      · rw [if_neg hgap]
        exact ⟨rfl, (if_neg (not_or.mpr ⟨hzero, hgap⟩)).symm⟩
  · rw [if_pos (by simpa using hpositive), if_neg hpositive, readWeights, if_neg hpositive]
    exact ⟨rfl, rfl⟩

variable {s answer}

/-- A solve succeeds if there is weight, and the minimizer claims so or the gap is small. -/
theorem statusOf_eq_success_iff : s.statusOf answer = .success ↔
    0 < Vec.sum (floorWeights answer.point) ∧
      (answer.exitCode = 0 ∨ s.subproblem.gap (readWeights answer.point) ≤ s.acceptedGap) := by
  unfold statusOf
  split
  · rename_i hpositive
    rw [and_iff_right hpositive]
    split
    · rename_i h
      exact iff_of_true rfl h
    · rename_i h
      rw [claimed_eq_success_iff]
      exact iff_of_false (fun hzero => h (.inl hzero)) h
  · rename_i hpositive
    exact iff_of_false nofun fun h => hpositive h.1

/-- A solve has reached the limit if the minimizer claims so, there is weight and the gap is not
small. -/
theorem statusOf_eq_iterationLimit_iff : s.statusOf answer = .iterationLimit ↔
    answer.exitCode = 9 ∧ 0 < Vec.sum (floorWeights answer.point) ∧
      s.acceptedGap < s.subproblem.gap (readWeights answer.point) := by
  unfold statusOf
  split
  · rename_i hpositive
    rw [and_iff_right hpositive, ← not_le]
    split
    · rename_i h
      refine iff_of_false nofun fun ⟨hnine, hgap⟩ => ?_
      rcases h with hzero | hsmall
      · omega
      · exact hgap hsmall
    · rename_i h
      rw [claimed_eq_iterationLimit_iff]
      exact (and_iff_left fun hgap => h (.inr hgap)).symm
  · rename_i hpositive
    exact iff_of_false nofun fun h => hpositive h.2.1

/-- A solve with a minimizer succeeds, has reached the limit, or has failed. -/
theorem statusOf_cases (s : Solver K) (answer : Answer K) :
    s.statusOf answer = .success ∨ s.statusOf answer = .iterationLimit ∨
      s.statusOf answer = .numericalFailure := by
  unfold statusOf claimed
  split_ifs <;> simp

end Judging

/-- The accepted gap is a share of the tolerance for inexact solutions, with a floor. -/
theorem acceptedGap_eq [IsStrictOrderedRing K] (s : Solver K) :
    s.acceptedGap = max (1 / 10 ^ 9) (1 / 10 ^ 4 * s.inexactness) := by
  have hfloor : (0.000000001 : K) = 1 / 10 ^ 9 := by norm_num
  have hshare : (0.0001 : K) = 1 / 10 ^ 4 := by norm_num
  rw [acceptedGap, Scalar.greater_eq_max, hfloor, hshare]

/-! ## A solve in a session -/

section Solve

variable {s : Solver K} {warm : Bool} {ask : Request K → Answer K}

/-- What the minimizer answers in a solve, as one number per plane. -/
def answer (s : Solver K) (warm : Bool) (ask : Request K → Answer K) : Answer K :=
  { ask (s.request warm) with point := Vec.fit s.cuts (ask (s.request warm)).point }

/-- An answer with one number per plane is taken as it is. -/
theorem answer_eq (h : (ask (s.request warm)).point.length = s.cuts) :
    s.answer warm ask = ask (s.request warm) := by
  rw [answer, Vec.fit_of_length_eq h]

/-- With two planes or more a solve stores what its answer is judged to be. -/
theorem solveBy_of_two_le_cuts (warm : Bool) (ask : Request K → Answer K)
    (hdrill : s.drill = none) (hcuts : 2 ≤ s.cuts) :
    (s.solveBy warm ask).solver.weights = readWeights (s.answer warm ask).point ∧
      (s.solveBy warm ask).solver.status = s.statusOf (s.answer warm ask) := by
  obtain ⟨hweights, hstatus⟩ := s.judge_eq (s.answer warm ask)
  rw [solveBy_of_drill_eq_none s warm ask hdrill, solveFrom, if_neg (by omega), if_neg (by simp),
    if_neg (by omega)]
  exact ⟨hweights, (store_status ..).trans hstatus⟩

/-- Without planes there is nothing to solve. -/
theorem solveBy_of_cuts_eq_zero (hdrill : s.drill = none) (hcuts : s.cuts = 0) :
    s.solveBy warm ask =
      ⟨s.storeUnsolvable .inputError, none, [.unsolvable .inputError 0]⟩ := by
  rw [solveBy_of_drill_eq_none s warm ask hdrill, solveFrom, if_pos hcuts]

variable [IsStrictOrderedRing K]

/-- Combination and step belong to the weights, with no planes too. -/
theorem solveBy_belongs (warm : Bool) (ask : Request K → Answer K)
    (hb : s.subproblem.bound.Positive) (hdrill : s.drill = none) :
    (s.solveBy warm ask).solver.combination =
        s.subproblem.combination (s.solveBy warm ask).solver.weights ∧
      (s.solveBy warm ask).solver.step =
        s.subproblem.stepOf (s.solveBy warm ask).solver.combination := by
  by_cases hcuts : s.cuts = 0
  · have hplanes : s.subproblem.planes = [] := List.eq_nil_of_length_eq_zero hcuts
    rw [solveBy_of_cuts_eq_zero hdrill hcuts]
    refine ⟨?_, (Subproblem.stepOf_zeros hb s.dimension).symm⟩
    rw [Subproblem.combination, hplanes]
    rfl
  · obtain ⟨hcombination, hstep⟩ := s.solveBy_coherent warm ask hcuts
    exact ⟨hcombination, by rw [hstep, hcombination]; rfl⟩

end Solve

variable [IsStrictOrderedRing K]

/-- How an answer of the minimizer is reported, given the gap that is accepted from one
that failed. -/
structure Reports (p : Subproblem K) (accepted : K) (answer : Answer K) (t : Solver K) :
    Prop where
  /-- The weights are the clipped point, scaled if its sum is positive. -/
  weights_eq : t.weights = readWeights answer.point
  /-- A claimed success stands if the clipped point has a positive sum. -/
  claimed_iff : answer.exitCode = 0 →
    (t.status = .success ↔ 0 < Vec.sum (floorWeights answer.point))
  /-- A claimed failure is a success if the weights leave a small gap besides. -/
  overruled_iff : answer.exitCode ≠ 0 →
    (t.status = .success ↔
      0 < Vec.sum (floorWeights answer.point) ∧ p.gap t.weights ≤ accepted)
  /-- The step of an overruled failure is least up to the accepted gap. -/
  primal_le : answer.exitCode ≠ 0 → t.status = .success →
    ∀ y, p.Feasible y → p.primal t.step ≤ p.primal y + accepted
  /-- Minimizers are near it. -/
  distance_le : answer.exitCode ≠ 0 → t.status = .success →
    ∀ d, p.IsMinimizer d → 1 / 2 * Vec.normSq (Vec.sub t.step d) ≤ accepted
  /-- The iteration limit is reported for its own exit code, a positive sum and a gap that
  is not small. -/
  iterationLimit_iff : t.status = .iterationLimit ↔
    answer.exitCode = 9 ∧ 0 < Vec.sum (floorWeights answer.point) ∧ accepted < p.gap t.weights
  /-- All else is a numerical failure. -/
  otherwise : t.status = .success ∨ t.status = .iterationLimit ∨ t.status = .numericalFailure

/-- What holds after a solve, whatever the minimizer answered. -/
structure Settled (s : Solver K) (warm : Bool) (ask : Request K → Answer K) (t : Solved K) :
    Prop where
  /-- There is one weight per plane. -/
  length_weights : t.solver.weights.length = s.cuts
  /-- No weight is negative. -/
  weights_nonneg : ∀ a ∈ t.solver.weights, 0 ≤ a
  /-- The weights sum to zero or one. -/
  sum_weights : Vec.sum t.solver.weights = 0 ∨ Vec.sum t.solver.weights = 1
  /-- The slopes are combined by the weights. -/
  combination_eq : t.solver.combination = s.subproblem.combination t.solver.weights
  /-- The step is the combination with its sign changed, clipped to the bound. -/
  step_eq : t.solver.step = t.solver.combination.map fun v => s.subproblem.bound.clip (-v)
  /-- The step is feasible. -/
  feasible : s.subproblem.Feasible t.solver.step
  /-- Its largest entry is within the radius, if there is one. -/
  normInf_le : ∀ radius, s.subproblem.bound = .within radius →
    Vec.normInf t.solver.step ≤ radius
  /-- After a success the weights sum to one. -/
  sum_eq_one : t.solver.status = .success → Vec.sum t.solver.weights = 1
  /-- Without planes there is nothing to solve. -/
  no_plane : s.cuts = 0 → t.solver.status = .inputError ∧ t.consultation = none
  /-- One plane is solved exactly, without the minimizer. -/
  one_plane : s.cuts = 1 → t.solver.status = .success ∧ t.consultation = none ∧
    s.subproblem.IsMinimizer t.solver.step ∧
      ∀ d, s.subproblem.IsMinimizer d → d = t.solver.step
  /-- Otherwise the minimizer is asked once, and its answer is reported. -/
  several : 2 ≤ s.cuts →
    t.consultation = some ⟨s.request warm, s.answer warm ask⟩ ∧
      Reports s.subproblem (max (1 / 10 ^ 9) (1 / 10 ^ 4 * s.inexactness)) (s.answer warm ask)
        t.solver

section Settled

variable {s : Solver K} {warm : Bool} {ask : Request K → Answer K}

/-- A solve with a minimizer reports as it should. -/
theorem reports (hp : s.subproblem.WellFormed) (hb : s.subproblem.bound.Positive)
    (hdrill : s.drill = none) (hcuts : 2 ≤ s.cuts) :
    Reports s.subproblem (max (1 / 10 ^ 9) (1 / 10 ^ 4 * s.inexactness)) (s.answer warm ask)
      (s.solveBy warm ask).solver := by
  rw [← s.acceptedGap_eq]
  obtain ⟨hweights, hstatus⟩ := solveBy_of_two_le_cuts warm ask hdrill hcuts
  have hstep : (s.solveBy warm ask).solver.step =
      s.subproblem.stepAt (s.solveBy warm ask).solver.weights :=
    (solveBy_coherent s warm ask (by omega)).2
  have hoverruled : (s.answer warm ask).exitCode ≠ 0 →
      ((s.solveBy warm ask).solver.status = .success ↔
        0 < Vec.sum (floorWeights (s.answer warm ask).point) ∧
          s.subproblem.gap (s.solveBy warm ask).solver.weights ≤ s.acceptedGap) := by
    intro hexit
    rw [hstatus, hweights, statusOf_eq_success_iff, or_iff_right hexit]
  -- a failure that is overruled leaves a weighting with a small gap
  have hcertificate : (s.solveBy warm ask).solver.status = .success →
      s.subproblem.Certificate (s.solveBy warm ask).solver.weights := fun hsuccess =>
    Subproblem.certificate hp hb (isWeighting_of_success hsuccess)
  constructor
  case weights_eq => exact hweights
  case claimed_iff =>
    intro hexit
    rw [hstatus, statusOf_eq_success_iff, and_iff_left (.inl hexit)]
  case overruled_iff => exact hoverruled
  case primal_le =>
    intro hexit hsuccess
    rw [hstep]
    exact (hcertificate hsuccess).primal_le _ ((hoverruled hexit).mp hsuccess).2
  case distance_le =>
    intro hexit hsuccess
    rw [hstep]
    exact (hcertificate hsuccess).distance_le _ ((hoverruled hexit).mp hsuccess).2
  case iterationLimit_iff => rw [hstatus, hweights, statusOf_eq_iterationLimit_iff]
  case otherwise =>
    rw [hstatus]
    exact s.statusOf_cases _

/-- Every solve without a rehearsal of failures is settled. -/
theorem settled (hp : s.subproblem.WellFormed) (hb : s.subproblem.bound.Positive)
    (hdrill : s.drill = none) : Settled s warm ask (s.solveBy warm ask) := by
  obtain ⟨hcombination, hstep⟩ := solveBy_belongs warm ask hb hdrill
  have hfeasible : s.subproblem.Feasible (s.solveBy warm ask).solver.step := by
    rw [hstep, hcombination]
    exact Subproblem.feasible_stepAt hp hb _
  have hlength := length_solveBy_weights s warm ask
  have hweights : (∀ a ∈ (s.solveBy warm ask).solver.weights, 0 ≤ a) ∧
      (Vec.sum (s.solveBy warm ask).solver.weights = 0 ∨
        Vec.sum (s.solveBy warm ask).solver.weights = 1) := by
    rcases Nat.lt_or_ge s.cuts 2 with hfew | hmany
    · by_cases hone : s.cuts = 1
      · rw [solveBy_weights_of_cuts_eq_one s warm ask hone]
        exact ⟨isWeighting_one.nonneg, .inr isWeighting_one.sum_eq_one⟩
      · rw [List.eq_nil_of_length_eq_zero (hlength.trans (by omega))]
        exact ⟨nofun, .inl rfl⟩
    · rw [(solveBy_of_two_le_cuts warm ask hdrill hmany).1]
      exact ⟨fun a ha => readWeights_nonneg ha, sum_readWeights _⟩
  constructor
  case length_weights => exact hlength
  case weights_nonneg => exact hweights.1
  case sum_weights => exact hweights.2
  case combination_eq => exact hcombination
  case step_eq => exact hstep
  case feasible => exact hfeasible
  case normInf_le =>
    intro radius hradius
    refine hfeasible.normInf_le ?_ hradius
    rw [hradius] at hb
    exact le_of_lt hb
  case sum_eq_one => exact fun hsuccess => (isWeighting_of_success hsuccess).sum_eq_one
  case no_plane =>
    intro hcuts
    rw [solveBy_of_cuts_eq_zero hdrill hcuts]
    exact ⟨rfl, rfl⟩
  case one_plane =>
    intro hcuts
    have hone : IsWeighting s.subproblem.planes.length ([1] : List K) :=
      (show s.subproblem.planes.length = 1 from hcuts) ▸ isWeighting_one
    rw [solveBy_of_cuts_eq_one s warm ask hcuts hdrill]
    exact ⟨store_status .., rfl,
      Subproblem.unique_minimizer hp hb hone (Subproblem.gap_one hcuts)⟩
  case several =>
    intro hcuts
    refine ⟨?_, reports hp hb hdrill hcuts⟩
    rw [consultation_solveBy, if_neg (by omega)]
    rfl

end Settled

section Session

omit [Field K] [LinearOrder K] [FloorRing K] [IsStrictOrderedRing K] in
/-- A batch that fits has slopes of the right length. -/
theorem length_slope_of_batch {dimension : Nat} {slopes : List (List K)} {biases : List K}
    {planes : List (Plane K)} (h : batch dimension slopes biases = .ok planes) :
    ∀ p ∈ planes, p.slope.length = dimension := by
  unfold batch at h
  split at h
  · cases h
  · split at h
    · cases h
      exact nofun
    · rename_i first rest _
      split at h
      · cases h
      · rename_i hsame
        split at h
        · cases h
        · rename_i hfirst
          cases h
          have hall : ∀ v ∈ first :: rest, v.length = dimension := by
            refine List.forall_mem_cons.mpr ⟨not_not.mp hfirst, fun v hv => ?_⟩
            have hv' : v.length = first.length := by
              by_contra hne
              exact hsame (List.any_eq_true.mpr ⟨v, hv, decide_eq_true hne⟩)
            exact hv'.trans (not_not.mp hfirst)
          intro p hp
          rw [← List.map_uncurry_zip_eq_zipWith] at hp
          obtain ⟨x, hx, rfl⟩ := List.mem_map.mp hp
          exact hall x.1 (List.of_mem_zip hx).1

/-- What a session keeps: slopes of the right length, a positive bound, and no rehearsal
of failures. -/
structure Sound (s : Solver K) : Prop where
  wellFormed : s.subproblem.WellFormed
  positive : s.subproblem.bound.Positive
  drill_eq_none : s.drill = none

omit [IsStrictOrderedRing K] in
/-- A new solver is sound. -/
theorem sound_create (dimension : Nat) (settings : Settings K) :
    (create dimension settings none).Sound :=
  ⟨nofun, trivial, rfl⟩

/-- Each use keeps a solver sound. -/
theorem Sound.apply {s : Solver K} (h : s.Sound) (u : Use K) : (s.apply u).Sound := by
  cases u with
  | load slopes biases =>
    cases hbatch : batch s.dimension slopes biases with
    | error fault =>
      rw [Solver.apply, load, hbatch]
      exact h
    | ok planes =>
      rw [Solver.apply, load, hbatch]
      refine ⟨length_slope_of_batch hbatch, h.positive, ?_⟩
      change s.drill.map _ = none
      rw [h.drill_eq_none]
      rfl
  | extend slopes biases =>
    cases hbatch : batch s.dimension slopes biases with
    | error fault =>
      rw [Solver.apply, extend, hbatch]
      exact h
    | ok planes =>
      rw [Solver.apply, extend, hbatch]
      exact ⟨List.forall_mem_append.mpr ⟨h.wellFormed, length_slope_of_batch hbatch⟩, h.positive,
        h.drill_eq_none⟩
  | solve warm ask =>
    refine ⟨?_, ?_, s.solveBy_drill_eq_none warm ask h.drill_eq_none⟩
    · rw [Solver.apply, solveBy_subproblem]
      exact h.wellFormed
    · rw [Solver.apply, solveBy_subproblem]
      exact h.positive
  | setRadius radius =>
    exact ⟨h.wellFormed, StepBound.positive_ofRadius radius, h.drill_eq_none⟩
  | setInexactness tolerance => exact ⟨h.wellFormed, h.positive, h.drill_eq_none⟩
  | clearStep => exact ⟨h.wellFormed, h.positive, h.drill_eq_none⟩

/-- Each session keeps a solver sound. -/
theorem Sound.after {s : Solver K} (h : s.Sound) (uses : List (Use K)) :
    (s.after uses).Sound := by
  induction uses generalizing s with
  | nil => exact h
  | cons u uses ih => exact ih (h.apply u)

/-- In any session with a new solver, and whatever the minimizer answers, a solve leaves one
nonnegative weight per plane with sum zero or one, and the combination and the clipped step
that belong to them; a success leaves sum one. No plane is an input error and one plane is
solved exactly, both without the minimizer. A failure of the minimizer is a success exactly
if its clipped point has a positive sum and, scaled, a small gap; then the step is least and
near the minimizer up to that gap. -/
theorem session_solves (dimension : Nat) (settings : Settings K) (uses : List (Use K))
    (warm : Bool) (ask : Request K → Answer K) :
    let s := (create dimension settings none).after uses
    Settled s warm ask (s.solveBy warm ask) ∧
      ((ask (s.request warm)).point.length = s.cuts →
        s.answer warm ask = ask (s.request warm)) := by
  intro s
  have hsound : s.Sound := (sound_create dimension settings).after uses
  exact ⟨settled hsound.wellFormed hsound.positive hsound.drill_eq_none, answer_eq⟩

/-- A minimizer that stops at its iteration limit. -/
def stopped : Request ℚ → Answer ℚ := fun _ => ⟨[51, 49], 9, 5, ""⟩

/-- Two planes of opposite slopes, solved with a tolerance for inexact solutions. -/
def opposed (tolerance : ℚ) : Solver ℚ :=
  (create 1 {} none).after [.load [[1], [-1]] [0, 0], .setInexactness tolerance]

/-- The same answer is a success or not by the tolerance. As a success its step is least up
to a tenth, though it is not least. -/
theorem session_solves_opposed :
    ((opposed 0).solveBy false stopped).solver.status = .iterationLimit ∧
    ((opposed 1000).solveBy false stopped).solver.status = .success ∧
    ((opposed 1000).solveBy false stopped).solver.weights = [51 / 100, 49 / 100] ∧
    ((opposed 1000).solveBy false stopped).solver.step = [-1 / 50] ∧
    ∀ y, (opposed 1000).subproblem.Feasible y →
      (opposed 1000).subproblem.primal [-1 / 50] ≤
        (opposed 1000).subproblem.primal y + 1 / 10 := by
  have hsuccess : ((opposed 1000).solveBy false stopped).solver.status = .success := by
    decide +kernel
  have hstep : ((opposed 1000).solveBy false stopped).solver.step = [-1 / 50] := by
    decide +kernel
  obtain ⟨hsettled, -⟩ := session_solves 1 {}
    [.load [[1], [-1]] [0, 0], .setInexactness 1000] false stopped
  obtain ⟨-, hreports⟩ := hsettled.several (by decide +kernel)
  have hleast := hreports.primal_le (by decide +kernel) hsuccess
  change ∀ y, (opposed 1000).subproblem.Feasible y →
    (opposed 1000).subproblem.primal ((opposed 1000).solveBy false stopped).solver.step ≤
      (opposed 1000).subproblem.primal y +
        max (1 / 10 ^ 9) (1 / 10 ^ 4 * (opposed 1000).inexactness) at hleast
  have haccepted : max (1 / 10 ^ 9) (1 / 10 ^ 4 * (opposed 1000).inexactness) = 1 / 10 := by
    decide +kernel
  rw [hstep, haccepted] at hleast
  exact ⟨by decide +kernel, hsuccess, by decide +kernel, hstep, hleast⟩

end Session

end Solver

end NonsmoothDescent
