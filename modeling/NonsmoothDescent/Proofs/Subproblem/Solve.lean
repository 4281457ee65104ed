import NonsmoothDescent.Proofs.Subproblem.Duality
import NonsmoothDescent.Subproblem.Solver

/-!
# What a solve leaves behind

A solve keeps the planes and the bound, and leaves one weight per plane whatever the
minimizer answers. In exact arithmetic, combination and step belong to the weights as
soon as there is a plane, and after a success the weights are a weighting. So the
optimality error that is read after a success is the duality gap of these weights.
-/

namespace NonsmoothDescent.Solver

section Generic

variable {α : Type} [Scalar α]

section Data

/-- The solver with planes in place of those it had. -/
def loaded (s : Solver α) (planes : List (Plane α)) : Solver α :=
  { s with
    subproblem := { s.subproblem with planes }
    saved := none
    drill := s.drill.map (Drill.loaded · planes.length) }

/-- The solver with planes behind those it has. -/
def extended (s : Solver α) (planes : List (Plane α)) : Solver α :=
  { s with
    subproblem := { s.subproblem with planes := s.subproblem.planes ++ planes }
    saved := if s.weights.isEmpty then none else some s.weights }

omit [Scalar α] in
/-- Planes with slopes of the right length pass as a batch. -/
theorem batch_eq {dimension : Nat} {planes : List (Plane α)}
    (h : ∀ p ∈ planes, p.slope.length = dimension) :
    batch dimension (planes.map Plane.slope) (planes.map Plane.bias) = .ok planes := by
  cases planes with
  | nil => rfl
  | cons first rest =>
    obtain ⟨hfirst, hrest⟩ := List.forall_mem_cons.mp h
    have hzip : List.zipWith Plane.mk (rest.map Plane.slope) (rest.map Plane.bias) = rest := by
      simp [List.zipWith_map]
    unfold batch
    rw [if_neg (by simp)]
    simpa [hfirst, hzip] using hrest

/-- Planes with slopes of the right length are loaded. -/
theorem load_eq {s : Solver α} {planes : List (Plane α)}
    (h : ∀ p ∈ planes, p.slope.length = s.dimension) :
    s.load (planes.map Plane.slope) (planes.map Plane.bias) = .ok (s.loaded planes) := by
  unfold load
  rw [batch_eq h, List.length_map]
  rfl

/-- Planes with slopes of the right length are added. -/
theorem extend_eq {s : Solver α} {planes : List (Plane α)}
    (h : ∀ p ∈ planes, p.slope.length = s.dimension) :
    s.extend (planes.map Plane.slope) (planes.map Plane.bias) = .ok (s.extended planes) := by
  unfold extend
  rw [batch_eq h]
  rfl

end Data

/-- A solve from the weights of the last one, or from equal weights. -/
def solveBy (s : Solver α) (warm : Bool) (ask : Request α → Answer α) : Solved α :=
  if warm then s.solveWarm ask else s.solve ask

/-- The start point of a solve. -/
def startOf (s : Solver α) (warm : Bool) : List α := if warm then s.warmStart else s.equalWeights

/-- What the minimizer is asked in a solve, if it is. -/
def request (s : Solver α) (warm : Bool) : Request α := ⟨s.subproblem, s.startOf warm, s.settings⟩

/-- The rehearsal of failures changes the status and its own record only. -/
theorem rehearse_eq (s : Solver α) :
    ∃ status drill, s.rehearse = { s with status, drill } ∧
      (status = .success → s.status = .success) := by
  unfold rehearse
  split
  · exact ⟨s.status, s.drill, rfl, id⟩
  · refine ⟨_, _, rfl, fun h => ?_⟩
    split at h
    · cases h
    · exact h

/-- A solve is one from its start point, up to a rehearsed failure. -/
theorem solveBy_eq (s : Solver α) (warm : Bool) (ask : Request α → Answer α) :
    ∃ status drill, (s.solveBy warm ask).solver =
        { (s.solveFrom ask (s.startOf warm)).solver with status, drill } ∧
      (status = .success → (s.solveFrom ask (s.startOf warm)).solver.status = .success) := by
  have he : (s.solveBy warm ask).solver = (s.solveFrom ask (s.startOf warm)).solver.rehearse := by
    cases warm <;> rfl
  rw [he]
  exact rehearse_eq _

/-- Whatever was answered, there is one weight per plane. -/
theorem length_judge (s : Solver α) (answer : Answer α) :
    (s.judge answer).1.length = answer.point.length := by
  have hfloor : (floorWeights answer.point).length = answer.point.length := by
    simp [floorWeights]
  unfold judge
  dsimp only
  split
  · exact hfloor
  · split
    · simpa using hfloor
    · split <;> simpa using hfloor

/-- A solve stores the failure of a subproblem that cannot be posed, or weights with the
step that belongs to them. -/
theorem solveFrom_cases (s : Solver α) (ask : Request α → Answer α) (start : List α) :
    (∃ status, status ≠ .success ∧ (s.solveFrom ask start).solver = s.storeUnsolvable status) ∨
    ∃ weights status iterations, weights.length = s.cuts ∧
      (s.solveFrom ask start).solver = s.store weights status iterations := by
  unfold solveFrom
  split
  · exact .inl ⟨.inputError, by decide, rfl⟩
  · split
    · exact .inl ⟨.numericalFailure, by decide, rfl⟩
    · split
      · rename_i hone
        exact .inr ⟨[1], .success, 0, hone.symm, rfl⟩
      · refine .inr ⟨_, _, _, ?_, rfl⟩
        rw [length_judge, Vec.length_fit]

section Run

variable (s : Solver α) (warm : Bool) (ask : Request α → Answer α)

/-- A solve leaves the planes. -/
@[simp] theorem solveBy_subproblem : (s.solveBy warm ask).solver.subproblem = s.subproblem := by
  obtain ⟨_, _, he, _⟩ := s.solveBy_eq warm ask
  rw [he]
  rcases s.solveFrom_cases ask (s.startOf warm) with ⟨_, _, hs⟩ | ⟨_, _, _, _, hs⟩ <;>
    rw [hs] <;> rfl

/-- A solve leaves what was kept for a warm one. -/
@[simp] theorem solveBy_saved : (s.solveBy warm ask).solver.saved = s.saved := by
  obtain ⟨_, _, he, _⟩ := s.solveBy_eq warm ask
  rw [he]
  rcases s.solveFrom_cases ask (s.startOf warm) with ⟨_, _, hs⟩ | ⟨_, _, _, _, hs⟩ <;>
    rw [hs] <;> rfl

/-- A solve leaves the tolerance. -/
@[simp] theorem solveBy_inexactness :
    (s.solveBy warm ask).solver.inexactness = s.inexactness := by
  obtain ⟨_, _, he, _⟩ := s.solveBy_eq warm ask
  rw [he]
  rcases s.solveFrom_cases ask (s.startOf warm) with ⟨_, _, hs⟩ | ⟨_, _, _, _, hs⟩ <;>
    rw [hs] <;> rfl

/-- Without a rehearsal of failures a solve is one from its start point. -/
theorem solveBy_of_drill_eq_none (h : s.drill = none) :
    s.solveBy warm ask = s.solveFrom ask (s.startOf warm) := by
  have hdrill : (s.solveFrom ask (s.startOf warm)).solver.drill = none := by
    rcases s.solveFrom_cases ask (s.startOf warm) with ⟨_, _, hs⟩ | ⟨_, _, _, _, hs⟩ <;>
      rw [hs] <;> exact h
  have hsame : (s.solveFrom ask (s.startOf warm)).solver.rehearse =
      (s.solveFrom ask (s.startOf warm)).solver := by
    unfold rehearse
    rw [hdrill]
  have hrun : s.solveBy warm ask = s.run ask (s.startOf warm) := by cases warm <;> rfl
  rw [hrun, run, hsame]

/-- Where no failures are rehearsed none are after a solve. -/
theorem solveBy_drill_eq_none (h : s.drill = none) :
    (s.solveBy warm ask).solver.drill = none := by
  rw [solveBy_of_drill_eq_none s warm ask h]
  rcases s.solveFrom_cases ask (s.startOf warm) with ⟨_, _, hs⟩ | ⟨_, _, _, _, hs⟩ <;>
    rw [hs] <;> exact h

/-- What the minimizer was asked in a solve is about the planes of the solver, from the start
point of the solve. -/
theorem request_of_consultation {c : Consultation α}
    (h : (s.solveBy warm ask).consultation = some c) : c.request = s.request warm := by
  have hrun : (s.solveBy warm ask).consultation =
      (s.solveFrom ask (s.startOf warm)).consultation := by
    cases warm <;> rfl
  rw [hrun, solveFrom] at h
  split at h
  · cases h
  · split at h
    · cases h
    · split at h
      · cases h
      · rw [← Option.some.inj h]
        rfl

/-- Behind the planes of the last solve, a warm solve starts from its weights and zeros. -/
theorem warmStart_extended {s : Solver α} (hlength : s.weights.length = s.cuts)
    (hne : s.weights ≠ []) (planes : List (Plane α)) :
    (s.extended planes).warmStart =
      if Vec.sum s.weights ≤ 0 then (s.extended planes).equalWeights
      else s.weights ++ Vec.zeros ((s.extended planes).cuts - s.cuts) := by
  have hsaved : (s.extended planes).saved = some s.weights := by
    rw [extended, if_neg (by rwa [List.isEmpty_iff])]
  have hroom : ¬ (s.extended planes).cuts < s.weights.length := by
    have hcuts : (s.extended planes).cuts = s.cuts + planes.length := List.length_append
    rw [hlength, hcuts]
    exact Nat.not_lt.mpr (Nat.le_add_right _ _)
  unfold warmStart
  rw [hsaved]
  dsimp only
  rw [decide_eq_false hroom, Bool.false_or, hlength]
  by_cases hsum : Vec.sum s.weights ≤ 0
  · rw [if_pos (decide_eq_true hsum), if_pos hsum]
  · rw [if_neg (by simpa using hsum), if_neg hsum]

/-- After a success the combination belongs to the weights. -/
theorem combination_of_success (h : (s.solveBy warm ask).solver.status = .success) :
    (s.solveBy warm ask).solver.combination =
      s.subproblem.combination (s.solveBy warm ask).solver.weights := by
  obtain ⟨_, _, he, himp⟩ := s.solveBy_eq warm ask
  rw [he] at h ⊢
  rcases s.solveFrom_cases ask (s.startOf warm) with ⟨_, hne, hs⟩ | ⟨_, _, _, _, hs⟩
  · have hsuccess := himp h
    rw [hs] at hsuccess
    exact absurd hsuccess hne
  · rw [hs]
    rfl

/-- After a solve there is one weight per plane. -/
theorem length_solveBy_weights : (s.solveBy warm ask).solver.weights.length = s.cuts := by
  obtain ⟨_, _, he, _⟩ := s.solveBy_eq warm ask
  rw [he]
  rcases s.solveFrom_cases ask (s.startOf warm) with ⟨_, _, hs⟩ | ⟨_, _, _, hl, hs⟩ <;> rw [hs]
  · exact Vec.length_zeros s.cuts
  · exact hl

/-- The step of a solve has one entry per variable. -/
theorem length_solveBy_step (hs : s.subproblem.WellFormed) :
    (s.solveBy warm ask).solver.step.length = s.dimension := by
  obtain ⟨_, _, he, _⟩ := s.solveBy_eq warm ask
  rw [he]
  rcases s.solveFrom_cases ask (s.startOf warm) with ⟨_, _, hf⟩ | ⟨weights, _, _, _, hf⟩ <;>
    rw [hf]
  · exact Vec.length_zeros s.dimension
  · change (s.subproblem.stepOf (s.subproblem.combination weights)).length = _
    rw [Subproblem.length_stepOf, Subproblem.length_combination hs]
    rfl

end Run

end Generic

section Exact

variable {K : Type} [Field K] [LinearOrder K] [FloorRing K]

/-- Over exact scalars every subproblem can be posed. -/
@[simp] theorem subproblem_isFinite (p : Subproblem K) : p.isFinite = true := by
  simp [Subproblem.isFinite, Vec.isFinite]

/-- Without the negative weights none is negative. -/
theorem floorWeights_nonneg {point : List K} {a : K} (h : a ∈ floorWeights point) : 0 ≤ a := by
  obtain ⟨w, _, rfl⟩ := List.mem_map.mp h
  split
  · exact le_rfl
  · rename_i hw
    exact not_lt.mp hw

/-- Dividing all entries divides the sum. -/
theorem sum_map_div (v : List K) (total : K) : Vec.sum (v.map (· / total)) = Vec.sum v / total := by
  induction v with
  | nil => simp
  | cons a v ih => rw [List.map_cons, Vec.sum_cons, Vec.sum_cons, ih, add_div]

/-- The minimizer is asked as soon as there are two planes. -/
theorem consultation_solveBy (s : Solver K) (warm : Bool) (ask : Request K → Answer K) :
    (s.solveBy warm ask).consultation =
      if s.cuts < 2 then none
      else some ⟨s.request warm, { ask (s.request warm) with
        point := Vec.fit s.cuts (ask (s.request warm)).point }⟩ := by
  have hrun : (s.solveBy warm ask).consultation =
      (s.solveFrom ask (s.startOf warm)).consultation := by
    cases warm <;> rfl
  rw [hrun]
  unfold solveFrom
  by_cases hzero : s.cuts = 0
  · rw [if_pos hzero, if_pos (by omega)]
  · rw [if_neg hzero, if_neg (by simp)]
    by_cases hone : s.cuts = 1
    · rw [if_pos hone, if_pos (by omega)]
    · rw [if_neg hone, if_neg (by omega)]
      rfl

variable [IsStrictOrderedRing K]

/-- Dividing nonnegative weights by their positive sum gives a weighting. -/
theorem isWeighting_map_div {v : List K} (hv : ∀ a ∈ v, 0 ≤ a) (ht : 0 < Vec.sum v) :
    IsWeighting v.length (v.map (· / Vec.sum v)) where
  length_eq := List.length_map _
  nonneg a ha := by
    obtain ⟨b, hb, rfl⟩ := List.mem_map.mp ha
    exact div_nonneg (hv b hb) ht.le
  sum_eq_one := by rw [sum_map_div, div_self ht.ne']

/-- Only a weighting is called a success, and only one has a positive sum. -/
theorem isWeighting_judge {s : Solver K} {answer : Answer K}
    (h : (s.judge answer).2.1 = .success ∨ 0 < Vec.sum (s.judge answer).1) :
    IsWeighting answer.point.length (s.judge answer).1 := by
  unfold judge at h ⊢
  dsimp only at h ⊢
  split at h
  · rename_i htotal
    have hnone : Vec.sum (floorWeights answer.point) ≤ 0 := by simpa using htotal
    exact h.elim nofun fun hsum => absurd hsum (not_lt.mpr hnone)
  · rename_i htotal
    have hpositive : 0 < Vec.sum (floorWeights answer.point) := by
      simpa using htotal
    have hweighting : IsWeighting answer.point.length
        ((floorWeights answer.point).map (· / Vec.sum (floorWeights answer.point))) := by
      have hl : (floorWeights answer.point).length = answer.point.length := by
        simp [floorWeights]
      exact hl ▸ isWeighting_map_div (fun a ha => floorWeights_nonneg ha) hpositive
    rw [if_neg htotal]
    split
    · exact hweighting
    · split <;> exact hweighting

omit [IsStrictOrderedRing K] in
/-- All weight on one plane is a weighting. -/
theorem isWeighting_one : IsWeighting 1 ([1] : List K) where
  length_eq := rfl
  nonneg a ha := by
    rw [List.mem_singleton.mp ha]
    exact zero_le_one
  sum_eq_one := by simp

/-- With at least one plane, a solve stores weights with the step that belongs to them;
a success stores a weighting, so does any with a positive sum, and one plane has all the
weight. -/
theorem solveFrom_exact (s : Solver K) (ask : Request K → Answer K) (start : List K)
    (hc : s.cuts ≠ 0) :
    ∃ weights status iterations,
      (s.solveFrom ask start).solver = s.store weights status iterations ∧
      (status = .success ∨ 0 < Vec.sum weights → IsWeighting s.cuts weights) ∧
      (s.cuts = 1 → weights = [1] ∧ status = .success) := by
  unfold solveFrom
  rw [if_neg hc, if_neg (by simp)]
  split
  · rename_i hone
    exact ⟨[1], .success, 0, rfl, fun _ => hone ▸ isWeighting_one, fun _ => ⟨rfl, rfl⟩⟩
  · rename_i hmany
    refine ⟨_, _, _, rfl, fun h => ?_, fun hone => absurd hone hmany⟩
    have hw := isWeighting_judge h
    rwa [Vec.length_fit] at hw

omit [IsStrictOrderedRing K] in
/-- Over exact scalars a result is stored with the status it comes with. -/
theorem store_status (s : Solver K) (weights : List K) (status : SolveStatus) (iterations : Int) :
    (s.store weights status iterations).status = status := by
  simp [store, Vec.isFinite]

/-- The solver's weights are a weighting, and combination and step belong to them. -/
structure Weighted (s : Solver K) : Prop where
  combination_eq : s.combination = s.subproblem.combination s.weights
  step_eq : s.step = s.subproblem.stepAt s.weights
  isWeighting : IsWeighting s.cuts s.weights

section Run

variable (s : Solver K) (warm : Bool) (ask : Request K → Answer K)

omit [IsStrictOrderedRing K] in
/-- One plane is solved without the minimizer, and nothing is noted. -/
theorem solveBy_of_cuts_eq_one (hc : s.cuts = 1) (hdrill : s.drill = none) :
    s.solveBy warm ask = ⟨s.store [1] .success 0, none, []⟩ := by
  rw [solveBy_of_drill_eq_none s warm ask hdrill, solveFrom, if_neg (by omega), if_neg (by simp),
    if_pos hc]

/-- Combination and step belong to the weights as soon as there is a plane. -/
theorem solveBy_coherent (hc : s.cuts ≠ 0) :
    (s.solveBy warm ask).solver.combination =
        s.subproblem.combination (s.solveBy warm ask).solver.weights ∧
      (s.solveBy warm ask).solver.step =
        s.subproblem.stepAt (s.solveBy warm ask).solver.weights := by
  obtain ⟨_, _, he, _⟩ := s.solveBy_eq warm ask
  obtain ⟨weights, _, _, hs, _⟩ := s.solveFrom_exact ask (s.startOf warm) hc
  rw [he, hs]
  exact ⟨rfl, rfl⟩

/-- One plane has all the weight, whatever the solve reports. -/
theorem solveBy_weights_of_cuts_eq_one (hc : s.cuts = 1) :
    (s.solveBy warm ask).solver.weights = [1] := by
  obtain ⟨_, _, he, _⟩ := s.solveBy_eq warm ask
  obtain ⟨weights, _, _, hs, _, hone⟩ := s.solveFrom_exact ask (s.startOf warm) (by omega)
  rw [he, hs]
  exact (hone hc).1

variable {s warm ask}

omit [IsStrictOrderedRing K] in
/-- A solve that succeeds had a plane. -/
theorem cuts_ne_zero_of_success (h : (s.solveBy warm ask).solver.status = .success) :
    s.cuts ≠ 0 := by
  intro hzero
  obtain ⟨_, _, he, himp⟩ := s.solveBy_eq warm ask
  rw [he] at h
  have hf := himp h
  rw [solveFrom, if_pos hzero] at hf
  cases hf

/-- After a success the weights are a weighting of the planes. -/
theorem isWeighting_of_success (h : (s.solveBy warm ask).solver.status = .success) :
    IsWeighting s.cuts (s.solveBy warm ask).solver.weights := by
  have hc := cuts_ne_zero_of_success h
  obtain ⟨_, _, he, himp⟩ := s.solveBy_eq warm ask
  obtain ⟨weights, _, _, hs, hw, _⟩ := s.solveFrom_exact ask (s.startOf warm) hc
  rw [he] at h ⊢
  have hf := himp h
  rw [hs, store_status] at hf
  rw [hs]
  exact hw (.inl hf)

/-- Weights with a positive sum are a weighting, whatever the solve reports. -/
theorem isWeighting_of_sum_pos (h : 0 < Vec.sum (s.solveBy warm ask).solver.weights) :
    IsWeighting s.cuts (s.solveBy warm ask).solver.weights := by
  have hc : s.cuts ≠ 0 := by
    intro hzero
    have hl := length_solveBy_weights s warm ask
    rw [List.eq_nil_of_length_eq_zero (hl.trans hzero)] at h
    exact lt_irrefl 0 h
  obtain ⟨_, _, he, _⟩ := s.solveBy_eq warm ask
  obtain ⟨weights, _, _, hs, hw, _⟩ := s.solveFrom_exact ask (s.startOf warm) hc
  rw [he, hs] at h ⊢
  exact hw (.inr h)

omit [IsStrictOrderedRing K] in
/-- A solve leaves the number of planes. -/
theorem cuts_solveBy (s : Solver K) (warm : Bool) (ask : Request K → Answer K) :
    (s.solveBy warm ask).solver.cuts = s.cuts := by
  simp only [cuts, solveBy_subproblem]

/-- After a success the weights are a weighting. -/
theorem weighted_of_success (h : (s.solveBy warm ask).solver.status = .success) :
    (s.solveBy warm ask).solver.Weighted := by
  obtain ⟨hcombination, hstep⟩ := s.solveBy_coherent warm ask (cuts_ne_zero_of_success h)
  refine ⟨?_, ?_, ?_⟩
  · rw [hcombination, solveBy_subproblem]
  · rw [hstep, solveBy_subproblem]
  · rw [cuts_solveBy]
    exact isWeighting_of_success h

/-- With one plane no success is needed. -/
theorem weighted_of_cuts_eq_one (hc : s.cuts = 1) : (s.solveBy warm ask).solver.Weighted := by
  obtain ⟨hcombination, hstep⟩ := s.solveBy_coherent warm ask (by omega)
  refine ⟨?_, ?_, ?_⟩
  · rw [hcombination, solveBy_subproblem]
  · rw [hstep, solveBy_subproblem]
  · rw [cuts_solveBy, hc, s.solveBy_weights_of_cuts_eq_one warm ask hc]
    exact isWeighting_one

/-- The optimality error after a success is the duality gap of the weights. -/
theorem optimalityError_of_success (h : (s.solveBy warm ask).solver.status = .success) :
    (s.solveBy warm ask).solver.optimalityError =
      s.subproblem.gap (s.solveBy warm ask).solver.weights := by
  have hc := cuts_ne_zero_of_success h
  have hl := length_solveBy_weights s warm ask
  have hstep := (solveBy_coherent s warm ask hc).2
  unfold optimalityError
  rw [if_neg (by rw [hl, cuts_solveBy]; simp [hc]), solveBy_subproblem, hstep]
  rfl

end Run

end Exact

end NonsmoothDescent.Solver
