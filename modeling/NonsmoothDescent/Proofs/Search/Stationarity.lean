import NonsmoothDescent.Proofs.Search.Journal
import NonsmoothDescent.Proofs.Search.Law
import NonsmoothDescent.Proofs.Subproblem.Hull

/-!
# Stationarity

A search that adds no far points combines gradients from near the current point only, as
long as its rule changes the radii only where it fires.
After each solve that succeeds, the solver's combination lies in the convex hull of the
gradients known within reach of the current point, however they came into the
subproblem. Where the radius rule fires, this combination is small against the radius.
-/

namespace NonsmoothDescent

variable {K : Type} [Field K] [LinearOrder K] [FloorRing K]

/-- The gradients that are known at samples within a distance of a point, as the oracle
gives them. -/
def Workspace.gradientsNear (o : Oracle K) (w : Workspace K) (x : List K) (r : K) :
    Set (Fin o.dimension → K) :=
  {g | ∃ id < w.samples.size, ∃ slope, (w.sampleAt id).gradient.value? = some slope ∧
    (o.evaluateGradient (w.sampleAt id).position).1 = some slope ∧
    Vec.normInf (Vec.sub x (w.sampleAt id).position) ≤ r ∧ Vec.point o.dimension slope = g}

/-- The solver's combination is a convex combination of gradients known near a point. -/
structure Moment.CombinesNear (o : Oracle K) (x : List K) (r : K) (m : Moment K) : Prop where
  length_eq : m.solver.combination.length = o.dimension
  mem_hull : Vec.point o.dimension m.solver.combination ∈
    convexHull K (m.workspace.gradientsNear o x r)

namespace Workspace

variable {o : Oracle K} {w w' : Workspace K} {x slope : List K} {r : K}

/-- A gradient that is known at a near sample is one of those near. -/
theorem mem_gradientsNear (hw : w.WellFormed o) {id : SampleId} (hid : id < w.samples.size)
    (hg : (w.sampleAt id).gradient.value? = some slope)
    (hr : Vec.normInf (Vec.sub x (w.sampleAt id).position) ≤ r) :
    Vec.point o.dimension slope ∈ w.gradientsNear o x r :=
  ⟨id, hid, slope, hg, (hw.faithful id hid).gradient_eq hg, hr, rfl⟩

/-- As the workspace grows, no gradient near is lost. -/
theorem gradientsNear_grows (h : w.Grows w') :
    w.gradientsNear o x r ⊆ w'.gradientsNear o x r := by
  rintro g ⟨id, hid, slope, hg, ho, hr, rfl⟩
  have hrefines := h.refines id hid
  refine ⟨id, Nat.lt_of_lt_of_le hid h.size_le, slope, hrefines.gradient_value? hg, ?_, ?_, rfl⟩
  · rw [hrefines.position_eq]
    exact ho
  · rw [hrefines.position_eq]
    exact hr

end Workspace

section Law

variable [IsStrictOrderedRing K] {setting : Setting K} {radius : K}

/-- Slopes in the hull of near gradients are a law of planes. -/
theorem nearLaw (hfar : setting.options.addFarPoints = false) (hsteady : setting.rule.Steady)
    (hr : 0 ≤ radius) :
    PlaneLaw setting radius fun w p =>
      Vec.point setting.oracle.dimension p.slope ∈ convexHull K
        (w.gradientsNear setting.oracle w.currentSample.position
          (setting.options.reach radius)) where
  grows hw hg hp := by
    rw [(hg.currentSample hw.current_lt).position_eq]
    exact convexHull_mono (Workspace.gradientsNear_grows hg) hp
  current {w p} hw hp := by
    refine subset_convexHull K _ (Workspace.mem_gradientsNear hw hw.current_lt hp.gradient_eq ?_)
    change Vec.normInf (Vec.sub w.currentSample.position w.currentSample.position) ≤ _
    rw [Vec.normInf_sub_self]
    exact hr.trans (le_reach setting.options hr)
  sampled hw hid hp hnear := by
    obtain ⟨slope, _, _, hg, _, _, rfl⟩ := Sample.plane?_eq_some_iff.mp hp
    exact subset_convexHull K _
      (Workspace.mem_gradientsNear hw hid hg (isNear_iff.mp (hnear hfar hsteady hr)))
  mixed {w planes weights} hw hlength hplanes hweights := by
    rw [← hw.dimension_eq] at hlength ⊢
    have hconvex := (convex_convexHull K (w.gradientsNear setting.oracle w.currentSample.position
      (setting.options.reach radius))).linear_preimage
        (LinearMap.fst K (Fin setting.oracle.dimension → K) K)
    exact Subproblem.point_mix_mem hconvex hlength hplanes hweights

end Law

section Search

/-- After a success the combined plane has the combination as slope. -/
theorem Moment.slope_combined {m : Moment K} (h : m.solver.Weighted) :
    m.combined.slope = m.solver.combination := by
  rw [h.combination_eq, Subproblem.combination_eq_accumulate, combined, Subproblem.mix,
    ← m.dimension_solver]
  rfl

variable [IsStrictOrderedRing K] {setting : Setting K} {entry start s : SearchState K}
  {b : Stage K}

/-- Wherever a search has solved with a weighting, the combination is one of near
gradients. -/
theorem Opens.combinesNear (hopens : Opens setting entry start)
    (hw : entry.workspace.WellFormed setting.oracle) (ho : setting.options.Accepted)
    (hfar : setting.options.addFarPoints = false) (hsteady : setting.rule.Steady)
    (hr : 0 < entry.workspace.radii.stationarity) (h : Reached setting start b s)
    (hsolves : s.Solves setting.oracle) (hweighted : s.solver.Weighted) :
    s.CombinesNear setting.oracle entry.workspace.currentSample.position
      (setting.options.reach entry.workspace.radii.stationarity) := by
  have hradii : start.workspace.radii = entry.workspace.radii := hopens.radii_eq
  rw [← hradii] at hr ⊢
  have hlaw := nearLaw hfar hsteady hr.le
  have hempty : start.engine.activeCuts = [] := by rw [Engine.activeCuts, hopens.active_eq]
  have hcuts := hlaw.obeys hopens.inv ho
    ⟨hopens.fullCuts_eq, hopens.aggregatedCuts_eq, hempty⟩ h
  have hcombined := hlaw.combined hsolves.wellFormed hsolves.toAligned hweighted hcuts.activeCuts
  have hgrows := hopens.grows.trans (h.grows hopens.inv)
  rw [(hgrows.currentSample hw.current_lt).position_eq, Moment.slope_combined hweighted]
    at hcombined
  refine ⟨?_, hcombined⟩
  rw [← Moment.slope_combined hweighted, hsolves.wellFormed.dimension_eq]
  exact Subproblem.length_slope_mix hsolves.denote.length_slope _

omit [IsStrictOrderedRing K] in
/-- Just after a test the moment is that of a solve. -/
theorem Stage.TestedAt.solves {evaluated : Bool} (hb : b.TestedAt evaluated)
    (hinv : Inv setting b s.toMoment) : s.Solves setting.oracle := by
  cases hb with
  | gradient => exact hinv.holds
  | full | short => exact hinv.holds.1

omit [IsStrictOrderedRing K] in
/-- Just after a test the weights are a weighting. -/
theorem Stage.TestedAt.weighted {evaluated : Bool} {solver : Solver K} (hb : b.TestedAt evaluated)
    (h : b.Weighs solver) : solver.Weighted := by
  cases hb <;> exact h

end Search

/-- In a call that adds no far points, with a rule that changes the radii only where it fires,
after every solve that succeeds the solver's combination is a convex combination of gradients
known within reach of the current point. Wherever the shrinking rule fires, it is also small
against the radius at entry. -/
theorem combination_near_current [IsStrictOrderedRing K] {setting : Setting K}
    {entry : SearchState K} (hw : entry.workspace.WellFormed setting.oracle)
    (ho : setting.options.Accepted) (hfar : setting.options.addFarPoints = false)
    (hr : 0 < entry.workspace.radii.stationarity) :
    (setting.rule.Steady → ∀ m, Event.solved m ∈
        (finalState (Search.computeDirection setting entry)).journal.toList →
      m.solver.status = .success →
        m.CombinesNear setting.oracle entry.workspace.currentSample.position
          (max 1 setting.options.shortenedStepsize * entry.workspace.radii.stationarity)) ∧
    ∀ rule : ShrinkRule K, setting.rule = rule.toRule → ∀ m evaluated,
      Event.tested m evaluated ∈
        (finalState (Search.computeDirection setting entry)).journal.toList →
      m.engine.ruleRecord.fired = true →
        m.CombinesNear setting.oracle entry.workspace.currentSample.position
          (max 1 setting.options.shortenedStepsize * entry.workspace.radii.stationarity) ∧
        m.solver.combinationNormInf ≤ rule.tolerance * entry.workspace.radii.stationarity := by
  have hcall := Search.computeDirection_cases hw
  refine ⟨fun hsteady m hm hsuccess => ?_, fun rule hrule m evaluated hm hfired => ?_⟩
  · obtain ⟨start, hopens, kind, journal, hreached⟩ := hcall.cases_of_event hm
    exact hopens.combinesNear hw ho hfar hsteady hr hreached (hreached.inv hopens.inv).holds.1
      (hreached.weighs hopens.inv (.inl hsuccess))
  · obtain ⟨start, hopens, stage, journal, htested, hreached⟩ := hcall.cases_of_event hm
    have hsteady : setting.rule.Steady := hrule ▸ rule.steady
    refine ⟨hopens.combinesNear hw ho hfar hsteady hr hreached
      (htested.solves (hreached.inv hopens.inv))
      (htested.weighted (hreached.weighs hopens.inv)), ?_⟩
    obtain ⟨m₀, rfl, hradii⟩ := hreached.asked hopens.inv htested
    have hsolver : (m₀.asked setting).solver = m₀.solver :=
      (Moment.keeps_asked setting m₀).solver_eq'
    have hask : (m₀.asked setting).engine.ruleRecord =
      (setting.rule.ask m₀.engine.ruleRecord m₀.workspace.radii m₀.solver.status
        m₀.solver.combinationNormInf).1 := rfl
    rw [hask, hrule] at hfired
    have hsmall := (ShrinkRule.fires_iff.mp hfired).2
    rwa [hradii hsteady, hopens.radii_eq, ← hsolver] at hsmall

/-- The absolute value of one variable. -/
def valley : Oracle ℚ where
  dimension := 1
  positive := Nat.one_pos
  value
    | [x] => .ok |x|
    | _ => .error .refused
  gradient := some fun
    | [x] => .ok [if x < 0 then -1 else 1]
    | _ => .error .refused
  differences := Oracle.forwardDifferences (1 / 1000)

/-- A search that gives equal weights to two planes. -/
def balanced : Setting ℚ where
  oracle := valley
  options := { tryGradientStep := false }
  rule := ShrinkRule.standard.toRule
  clock _ := 0
  minimizer _ _ := ⟨[1 / 2, 1 / 2], 0, 1, ""⟩

/-- The current point is on one side of the minimum and a bundle point on the other. -/
def acrossValley : SearchState ℚ where
  workspace :=
    { dimension := 1
      samples := #[{ position := [1 / 100] }, { position := [-1 / 100] }]
      bundle := #[1]
      direction := [0]
      radii := ⟨1 / 10, 1⟩
      startTime := 0
      timeLimit := 10000
      searchTime := 0 }
  engine := {}

/-- The start across the valley is well formed. -/
theorem wellFormed_acrossValley : acrossValley.workspace.WellFormed balanced.oracle where
  dimension_eq := rfl
  length_position id hid := by
    obtain rfl | rfl : id = 0 ∨ id = 1 := by
      change id < 2 at hid
      omega
    · rfl
    · rfl
  faithful id hid := by
    obtain rfl | rfl : id = 0 ∨ id = 1 := by
      change id < 2 at hid
      omega
    · exact ⟨.inl rfl, .inl rfl⟩
    · exact ⟨.inl rfl, .inl rfl⟩
  current_lt := by decide
  bundle_lt := by decide

/-- The gradients on both sides cancel, and the rule fires. -/
theorem combination_near_valley :
    ∃ m evaluated, Event.tested m evaluated ∈
        (finalState (Search.computeDirection balanced acrossValley)).journal.toList ∧
      m.engine.ruleRecord.fired = true ∧
      m.CombinesNear valley [1 / 100] (max 1 balanced.options.shortenedStepsize * (1 / 10)) ∧
      m.solver.combinationNormInf ≤ (ShrinkRule.standard : ShrinkRule ℚ).tolerance * (1 / 10) := by
  have hfires : ((finalState (Search.computeDirection balanced acrossValley)).journal.toList.any
      fun
        | .tested m _ => m.engine.ruleRecord.fired
        | _ => false) = true := by
    decide +kernel
  have haccepted : balanced.options.Accepted := Options.accepted_default
  obtain ⟨event, hevent, hfired⟩ := List.any_eq_true.mp hfires
  cases event with
  | tested m evaluated =>
    obtain ⟨hnear, hsmall⟩ := (combination_near_current wellFormed_acrossValley haccepted rfl
      (by norm_num [acrossValley])).2 .standard rfl m evaluated hevent hfired
    exact ⟨m, evaluated, hevent, hfired, hnear, hsmall⟩
  | consulted | solved | roundBegan => cases hfired

end NonsmoothDescent
