import NonsmoothDescent.Proofs.Search.Succession
import NonsmoothDescent.Proofs.Subproblem.Model

/-!
# The model starts at the current value

From the first solve on, the cut at the current point heads the lists that the solver
may work on: collecting puts it first, aggregation puts it first again, and everything
else adds cuts behind it or takes it alone. No cut starts above the current value: a cut
at a sampled point is shifted down to it at least, and a mixture of such cuts stays
below. So after every solve the model starts at the current value, and after a success
the solver's step promises a decrease in proportion to its squared length.
-/

namespace NonsmoothDescent

section Heads

variable {α : Type} [Scalar α]

/-- The list begins with the cut at the current point. -/
def Cut.Headed {α : Type} (w : Workspace α) (cuts : List (Cut α)) : Prop :=
  ∃ (p : Plane α) (rest : List (Cut α)), w.CurrentPlane p ∧ cuts = p.toCut :: rest

omit [Scalar α] in
/-- The first cut stays the one at the current point as the workspace grows. -/
theorem Cut.Headed.grows {w w' : Workspace α} {cuts : List (Cut α)} (h : Cut.Headed w cuts)
    (hg : w.Grows w') (hc : w.current < w.samples.size) : Cut.Headed w' cuts := by
  obtain ⟨p, rest, hcurrent, rfl⟩ := h
  exact ⟨p, rest, hcurrent.grows hg hc, rfl⟩

omit [Scalar α] in
/-- More cuts behind the first leave it the first. -/
theorem Cut.Headed.append {w : Workspace α} {cuts : List (Cut α)} (h : Cut.Headed w cuts)
    (more : List (Cut α)) : Cut.Headed w (cuts ++ more) := by
  obtain ⟨p, rest, hcurrent, rfl⟩ := h
  exact ⟨p, rest ++ more, hcurrent, rfl⟩

/-- The cut at the current point heads the full and the aggregated cuts. -/
structure Moment.Headed (m : Moment α) : Prop where
  full : Cut.Headed m.workspace m.engine.fullCuts
  aggregated : Cut.Headed m.workspace m.engine.aggregatedCuts

/-- Both lists keep their first cut while they stay and the workspace grows. -/
theorem Moment.Headed.grows {m m' : Moment α} (h : m.Headed)
    (hc : m.workspace.current < m.workspace.samples.size)
    (hg : m.workspace.Grows m'.workspace) (hfull : m'.engine.fullCuts = m.engine.fullCuts)
    (haggregated : m'.engine.aggregatedCuts = m.engine.aggregatedCuts) : m'.Headed where
  full := by
    rw [hfull]
    exact h.full.grows hg hc
  aggregated := by
    rw [haggregated]
    exact h.aggregated.grows hg hc

/-- Both lists keep their first cut while they are kept. -/
theorem Moment.Headed.keeps {o : Oracle α} {m m' : Moment α} (h : m.Headed) (hs : m.Sound o)
    (hk : Moment.Keeps o m m') : m'.Headed :=
  h.grows hs.wellFormed.current_lt hk.grows hk.fullCuts_eq hk.aggregatedCuts_eq

/-- Which lists the cut at the current point heads at each stage. The gradient step and
a fallback work on it alone. -/
def Stage.Heads : Stage α → Moment α → Prop
  | .ready, _ | .gradientTested _, _ | .opened, _ | .ended _, _ => True
  | .solved .gradient, m => Cut.Headed m.workspace m.engine.activeCuts
  | .solved .full, m => Cut.Headed m.workspace m.engine.fullCuts
  | .solved (.fallback plane _), m => m.workspace.CurrentPlane plane
  | _, m => m.Headed

variable {setting : Setting α} {a b : Stage α} {s s' start : SearchState α}

/-- Each step keeps the first cuts. -/
theorem Stage.Heads.step (h : a.Heads s.toMoment) (hinv : Inv setting a s.toMoment)
    (hstep : Step setting a s b s') : b.Heads s'.toMoment := by
  have hs := hinv.base.toSound
  have hlt := hs.wellFormed.current_lt
  have hkeeps := hstep.keeps hinv
  have hgrows := (hstep.advances hinv).grows
  cases hstep with
  | @solveGradient _ plane hon hcurrent =>
    exact ⟨plane, [], hcurrent.grows hgrows hlt, rfl⟩
  | @solveFull _ s₁ s₂ cuts planes hcollect hnote hplanes =>
    obtain ⟨_, _, plane, hcurrent, found, rfl, _⟩ :=
      (Search.collectCuts_leads hs).of_run hcollect
    exact ⟨plane, found, hcurrent.grows hgrows hlt, rfl⟩
  | enterLoop => exact ⟨h, h⟩
  | markSwitch => exact h.grows hlt hgrows rfl rfl
  | nextRound hkind => cases hkind <;> exact h
  | @fallBack _ s₁ kind plane first hkind _ _ hnote hcurrent =>
    have hlt₁ := (hs.keeps (keeps_of_note setting.oracle hnote)).wellFormed.current_lt
    exact hcurrent.grows
      (Moment.grows_solved setting false (s₁.loaded [plane] (.own [plane.toCut]))) hlt₁
  | @restart _ s₁ plane first hnote =>
    have hcurrent := h.grows (keeps_of_note setting.oracle hnote).grows hlt
    exact ⟨⟨plane, [], hcurrent, rfl⟩, ⟨plane, [], hcurrent, rfl⟩⟩
  | aggregate hon hr =>
    obtain ⟨current, s₁, hcurrent, hlogs, _, rfl⟩ := (hinv.aggregate_leads hon).of_run hr
    have hk := (hlogs.quiet setting.oracle).toKeeps
    exact ⟨(h.keeps hs hk).full, ⟨current, _, hcurrent.grows hk.grows hlt, rfl⟩⟩
  | @augment _ _ aggregating added hr =>
    have hk := (((Search.reportRound_leads setting _).of_run hr).quiet setting.oracle).toKeeps
    have hfull : Cut.Headed s.workspace (s.engine.augmented aggregating added).fullCuts :=
      h.full.append added
    have haggregated :
        Cut.Headed s.workspace (s.engine.augmented aggregating added).aggregatedCuts := by
      cases aggregating
      · exact h.aggregated
      · exact h.aggregated.append added
    have haugmented : (s.withEngine (·.augmented aggregating added)).Headed := ⟨hfull, haggregated⟩
    exact haugmented.grows hlt hgrows hk.fullCuts_eq hk.aggregatedCuts_eq
  | solveAggregated | solveWarm => exact h.grows hlt hgrows rfl rfl
  | solveSwitching _ _ hnote =>
    have hk := keeps_of_note setting.oracle hnote
    exact h.grows hlt hgrows hk.fullCuts_eq hk.aggregatedCuts_eq
  | testGradient | acceptGradient | rejectGradient | omitGradient | failSolver | failTrial
  | acceptFull | reachLimit | runOut | acceptShort => trivial
  | _ => exact h.keeps hs (hkeeps trivial)

/-- The cut at the current point heads the lists throughout a search. -/
theorem Reached.heads (hinv : Inv setting .ready start.toMoment)
    (h : Reached setting start b s) : b.Heads s.toMoment := by
  induction h with
  | start => trivial
  | step hreached hstep ih => exact ih.step (hreached.inv hinv) hstep

/-- After every solve the first active cut is the one at the current point. -/
theorem Stage.Heads.activeCuts {kind : SolveKind α} {m : Moment α}
    (h : (Stage.solved kind).Heads m) (hfits : kind.Fits setting.options m.engine) :
    Cut.Headed m.workspace m.engine.activeCuts := by
  unfold Engine.activeCuts
  cases kind with
  | gradient => exact h
  | full =>
    rw [show m.engine.active = .full from hfits]
    exact h
  | switching =>
    rw [show m.engine.active = .full from hfits]
    exact h.full
  | aggregated =>
    rw [hfits.1]
    exact h.aggregated
  | switched | warm =>
    rw [hfits.1]
    exact h.full
  | fallback plane first =>
    rw [show m.engine.active = .own [plane.toCut] from hfits]
    exact ⟨plane, [], h, rfl⟩

end Heads

variable {K : Type} [Field K] [LinearOrder K] [FloorRing K] [IsStrictOrderedRing K]

/-- Biases below the current value are a law of planes: sampled planes are shifted down
to it, and a weighted mean of such biases stays below. -/
theorem heightLaw {setting : Setting K} (ho : setting.options.Accepted) (radius : K) :
    PlaneLaw setting radius fun w p =>
      ∃ value, w.currentSample.objective.value? = some value ∧ p.bias ≤ value where
  grows hw hg hp := by
    obtain ⟨value, hvalue, hle⟩ := hp
    exact ⟨value, (hg.currentSample hw.current_lt).objective_value? hvalue, hle⟩
  current _ hp := ⟨_, hp.objective_eq, le_rfl⟩
  sampled {w id p} _ _ hp _ := by
    obtain ⟨slope, value, currentValue, _, _, hcurrent, rfl⟩ := Sample.plane?_eq_some_iff.mp hp
    refine ⟨currentValue, hcurrent, ?_⟩
    have hdownshift : 0 ≤ setting.options.downshift := ho.nonneg .downshift
    rw [Cut.shiftedBias, Scalar.lesser_eq_min]
    exact (min_le_right _ _).trans
      (sub_le_self _ (mul_nonneg hdownshift (Vec.normSq_nonneg _)))
  mixed {w planes weights} _ _ hplanes hweights := by
    cases planes with
    | nil =>
      have hsum := hweights.sum_eq_one
      rw [List.length_eq_zero_iff.mp hweights.length_eq, Vec.sum_nil] at hsum
      exact absurd hsum zero_ne_one
    | cons plane planes =>
      obtain ⟨value, hvalue, _⟩ := hplanes plane List.mem_cons_self
      refine ⟨value, hvalue, hweights.dot_le (List.length_map ..) ?_⟩
      intro bias hbias
      obtain ⟨q, hq, rfl⟩ := List.mem_map.mp hbias
      obtain ⟨value', hvalue', hle⟩ := hplanes q hq
      rwa [Option.some.inj (hvalue'.symm.trans hvalue)] at hle

/-- The active cuts at a moment, and the model that they make, start at a plane: the one
with value and gradient of the objective at a point. -/
structure Moment.AnchoredAt (o : Oracle K) (x : List K) (p : Plane K) (m : Moment K) :
    Prop where
  objective_eq : (o.evaluateObjective x).1 = some p.bias
  gradient_eq : (o.evaluateGradient x).1 = some p.slope
  denote : Cut.DenoteAll m.workspace m.engine.activeCuts m.solver.subproblem.planes
  first_eq : m.engine.activeCuts.head? = some p.toCut
  bias_le : ∀ cut ∈ m.engine.activeCuts, cut.bias ≤ p.bias
  model_zeros : m.solver.subproblem.model (Vec.zeros o.dimension) = p.bias

omit [IsStrictOrderedRing K] in
/-- No bias is above that of the cut at the current point. -/
theorem Moment.AnchoredAt.plane_bias_le {o : Oracle K} {x : List K} {p q : Plane K}
    {m : Moment K} (h : m.AnchoredAt o x p) (hq : q ∈ m.solver.subproblem.planes) :
    q.bias ≤ p.bias := by
  have hbias : q.bias ∈ m.engine.activeCuts.map Cut.bias := by
    rw [h.denote.map_bias]
    exact List.mem_map_of_mem hq
  obtain ⟨cut, hcut, heq⟩ := List.mem_map.mp hbias
  rw [← heq]
  exact h.bias_le cut hcut

variable {setting : Setting K} {entry start s : SearchState K}

/-- No plane of the solver starts above the current value. -/
theorem Opens.plane_bias_le (hopens : Opens setting entry start) (ho : setting.options.Accepted)
    {b : Stage K} (h : Reached setting start b s) (haligned : s.Aligned) {value : K}
    (hvalue : s.workspace.currentSample.objective.value? = some value) :
    ∀ q ∈ s.solver.subproblem.planes, q.bias ≤ value := by
  intro q hq
  have hempty : start.engine.activeCuts = [] := by rw [Engine.activeCuts, hopens.active_eq]
  have hobeys := ((heightLaw ho _).obeys hopens.inv ho
    ⟨hopens.fullCuts_eq, hopens.aggregatedCuts_eq, hempty⟩ h).activeCuts
  obtain ⟨value', hvalue', hle⟩ := haligned.denote.obey hobeys q hq
  rwa [Option.some.inj (hvalue'.symm.trans hvalue)] at hle

/-- After every solve the model is anchored at the current point of the entry. -/
theorem Opens.anchored (hopens : Opens setting entry start)
    (hw : entry.workspace.WellFormed setting.oracle) (ho : setting.options.Accepted)
    {kind : SolveKind K} (h : Reached setting start (.solved kind) s) :
    ∃ p, s.AnchoredAt setting.oracle entry.workspace.currentSample.position p := by
  obtain ⟨hsolves, hfits⟩ := (h.inv hopens.inv).holds
  have hlt := hsolves.wellFormed.current_lt
  obtain ⟨p, rest, hcurrent, hcuts⟩ := (h.heads hopens.inv).activeCuts hfits
  have hplanes := hopens.plane_bias_le ho h hsolves.toAligned hcurrent.objective_eq
  have hmem : p ∈ s.solver.subproblem.planes := by
    have hfirst : p.toCut ∈ s.engine.activeCuts := by simp [hcuts]
    obtain ⟨q, hq, hdenotes⟩ := hsolves.denote.exists_mem hfirst
    rwa [(hcurrent.denotes hsolves.wellFormed).unique hdenotes]
  have hposition : s.workspace.currentSample.position = entry.workspace.currentSample.position :=
    ((hopens.grows.trans (h.grows hopens.inv)).currentSample hw.current_lt).position_eq
  have hfaithful := hsolves.wellFormed.faithful _ hlt
  refine ⟨p, ?_, ?_, hsolves.denote, by rw [hcuts, List.head?_cons], fun cut hcut => ?_,
    Subproblem.model_zeros hmem hplanes _⟩
  · rw [← hposition]
    exact hfaithful.objective_eq hcurrent.objective_eq
  · rw [← hposition]
    exact hfaithful.gradient_eq hcurrent.gradient_eq
  · obtain ⟨q, hq, hdenotes⟩ := hsolves.denote.exists_mem hcut
    exact hdenotes.bias_eq.trans_le (hplanes q hq)

/-- After every solve of a call the model starts at the value at the current point, with
the gradient there as first slope. After a success the dual value stays below that value
by half the squared step, and the model at the step by the squared step, up to the
optimality error. -/
theorem model_anchored_at_current
    (hw : entry.workspace.WellFormed setting.oracle) (ho : setting.options.Accepted) :
    ∀ m, Event.solved m ∈
        (finalState (Search.computeDirection setting entry)).journal.toList →
      ∃ p, m.AnchoredAt setting.oracle entry.workspace.currentSample.position p ∧
        (m.solver.status = .success →
          m.solver.subproblem.dual m.solver.weights ≤
              p.bias - 1 / 2 * Vec.normSq m.solver.step ∧
            m.solver.subproblem.model m.solver.step ≤
              p.bias - Vec.normSq m.solver.step + m.solver.optimalityError) := by
  intro m hm
  obtain ⟨start, hopens, kind, journal, hreached⟩ :=
    (Search.computeDirection_cases hw).cases_of_event hm
  obtain ⟨p, hanchored⟩ := hopens.anchored hw ho hreached
  refine ⟨p, hanchored, fun hsuccess => ?_⟩
  have hweighted : m.solver.Weighted := hreached.weighs hopens.inv (.inl hsuccess)
  have hpositive : m.solver.subproblem.bound.Positive := by
    rw [(hreached.alike hopens.inv).bound_eq, hopens.bound_eq]
    exact StepBound.positive_ofRadius _
  have hplanes : ∀ q ∈ m.solver.subproblem.planes, q.bias ≤ p.bias :=
    fun q hq => hanchored.plane_bias_le hq
  rw [hweighted.step_eq, hweighted.optimalityError_eq]
  exact ⟨Subproblem.dual_le_sub_normSq hpositive hweighted.isWeighting hplanes,
    Subproblem.model_stepAt_le (Moment.wellFormed_subproblem hanchored.denote) hpositive
      hweighted.isWeighting hplanes⟩

/-- The options of the condensing search are accepted. -/
theorem accepted_condensing : condensing.options.Accepted := by
  intro a
  cases a <;>
    simp only [condensing, Options.inRange, Options.get, Amount.upperBound?,
      Bool.and_eq_true] <;> norm_num

/-- On aggregated cuts, the last of which was sampled on the other side, the model starts
at the current value and promises a decrease. -/
theorem model_anchored_across_valley :
    ∃ m p, Event.solved m ∈
        (finalState (Search.computeDirection condensing acrossValley)).journal.toList ∧
      m.solver.cuts = 3 ∧ m.AnchoredAt valley [1 / 100] p ∧
      m.solver.subproblem.dual m.solver.weights ≤
        p.bias - 1 / 2 * Vec.normSq m.solver.step ∧
      m.solver.subproblem.model m.solver.step ≤
        p.bias - Vec.normSq m.solver.step + m.solver.optimalityError := by
  have hfound :
      ((solvesOf (finalState (Search.computeDirection condensing acrossValley)).journal.toList).any
        fun m => decide (m.solver.cuts = 3 ∧ m.solver.status = .success)) = true := by
    decide +kernel
  have hw : acrossValley.workspace.WellFormed condensing.oracle := wellFormed_acrossValley
  obtain ⟨m, hevent, hsolved⟩ := exists_solved_of_any hfound
  obtain ⟨hcuts, hsuccess⟩ := of_decide_eq_true hsolved
  obtain ⟨p, hanchored, hdecrease⟩ := model_anchored_at_current hw accepted_condensing m hevent
  exact ⟨m, p, hevent, hcuts, hanchored, hdecrease hsuccess⟩

end NonsmoothDescent
