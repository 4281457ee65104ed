import NonsmoothDescent.Proofs.Search.Transition

/-!
# What holds throughout a search

At every stage the workspace is well formed and all cuts in the lists denote planes. From
the first solve on, the planes of the solver are those of the active cuts, with one
weight for each, and when a round begins the active cuts are those that the round works
with. Only when cuts have been added to the lists, and until they reach the solver, may
the active cuts be more than the planes. The number of inner iterations is bounded at
each stage. Every step keeps all this, whatever the minimizer answers.
-/

namespace NonsmoothDescent

variable {α : Type} [Scalar α]

namespace Moment

/-- The direction is the solver's step. -/
structure Stepped (m : Moment α) : Prop where
  direction_eq : m.workspace.direction = m.solver.step
  length_step : m.solver.step.length = m.workspace.dimension

/-- The solver's planes are the active cuts, in order, and there is one weight for each. -/
structure Aligned (m : Moment α) : Prop where
  denote : Cut.DenoteAll m.workspace m.engine.activeCuts m.solver.subproblem.planes
  length_weights : m.solver.weights.length = m.engine.activeCuts.length

/-- A sound moment with a solver that fits, and cuts that denote planes. -/
structure Base (o : Oracle α) (m : Moment α) : Prop extends Sound o m where
  fits : m.engine.solver = some m.solver
  fullCuts : ∀ cut ∈ m.engine.fullCuts, cut.Valid m.workspace
  aggregatedCuts : ∀ cut ∈ m.engine.aggregatedCuts, cut.Valid m.workspace

variable {o : Oracle α} {m m' : Moment α}

/-- A taken step stays so while the solver is kept. -/
theorem Stepped.keeps (h : Stepped m) (hk : Keeps o m m') : Stepped m' where
  direction_eq := by rw [hk.direction_eq, h.direction_eq, hk.solver_eq']
  length_step := by rw [hk.solver_eq', h.length_step, hk.grows.dimension_eq]

/-- The step of a solver has one entry per variable. -/
theorem Stepped.length_direction (h : Stepped m) :
    m.workspace.direction.length = m.workspace.dimension := by
  rw [h.direction_eq, h.length_step]

/-- Active cuts and planes stay aligned while both are kept. -/
theorem Aligned.keeps (h : Aligned m) (hs : Sound o m) (hk : Keeps o m m') : Aligned m' where
  denote := by
    rw [hk.activeCuts_eq, hk.solver_eq']
    exact h.denote.grows hk.grows hs.wellFormed.bundle_lt
  length_weights := by rw [hk.solver_eq', hk.activeCuts_eq, h.length_weights]

/-- What holds of every moment holds of one that keeps it. -/
theorem Base.keeps (h : Base o m) (hk : Keeps o m m') : Base o m' where
  toSound := h.toSound.keeps hk
  fits := by rw [hk.solver_eq, h.fits, hk.solver_eq']
  fullCuts := by
    rw [hk.fullCuts_eq]
    exact fun cut hcut => (h.fullCuts cut hcut).grows hk.grows h.wellFormed.bundle_lt
  aggregatedCuts := by
    rw [hk.aggregatedCuts_eq]
    exact fun cut hcut => (h.aggregatedCuts cut hcut).grows hk.grows h.wellFormed.bundle_lt

section Solve

variable (setting : Setting α) (warm : Bool)

/-- A solve lets the workspace grow. -/
theorem grows_solved (m : Moment α) : m.workspace.Grows (m.solved setting warm).workspace := by
  let w : Workspace α :=
    { m.workspace with notices := m.workspace.notices ++ (m.answer setting warm).notices }
  have hdirected : m.workspace.Grows (directed w (m.answer setting warm).solver) :=
    .of_eq rfl rfl rfl rfl
  exact hdirected.trans (Workspace.withTrial_grows _ 1)

/-- Planes that are denoted by cuts have slopes of the right length. -/
theorem wellFormed_subproblem
    (h : Cut.DenoteAll m.workspace m.engine.activeCuts m.solver.subproblem.planes) :
    m.solver.subproblem.WellFormed :=
  fun p hp => (h.length_slope p hp).trans m.dimension_solver.symm

variable {setting warm}
variable (h : Cut.DenoteAll m.workspace m.engine.activeCuts m.solver.subproblem.planes)
include h

/-- The step of the next solve has one entry per variable. -/
theorem length_step_answer :
    (m.answer setting warm).solver.step.length = m.workspace.dimension :=
  (Solver.length_solveBy_step _ warm _ (wellFormed_subproblem h)).trans m.dimension_solver

/-- After a solve its step was taken. -/
theorem stepped_solved : Stepped (m.solved setting warm) where
  direction_eq := by
    rw [solver_solved]
    rfl
  length_step := by
    rw [solver_solved, length_step_answer h]
    rfl

/-- After a solve the planes are still those of the active cuts, with a weight for each. -/
theorem aligned_solved (hs : Sound o m) : Aligned (m.solved setting warm) where
  denote := by
    rw [solver_solved, answer, Solver.solveBy_subproblem]
    exact h.grows (m.grows_solved setting warm) hs.wellFormed.bundle_lt
  length_weights := by
    rw [solver_solved, answer, Solver.length_solveBy_weights]
    exact h.length_eq.symm

/-- A solve keeps a moment sound. -/
theorem sound_solved (hs : Sound o m) : Sound o (m.solved setting warm) where
  wellFormed := by
    let w : Workspace α :=
      { m.workspace with notices := m.workspace.notices ++ (m.answer setting warm).notices }
    have hdirected : (directed w (m.answer setting warm).solver).WellFormed o :=
      ⟨hs.wellFormed.dimension_eq, hs.wellFormed.length_position, hs.wellFormed.faithful,
        hs.wellFormed.current_lt, hs.wellFormed.bundle_lt⟩
    exact Workspace.withTrial_wellFormed hdirected 1 (length_step_answer h)
  objective := by
    obtain ⟨value, hv⟩ := hs.objective
    exact ⟨value, ((m.grows_solved setting warm).currentSample
      hs.wellFormed.current_lt).objective_value? hv⟩
  gradient := by
    obtain ⟨slope, hg⟩ := hs.gradient
    exact ⟨slope, ((m.grows_solved setting warm).currentSample
      hs.wellFormed.current_lt).gradient_value? hg⟩
  trial_lt := Workspace.withTrial_trial_lt _ 1

/-- A solve keeps what holds of every moment. -/
theorem base_solved (hb : Base o m) : Base o (m.solved setting warm) where
  toSound := sound_solved h hb.toSound
  fits := by
    rw [solver_solved]
    rfl
  fullCuts cut hcut := (hb.fullCuts cut hcut).grows (m.grows_solved setting warm)
    hb.wellFormed.bundle_lt
  aggregatedCuts cut hcut := (hb.aggregatedCuts cut hcut).grows (m.grows_solved setting warm)
    hb.wellFormed.bundle_lt

end Solve

/-- What a solve establishes. -/
structure Solves (o : Oracle α) (m : Moment α) : Prop extends Base o m, Aligned m, Stepped m

/-- After a solve on the planes of the active cuts the moment is that of a solve. -/
theorem solves_solved {setting : Setting α} {warm : Bool} (hb : Base o m)
    (h : Cut.DenoteAll m.workspace m.engine.activeCuts m.solver.subproblem.planes) :
    Solves o (m.solved setting warm) where
  toBase := base_solved h hb
  toAligned := aligned_solved h hb.toSound
  toStepped := stepped_solved h

/-- The moment of a solve stays so while solver and cuts are kept. -/
theorem Solves.keeps (h : Solves o m) (hk : Keeps o m m') : Solves o m' where
  toBase := h.toBase.keeps hk
  toAligned := h.toAligned.keeps h.toSound hk
  toStepped := h.toStepped.keeps hk

end Moment

namespace SearchState

variable {setting : Setting α} {s : SearchState α} {planes : List (Plane α)}

/-- A cold solve on planes that the cuts to be active denote. -/
theorem solves_resolved (active : ActiveCuts α) (hb : s.Base setting.oracle)
    (h : Cut.DenoteAll s.workspace (s.loaded planes active).engine.activeCuts planes) :
    (s.resolved setting planes active).Solves setting.oracle := by
  refine Moment.solves_solved ⟨⟨hb.wellFormed, hb.objective, hb.gradient, hb.trial_lt⟩, ?_,
    hb.fullCuts, hb.aggregatedCuts⟩ ?_
  · exact congrArg some (s.solver_loaded planes active).symm
  · change Cut.DenoteAll _ _ (s.loaded planes active).solver.subproblem.planes
    rw [Moment.solver_loaded]
    exact h

/-- A warm solve on planes that, behind the old ones, are those of the full cuts. -/
theorem solves_continued (hb : s.Base setting.oracle)
    (h : Cut.DenoteAll s.workspace s.engine.fullCuts (s.solver.subproblem.planes ++ planes)) :
    (s.continued setting planes).Solves setting.oracle := by
  refine Moment.solves_solved ⟨⟨hb.wellFormed, hb.objective, hb.gradient, hb.trial_lt⟩, ?_,
    hb.fullCuts, hb.aggregatedCuts⟩ ?_
  · exact congrArg some (s.solver_extended planes).symm
  · change Cut.DenoteAll _ _ (s.extended planes).solver.subproblem.planes
    rw [Moment.solver_extended]
    exact h

end SearchState

namespace Engine

/-- When a round begins, its cuts are the active ones. -/
def RoundActive (e : Engine α) (options : Options α) : Prop :=
  e.active = .full ∧ (e.aggregating options = true → e.aggregatedCuts = e.fullCuts) ∨
    e.active = .aggregated ∧ e.aggregating options = true

/-- Between aggregation and the next solve, the active cuts are the full ones, or the
old aggregated ones on their own. -/
def Detached (e : Engine α) (options : Options α) (aggregating : Bool) : Prop :=
  e.aggregating options = aggregating ∧
    (e.active = .full ∨ aggregating = true ∧ ∃ old, e.active = .own old)

end Engine

/-- Which cuts are active after a solve of each kind. -/
def SolveKind.Fits (options : Options α) (e : Engine α) : SolveKind α → Prop
  | .gradient => ∃ plane : Plane α, e.active = .own [plane.toCut]
  | .full | .switching => e.active = .full
  | .aggregated => e.active = .aggregated ∧ e.aggregating options = true
  | .switched | .warm => e.active = .full ∧ e.aggregating options = false
  | .fallback plane _ => e.active = .own [plane.toCut]

namespace Moment

/-- A trial point that counts as evaluated has a known value. -/
def TrialKnown (evaluated : Bool) (m : Moment α) : Prop :=
  evaluated = true → m.workspace.trialSample.objective.isKnown = true

/-- Cuts were added to the lists but not to the solver: its planes are those of the full
cuts without the added ones, or of old aggregated cuts. -/
structure Augmented (options : Options α) (aggregating : Bool) (added : List (Cut α))
    (m : Moment α) : Prop extends Stepped m where
  aggregating_eq : m.engine.aggregating options = aggregating
  valid : ∀ cut ∈ added, cut.Valid m.workspace
  behind : ∃ base, Cut.DenoteAll m.workspace base m.solver.subproblem.planes ∧
    m.solver.weights.length = base.length ∧
    (m.engine.active = .full ∧ m.engine.fullCuts = base ++ added ∨
      aggregating = true ∧ m.engine.active = .own base)

/-- Without aggregation, the planes of the added cuts are all that the solver lacks. -/
theorem Augmented.denote_append {options : Options α} {added : List (Cut α)}
    {planes : List (Plane α)} {m : Moment α} (h : m.Augmented options false added)
    (hplanes : Cut.DenoteAll m.workspace added planes) :
    Cut.DenoteAll m.workspace m.engine.fullCuts (m.solver.subproblem.planes ++ planes) := by
  obtain ⟨base, hbehind, _, ⟨_, hfull⟩ | ⟨hfalse, _⟩⟩ := h.behind
  · rw [hfull]
    exact hbehind.append hplanes
  · cases hfalse

end Moment

namespace Stage

/-- What holds at each stage beyond what holds at all. -/
def Holds (setting : Setting α) : Stage α → Moment α → Prop
  | .ready, _ | .opened, _ => True
  | .solved kind, m => m.Solves setting.oracle ∧ kind.Fits setting.options m.engine
  | .gradientTested _, m => m.Solves setting.oracle
  | .round _, m => m.Solves setting.oracle ∧ m.engine.RoundActive setting.options
  | .begun _ evaluated, m | .tested evaluated _, m | .rejected evaluated, m =>
    m.Solves setting.oracle ∧ m.engine.RoundActive setting.options ∧ m.TrialKnown evaluated
  | .sampling aggregating evaluated, m =>
    m.Solves setting.oracle ∧ m.engine.Detached setting.options aggregating ∧
      m.TrialKnown evaluated
  | .sampled aggregating cuts, m | .chosen aggregating cuts, m =>
    m.Solves setting.oracle ∧ m.engine.Detached setting.options aggregating ∧
      ∀ cut ∈ cuts, cut.Valid m.workspace
  | .shortTested aggregating cuts evaluated _, m =>
    m.Solves setting.oracle ∧ m.engine.Detached setting.options aggregating ∧
      (∀ cut ∈ cuts, cut.Valid m.workspace) ∧ m.TrialKnown evaluated
  | .augmented aggregating added, m => m.Augmented setting.options aggregating added
  | .ended _, m => m.Aligned

/-- How many inner iterations there may have been at each stage. -/
def Counts (limit : Nat) : Stage α → Int → Prop
  | .ready, k => k = 0
  | .solved .gradient, k | .gradientTested _, k => k = 1
  | .opened, k => 0 ≤ k ∧ k ≤ 1
  | .solved .full, k => 1 ≤ k ∧ k ≤ 2
  | .solved (.fallback _ true), k | .round true, k => 1 ≤ k ∧ k ≤ 3
  | .solved (.fallback _ false), k | .round false, k => k ≤ limit + 2
  | .solved _, k => k ≤ limit + 1
  | .rejected _, k | .sampling _ _, k | .sampled _ _, k | .chosen _ _, k
  | .shortTested _ _ _ _, k | .augmented _ _, k => k ≤ limit
  | _, _ => True

end Stage

/-- What holds at a stage. -/
structure Inv (setting : Setting α) (stage : Stage α) (m : Moment α) : Prop where
  base : m.Base setting.oracle
  holds : stage.Holds setting m
  counts : stage.Counts setting.options.iterationLimit m.workspace.innerIterations

section Preservation

variable {setting : Setting α} {s s' : SearchState α}

/-- The active cuts stay those of the round while cuts and mark are kept. -/
theorem Moment.Keeps.roundActive {o : Oracle α} {m m' : Moment α} {options : Options α}
    (hk : Moment.Keeps o m m') (h : m.engine.RoundActive options) :
    m'.engine.RoundActive options := by
  unfold Engine.RoundActive Engine.aggregating at *
  rwa [hk.active_eq, hk.switched_eq, hk.aggregatedCuts_eq, hk.fullCuts_eq]

/-- The active cuts stay as aggregation has left them while cuts and mark are kept. -/
theorem Moment.Keeps.detached {o : Oracle α} {m m' : Moment α} {options : Options α}
    {aggregating : Bool} (hk : Moment.Keeps o m m') (h : m.engine.Detached options aggregating) :
    m'.engine.Detached options aggregating := by
  unfold Engine.Detached Engine.aggregating at *
  rwa [hk.active_eq, hk.switched_eq]

/-- Cuts that are valid stay so. -/
theorem Moment.Keeps.valid {o : Oracle α} {m m' : Moment α} (hk : Moment.Keeps o m m')
    (hs : m.Sound o) {cuts : List (Cut α)} (h : ∀ cut ∈ cuts, cut.Valid m.workspace) :
    ∀ cut ∈ cuts, cut.Valid m'.workspace :=
  fun cut hcut => (h cut hcut).grows hk.grows hs.wellFormed.bundle_lt

/-- A test leaves what is known of the trial point. -/
theorem trialKnown_tested {evaluated known : Bool} (h : s.TrialKnown evaluated) :
    (s.tested setting known).TrialKnown evaluated := by
  intro he
  have ht : (s.asked setting).workspace.trialSample = s.workspace.trialSample := by
    unfold Moment.asked
    dsimp only
    split <;> rfl
  change (s.asked setting).workspace.trialSample.objective.isKnown = true
  rw [ht]
  exact h he

/-- Cuts that a trial point gives denote planes. -/
theorem valid_trialCut {evaluated : Bool} {cuts : List (Cut α)} (hs : s.Sound setting.oracle)
    (he : s.TrialKnown evaluated) (hr : Search.trialCut setting evaluated s = .ok cuts s') :
    Quiet setting.oracle s s' ∧ ∀ cut ∈ cuts, cut.Valid s'.workspace := by
  obtain ⟨hq, _, hcuts⟩ := (Search.trialCut_leads hs he).of_run hr
  refine ⟨hq, fun cut hcut => ?_⟩
  rcases hcuts with rfl | ⟨cut', plane, rfl, hsamples⟩
  · simp at hcut
  · rw [List.mem_singleton.mp hcut]
    exact ⟨plane, hsamples.denotes (hs.keeps hq.toKeeps).wellFormed⟩

/-- All cuts that are collected denote planes. -/
theorem valid_collectCuts {cuts : List (Cut α)} (hs : s.Sound setting.oracle)
    (hr : Search.collectCuts setting s = .ok cuts s') :
    Quiet setting.oracle s s' ∧ ∀ cut ∈ cuts, cut.Valid s'.workspace := by
  obtain ⟨hq, _, plane, hcurrent, found, rfl, hfound⟩ :=
    (Search.collectCuts_leads hs).of_run hr
  refine ⟨hq, List.forall_mem_cons.mpr ⟨?_, fun cut hcut => ?_⟩⟩
  · exact ⟨plane, (hcurrent.denotes hs.wellFormed).grows hq.grows hs.wellFormed.bundle_lt⟩
  · obtain ⟨place, id, plane', hsamples, _⟩ := hfound cut hcut
    exact ⟨plane', hsamples.denotes (hs.keeps hq.toKeeps).wellFormed⟩

/-- A change of the engine outside its solver. -/
theorem solver_withEngine (f : Engine α → Engine α)
    (hf : (f s.engine).solver = s.engine.solver) : (s.withEngine f).solver = s.solver := by
  change (f s.engine).solverFor s.workspace.dimension = _
  unfold Engine.solverFor
  rw [hf]
  rfl

/-- A change of the engine that leaves the solver, with valid cuts, keeps what holds of every
moment. -/
theorem base_withEngine {o : Oracle α} (f : Engine α → Engine α) (hb : s.Base o)
    (hf : (f s.engine).solver = s.engine.solver)
    (hfull : ∀ cut ∈ (f s.engine).fullCuts, cut.Valid s.workspace)
    (haggregated : ∀ cut ∈ (f s.engine).aggregatedCuts, cut.Valid s.workspace) :
    (s.withEngine f).Base o where
  wellFormed := hb.wellFormed
  objective := hb.objective
  gradient := hb.gradient
  trial_lt := hb.trial_lt
  fits := by
    rw [solver_withEngine f hf]
    exact hf.trans hb.fits
  fullCuts := hfull
  aggregatedCuts := haggregated

/-- A change of the engine that leaves the solver leaves the taken step. -/
theorem stepped_withEngine (f : Engine α → Engine α) (h : s.Stepped)
    (hf : (f s.engine).solver = s.engine.solver) : (s.withEngine f).Stepped where
  direction_eq := by
    rw [solver_withEngine f hf]
    exact h.direction_eq
  length_step := by
    rw [solver_withEngine f hf]
    exact h.length_step

/-- A change of the engine that leaves solver and active cuts leaves them aligned. -/
theorem aligned_withEngine (f : Engine α → Engine α) (h : s.Aligned)
    (hf : (f s.engine).solver = s.engine.solver)
    (ha : (f s.engine).activeCuts = s.engine.activeCuts) : (s.withEngine f).Aligned where
  denote := by
    rw [solver_withEngine f hf]
    change Cut.DenoteAll s.workspace (f s.engine).activeCuts _
    rw [ha]
    exact h.denote
  length_weights := by
    rw [solver_withEngine f hf]
    change _ = (f s.engine).activeCuts.length
    rw [ha, h.length_weights]

/-- When the aggregated cuts are replaced the active ones stay. -/
theorem Engine.activeCuts_replaceAggregated (e : Engine α) (cuts : List (Cut α)) :
    (e.replaceAggregated cuts).activeCuts = e.activeCuts := by
  unfold Engine.replaceAggregated Engine.activeCuts
  cases e.active <;> rfl

/-- Aggregated cuts that are active stay so on their own when they are replaced. -/
theorem Engine.active_replaceAggregated {e : Engine α} (h : e.active = .aggregated)
    (cuts : List (Cut α)) : (e.replaceAggregated cuts).active = .own e.aggregatedCuts := by
  unfold Engine.replaceAggregated
  rw [h]

/-- Full cuts that are active stay so when the aggregated ones are replaced. -/
theorem Engine.active_replaceAggregated_of_full {e : Engine α} (h : e.active = .full)
    (cuts : List (Cut α)) : (e.replaceAggregated cuts).active = .full := by
  unfold Engine.replaceAggregated
  rw [h]

/-- The aggregated cuts of a round that aggregates are the active ones. -/
theorem Engine.RoundActive.activeCuts_eq {e : Engine α} {options : Options α}
    (h : e.RoundActive options) (hon : e.aggregating options = true) :
    e.activeCuts = e.aggregatedCuts := by
  unfold Engine.activeCuts
  rcases h with ⟨ha, hsame⟩ | ⟨ha, _⟩ <;> rw [ha]
  exact (hsame hon).symm

/-- Without aggregation a round works on the full cuts. -/
theorem Engine.RoundActive.active_eq {e : Engine α} {options : Options α}
    (h : e.RoundActive options) (hoff : e.aggregating options = false) : e.active = .full := by
  rcases h with ⟨ha, _⟩ | ⟨_, hon⟩
  · exact ha
  · rw [hoff] at hon
    cases hon

/-- The invariant at the stage after a step that keeps solver and cuts. -/
theorem Inv.quiet {a b : Stage α} (h : Inv setting a s.toMoment)
    (hk : Moment.Keeps setting.oracle s.toMoment s'.toMoment)
    (hholds : b.Holds setting s'.toMoment)
    (hcounts : b.Counts setting.options.iterationLimit s.workspace.innerIterations) :
    Inv setting b s'.toMoment :=
  ⟨h.base.keeps hk, hholds, hk.innerIterations_eq ▸ hcounts⟩

/-- A notice changes nothing of the search. -/
theorem keeps_of_note {notices : List (Notice α)} (o : Oracle α)
    (h : Search.note notices s = .ok () s') : Moment.Keeps o s.toMoment s'.toMoment :=
  (((Search.note_leads notices s).of_run h).quiet o).toKeeps

/-- Within a round that aggregates, aggregation succeeds. -/
theorem Inv.aggregate_leads {evaluated : Bool}
    (h : Inv setting (.rejected evaluated) s.toMoment)
    (hon : s.engine.aggregating setting.options = true) :
    Leads Search.aggregate s fun _ s' => Search.Aggregated s s' := by
  obtain ⟨hsolves, hround, _⟩ := h.holds
  have hcuts := hround.activeCuts_eq hon
  exact Search.aggregate_leads hsolves.toSound (hcuts ▸ hsolves.denote)
    (hcuts ▸ hsolves.length_weights)

/-- Aggregation leaves the active cuts alone and puts two new ones into the short list. -/
theorem Inv.aggregate {evaluated : Bool} (h : Inv setting (.rejected evaluated) s.toMoment)
    (hon : s.engine.aggregating setting.options = true)
    (hr : Search.aggregate s = .ok () s') :
    Inv setting (.sampling true evaluated) s'.toMoment := by
  obtain ⟨hsolves, hround, hknown⟩ := h.holds
  obtain ⟨current, s₁, hcurrent, hlogs, hpair, rfl⟩ := (h.aggregate_leads hon).of_run hr
  have hk := (hlogs.quiet setting.oracle).toKeeps
  have hkept := hsolves.keeps hk
  have hvalid := hk.valid hsolves.toSound hpair.valid
  have hfull : ∀ cut ∈ s₁.engine.fullCuts, cut.Valid s₁.workspace := hkept.fullCuts
  have hb := base_withEngine (·.replaceAggregated _) hkept.toBase rfl hfull hvalid
  refine ⟨hb, ⟨⟨hb, aligned_withEngine _ hkept.toAligned rfl
    (Engine.activeCuts_replaceAggregated _ _), stepped_withEngine _ hkept.toStepped rfl⟩,
    ⟨?_, ?_⟩, fun he => ?_⟩, hk.innerIterations_eq ▸ h.counts⟩
  · change (_ && !s₁.engine.switched) = true
    rw [hk.switched_eq]
    exact hon
  · rcases (hk.roundActive hround) with ⟨hactive, _⟩ | ⟨hactive, _⟩
    · exact .inl (Engine.active_replaceAggregated_of_full hactive _)
    · exact .inr ⟨rfl, _, Engine.active_replaceAggregated hactive _⟩
  · change s₁.workspace.trialSample.objective.isKnown = true
    rw [hlogs.trialSample_eq]
    exact hknown he

/-- New cuts make the full cuts longer than the solver's planes. -/
theorem Inv.augment {aggregating : Bool} {added : List (Cut α)}
    (h : Inv setting (.chosen aggregating added) s.toMoment)
    (hr : Search.reportRound setting (s.withEngine (·.augmented aggregating added)) =
      .ok () s') :
    Inv setting (.augmented aggregating added) s'.toMoment := by
  obtain ⟨hsolves, hdetached, hvalid⟩ := h.holds
  have hk := (((Search.reportRound_leads setting _).of_run hr).quiet setting.oracle).toKeeps
  have hfull : ∀ cut ∈ s.engine.fullCuts ++ added, cut.Valid s.workspace :=
    List.forall_mem_append.mpr ⟨hsolves.fullCuts, hvalid⟩
  have haggregated : ∀ cut ∈ (s.engine.augmented aggregating added).aggregatedCuts,
      cut.Valid s.workspace := by
    unfold Engine.augmented
    cases aggregating
    · exact hsolves.aggregatedCuts
    · exact List.forall_mem_append.mpr ⟨hsolves.aggregatedCuts, hvalid⟩
  have hb := base_withEngine (·.augmented aggregating added) h.base rfl hfull haggregated
  have hdetached' : s'.engine.aggregating setting.options = aggregating := by
    unfold Engine.aggregating
    rw [hk.switched_eq]
    exact hdetached.1
  refine ⟨hb.keeps hk, ⟨(stepped_withEngine _ hsolves.toStepped rfl).keeps hk, hdetached',
    hk.valid hb.toSound hvalid, s.engine.activeCuts, ?_, ?_, ?_⟩, hk.innerIterations_eq ▸ h.counts⟩
  · rw [hk.solver_eq', solver_withEngine _ rfl]
    exact hsolves.denote.grows hk.grows hsolves.wellFormed.bundle_lt
  · rw [hk.solver_eq', solver_withEngine _ rfl]
    exact hsolves.length_weights
  · rw [hk.active_eq, hk.fullCuts_eq]
    change s.engine.active = .full ∧ s.engine.fullCuts ++ added = _ ∨ _
    unfold Engine.activeCuts
    rcases hdetached.2 with hactive | ⟨hon, old, hactive⟩
    · exact .inl ⟨hactive, by rw [hactive]⟩
    · exact .inr ⟨hon, by rw [hactive]; exact hactive⟩

/-- Where the planes are those of the active cuts, the search may end. -/
theorem Inv.ended {a : Stage α} {outcome : Outcome} (h : Inv setting a s.toMoment)
    (haligned : s.Aligned) (hk : Moment.Keeps setting.oracle s.toMoment s'.toMoment) :
    Inv setting (.ended outcome) s'.toMoment :=
  h.quiet hk (haligned.keeps h.base.toSound hk) trivial

/-- The collected cuts are the first full ones. -/
theorem Inv.solveFull {cuts : List (Cut α)} {planes : List (Plane α)}
    (h : Inv setting .opened s.toMoment)
    (hk : Moment.Keeps setting.oracle s.toMoment s'.toMoment)
    (hplanes : Cut.DenoteAll s'.workspace cuts planes) :
    Inv setting (.solved .full)
      ((s'.withEngine (·.collected cuts)).resolved setting planes .full).toMoment := by
  have hcounts := h.counts
  have hb := h.base.keeps hk
  have hsolves := SearchState.solves_resolved .full
    (base_withEngine (·.collected cuts) hb rfl hplanes.valid hb.aggregatedCuts) hplanes
  refine ⟨hsolves.toBase, ⟨hsolves, rfl⟩, ?_⟩
  change 1 ≤ s'.workspace.innerIterations + 1 ∧ s'.workspace.innerIterations + 1 ≤ 2
  simp only [Stage.Counts, ← hk.innerIterations_eq] at hcounts
  omega

/-- Where the rounds start, aggregated and full cuts are the same. -/
theorem Inv.enterLoop (h : Inv setting (.solved .full) s.toMoment) :
    Inv setting (.round true) (s.withEngine Engine.entered).toMoment := by
  obtain ⟨hbase, ⟨hsolves, hactive⟩, hcounts⟩ := h
  have hb := base_withEngine Engine.entered hbase rfl hbase.fullCuts hbase.fullCuts
  have hsame : s.engine.entered.activeCuts = s.engine.activeCuts := by
    unfold Engine.activeCuts
    rw [Engine.entered, hactive]
  refine ⟨hb, ⟨⟨hb, aligned_withEngine _ hsolves.toAligned rfl hsame,
    stepped_withEngine _ hsolves.toStepped rfl⟩, .inl ⟨hactive, fun _ => rfl⟩⟩, ?_⟩
  simp only [Stage.Counts] at hcounts ⊢
  change 1 ≤ s.workspace.innerIterations ∧ s.workspace.innerIterations ≤ 3
  omega

/-- The invariant holds when the switch has been marked. -/
theorem Inv.markSwitch (h : Inv setting (.solved .switching) s.toMoment) :
    Inv setting (.solved .switched) (s.withEngine Engine.marked).toMoment := by
  obtain ⟨hbase, ⟨hsolves, hactive⟩, hcounts⟩ := h
  have hb := base_withEngine Engine.marked hbase rfl hbase.fullCuts hbase.aggregatedCuts
  refine ⟨hb, ⟨⟨hb, aligned_withEngine _ hsolves.toAligned rfl rfl,
    stepped_withEngine _ hsolves.toStepped rfl⟩, hactive, ?_⟩, hcounts⟩
  exact Bool.and_false _

/-- The cuts of the last solve are those that the next round works with. -/
theorem Inv.nextRound {kind : SolveKind α} (h : Inv setting (.solved kind) s.toMoment)
    (hkind : kind.InRound) : Inv setting (.round false) s.toMoment := by
  obtain ⟨hbase, ⟨hsolves, hfits⟩, hcounts⟩ := h
  cases hkind with
  | aggregated =>
    refine ⟨hbase, ⟨hsolves, .inr hfits⟩, ?_⟩
    simp only [Stage.Counts] at hcounts ⊢
    omega
  | switched | warm =>
    refine ⟨hbase, ⟨hsolves, .inl ⟨hfits.1, fun hon => ?_⟩⟩, ?_⟩
    · rw [hfits.2] at hon
      cases hon
    · simp only [Stage.Counts] at hcounts ⊢
      omega

/-- A fallback counts as one more solve. -/
theorem Inv.fallBack {kind : SolveKind α} {plane : Plane α} {first : Bool}
    (h : Inv setting (.solved kind) s.toMoment)
    (hkind : kind = .full ∧ first = true ∨ kind.InRound ∧ first = false)
    (hk : Moment.Keeps setting.oracle s.toMoment s'.toMoment)
    (hcurrent : s'.workspace.CurrentPlane plane) :
    Inv setting (.solved (.fallback plane first))
      (s'.resolved setting [plane] (.own [plane.toCut])).toMoment := by
  have hcounts := h.counts
  have hb := h.base.keeps hk
  have hsolves := SearchState.solves_resolved (.own [plane.toCut]) hb
    (.cons (hcurrent.denotes hb.wellFormed) .nil)
  refine ⟨hsolves.toBase, ⟨hsolves, rfl⟩, ?_⟩
  have hcount : (s'.resolved setting [plane] (.own [plane.toCut])).workspace.innerIterations =
      s.workspace.innerIterations + 1 := congrArg (· + 1) hk.innerIterations_eq
  rw [hcount]
  rcases hkind with ⟨rfl, rfl⟩ | ⟨hround, rfl⟩
  · simp only [Stage.Counts] at hcounts ⊢
    omega
  · cases hround <;> simp only [Stage.Counts] at hcounts ⊢ <;> omega

/-- The cut of a fallback, which alone is active, becomes the only cut of both lists. -/
theorem Inv.restart {plane : Plane α} {first : Bool}
    (h : Inv setting (.solved (.fallback plane first)) s.toMoment)
    (hk : Moment.Keeps setting.oracle s.toMoment s'.toMoment) :
    Inv setting (.round first) (s'.withEngine (·.restarted plane.toCut)).toMoment := by
  obtain ⟨_, ⟨hsolves, hactive⟩, hcounts⟩ := h
  have hsolves' := hsolves.keeps hk
  have hcuts : s'.engine.activeCuts = [plane.toCut] := by
    rw [hk.activeCuts_eq, Engine.activeCuts, hactive]
  have hvalid : ∀ c ∈ [plane.toCut], c.Valid s'.workspace := hcuts ▸ hsolves'.denote.valid
  have hb := base_withEngine (·.restarted plane.toCut) hsolves'.toBase rfl hvalid hvalid
  refine ⟨hb, ⟨⟨hb, aligned_withEngine _ hsolves'.toAligned rfl hcuts.symm,
    stepped_withEngine _ hsolves'.toStepped rfl⟩, .inl ⟨rfl, fun _ => rfl⟩⟩, ?_⟩
  change Stage.Counts _ _ s'.workspace.innerIterations
  rw [hk.innerIterations_eq]
  cases first <;> exact hcounts

/-- The gradient step is solved with the cut at the current point alone. -/
theorem Inv.solveGradient {plane : Plane α} (h : Inv setting .ready s.toMoment)
    (hcurrent : s.workspace.CurrentPlane plane) :
    Inv setting (.solved .gradient) (s.resolved setting [plane] (.own [plane.toCut])).toMoment := by
  have hsolves := SearchState.solves_resolved (.own [plane.toCut]) h.base
    (.cons (hcurrent.denotes h.base.wellFormed) .nil)
  have hcounts : s.workspace.innerIterations = 0 := h.counts
  refine ⟨hsolves.toBase, ⟨hsolves, plane, rfl⟩, ?_⟩
  change s.workspace.innerIterations + 1 = 1
  rw [hcounts, zero_add]

/-- A test of the gradient step leaves the solver and its cuts alone. -/
theorem Inv.testGradient {stepsize : α} {evaluated accepted : Bool}
    (h : Inv setting (.solved .gradient) s.toMoment)
    (htry : Search.tryStep setting stepsize s = .ok evaluated s') :
    Inv setting (.gradientTested accepted) (s'.tested setting evaluated).toMoment := by
  have hsolves : s.Solves setting.oracle := h.holds.1
  obtain ⟨hq, _, _⟩ :=
    (Search.tryStep_leads hsolves.toSound _ hsolves.length_direction).of_run htry
  have hk := hq.toKeeps.trans (Moment.keeps_asked setting _)
  exact h.quiet hk (hsolves.keeps hk) h.counts

/-- A round begins with the evaluation of the trial point. -/
theorem Inv.beginRound {s₁ : SearchState α} {first evaluated : Bool}
    (h : Inv setting (.round first) s.toMoment)
    (hflush : Search.flushReport (s.logged .roundBegan) = .ok () s₁)
    (hevaluate : Search.onWorkspace (Workspace.evaluateTrial setting.oracle) s₁ =
      .ok evaluated s') :
    Inv setting (.begun first evaluated) s'.toMoment := by
  obtain ⟨hsolves, hround⟩ := h.holds
  obtain ⟨hq, _, _, hknown⟩ := Search.begun_of_run hsolves.toSound hflush hevaluate
  have hk : Moment.Keeps setting.oracle s.toMoment s'.toMoment := hq.toKeeps
  exact h.quiet hk ⟨hsolves.keeps hk, hk.roundActive hround, fun he => (hknown.mp he).1⟩ trivial

/-- A round goes on only while the iterations are within their limit. -/
theorem Inv.goOn {evaluated : Bool} {time : α}
    (h : Inv setting (.tested evaluated false) s.toMoment)
    (hlimit : ¬ (setting.options.iterationLimit : Int) < s.workspace.innerIterations)
    (hclock : Search.onWorkspace (Workspace.elapsed setting.clock) s = .ok time s') :
    Inv setting (.rejected evaluated) s'.toMoment := by
  obtain ⟨hsolves, hround, hknown⟩ := h.holds
  have hlogs := (Search.elapsed_leads _ _).of_run hclock
  have hk := (hlogs.quiet setting.oracle).toKeeps
  refine h.quiet hk ⟨hsolves.keeps hk, hk.roundActive hround, fun he => ?_⟩ (not_lt.mp hlimit)
  rw [hlogs.trialSample_eq]
  exact hknown he

/-- A test of the shortened step leaves the cuts in hand valid. -/
theorem Inv.testShort {stepsize : α} {aggregating evaluated accepted : Bool} {cuts : List (Cut α)}
    (h : Inv setting (.sampled aggregating cuts) s.toMoment)
    (htry : Search.tryStep setting stepsize s = .ok evaluated s') :
    Inv setting (.shortTested aggregating cuts evaluated accepted)
      (s'.tested setting evaluated).toMoment := by
  obtain ⟨hsolves, hdetached, hvalid⟩ := h.holds
  obtain ⟨hq, _, _, hknown⟩ :=
    (Search.tryStep_leads hsolves.toSound _ hsolves.length_direction).of_run htry
  have hk := hq.toKeeps.trans (Moment.keeps_asked setting _)
  exact h.quiet hk ⟨hsolves.keeps hk, hk.detached hdetached, hk.valid hsolves.toSound hvalid,
    trialKnown_tested fun he => (hknown.mp he).1⟩ h.counts

/-- The cut at the end of the shortened step joins the valid ones in hand. -/
theorem Inv.sampleShort {aggregating evaluated : Bool} {cuts new : List (Cut α)}
    (h : Inv setting (.shortTested aggregating cuts evaluated false) s.toMoment)
    (hcut : Search.trialCut setting evaluated s = .ok new s') :
    Inv setting (.chosen aggregating (cuts ++ new)) s'.toMoment := by
  obtain ⟨hsolves, hdetached, hvalid, hknown⟩ := h.holds
  obtain ⟨hq, hnew⟩ := valid_trialCut hsolves.toSound hknown hcut
  have hk := hq.toKeeps
  refine h.quiet hk ⟨hsolves.keeps hk, hk.detached hdetached, ?_⟩ h.counts
  exact List.forall_mem_append.mpr ⟨hk.valid hsolves.toSound hvalid, hnew⟩

/-- A solve on the aggregated cuts makes them the active ones. -/
theorem Inv.solveAggregated {added : List (Cut α)} {planes : List (Plane α)}
    (h : Inv setting (.augmented true added) s.toMoment)
    (hplanes : Cut.DenoteAll s.workspace s.engine.aggregatedCuts planes) :
    Inv setting (.solved .aggregated) (s.resolved setting planes .aggregated).toMoment := by
  have hsolves := SearchState.solves_resolved .aggregated h.base hplanes
  exact ⟨hsolves.toBase, ⟨hsolves, rfl, h.holds.aggregating_eq⟩,
    Int.add_le_add_right h.counts 1⟩

/-- The last solve before aggregation is switched off is one on the full cuts. -/
theorem Inv.solveSwitching {added : List (Cut α)} {planes : List (Plane α)}
    (h : Inv setting (.augmented true added) s.toMoment)
    (hk : Moment.Keeps setting.oracle s.toMoment s'.toMoment)
    (hplanes : Cut.DenoteAll s'.workspace s'.engine.fullCuts planes) :
    Inv setting (.solved .switching) (s'.resolved setting planes .full).toMoment := by
  have hsolves := SearchState.solves_resolved .full (h.base.keeps hk) hplanes
  have hcounts : s'.workspace.innerIterations ≤ setting.options.iterationLimit :=
    hk.innerIterations_eq ▸ h.counts
  exact ⟨hsolves.toBase, ⟨hsolves, rfl⟩, Int.add_le_add_right hcounts 1⟩

/-- A warm solve brings the planes of the added cuts behind the others. -/
theorem Inv.solveWarm {added : List (Cut α)} {planes : List (Plane α)}
    (h : Inv setting (.augmented false added) s.toMoment)
    (hplanes : Cut.DenoteAll s.workspace added planes) :
    Inv setting (.solved .warm) (s.continued setting planes).toMoment := by
  have hsolves := SearchState.solves_continued h.base (h.holds.denote_append hplanes)
  exact ⟨hsolves.toBase, ⟨hsolves, rfl, h.holds.aggregating_eq⟩,
    Int.add_le_add_right h.counts 1⟩

/-- Every step keeps the invariant. -/
theorem Inv.step {a b : Stage α} (h : Inv setting a s.toMoment) (hstep : Step setting a s b s') :
    Inv setting b s'.toMoment := by
  have hbase := h.base
  have hholds := h.holds
  have hcounts := h.counts
  cases hstep with
  | solveGradient hon hcurrent => exact h.solveGradient hcurrent
  | testGradient htry => exact h.testGradient htry
  | rejectGradient | omitGradient =>
    refine ⟨hbase, trivial, ?_⟩
    simp only [Stage.Counts] at hcounts ⊢
    omega
  | solveFull hcollect hnote hplanes =>
    have hk := ((Search.collectCuts_leads hbase.toSound).of_run hcollect).1.toKeeps.trans
      (keeps_of_note setting.oracle hnote)
    exact h.solveFull hk hplanes
  | enterLoop hstatus => exact h.enterLoop
  | markSwitch => exact h.markSwitch
  | nextRound hkind hstatus => exact h.nextRound hkind
  | fallBack hkind hstatus hgo hnote hcurrent =>
    exact h.fallBack hkind (keeps_of_note setting.oracle hnote) hcurrent
  | restart hnote => exact h.restart (keeps_of_note setting.oracle hnote)
  | beginRound hflush hevaluate => exact h.beginRound hflush hevaluate
  | testFull hfirst =>
    have hk := Moment.keeps_asked setting s.toMoment
    exact h.quiet hk ⟨hholds.1.keeps hk, hk.roundActive hholds.2.1,
      trialKnown_tested hholds.2.2⟩ trivial
  | goOn hlimit hclock htime => exact h.goOn hlimit hclock
  | aggregate hon haggregate => exact h.aggregate hon haggregate
  | omitAggregation hoff =>
    exact ⟨hbase, ⟨hholds.1, ⟨hoff, .inl (hholds.2.1.active_eq hoff)⟩, hholds.2.2⟩, hcounts⟩
  | sampleFull hnear hcut =>
    obtain ⟨hq, hvalid⟩ := valid_trialCut hbase.toSound hholds.2.2 hcut
    have hk := hq.toKeeps
    exact h.quiet hk ⟨hholds.1.keeps hk, hk.detached hholds.2.1, hvalid⟩ hcounts
  | omitFull hfar =>
    exact ⟨hbase, ⟨hholds.1, hholds.2.1, fun _ hcut => absurd hcut List.not_mem_nil⟩, hcounts⟩
  | testShort hon hnorm htry => exact h.testShort htry
  | omitShort hoff => exact ⟨hbase, hholds, hcounts⟩
  | sampleShort hcut => exact h.sampleShort hcut
  | augment hreport => exact h.augment hreport
  | solveAggregated hthreshold hfew hplanes => exact h.solveAggregated hplanes
  | solveSwitching hthreshold hmany hnote hplanes =>
    exact h.solveSwitching (keeps_of_note setting.oracle hnote) hplanes
  | solveWarm hthreshold hplanes => exact h.solveWarm hplanes
  -- where the search ends, the planes stay those of the active cuts
  | acceptGradient hnote => exact h.ended hholds.toAligned (keeps_of_note setting.oracle hnote)
  | failSolver | acceptFull | reachLimit =>
    exact h.ended hholds.1.toAligned (.refl setting.oracle _)
  | failTrial hnote | acceptShort hnote =>
    exact h.ended hholds.1.toAligned (keeps_of_note setting.oracle hnote)
  | runOut hlimit hclock htime =>
    have hk := (((Search.elapsed_leads _ _).of_run hclock).quiet setting.oracle).toKeeps
    exact h.ended hholds.1.toAligned hk

/-- So it holds at every stage that a search reaches. -/
theorem Reached.inv {start : SearchState α} {stage : Stage α}
    (hstart : Inv setting .ready start.toMoment) (h : Reached setting start stage s) :
    Inv setting stage s.toMoment := by
  induction h with
  | start => exact hstart
  | step _ hstep ih => exact ih.step hstep

end Preservation

end NonsmoothDescent
