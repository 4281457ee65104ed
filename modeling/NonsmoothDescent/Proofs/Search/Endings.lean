import NonsmoothDescent.Proofs.Search.Lockstep

/-!
# How two calls end

A call prepares workspace and engine, searches, and accounts for the search. Two calls on
workspaces that are the same but for what was noticed, and but for whether trial points are
evaluated jointly, come out with the same outcome or the same fault, and end alike. Without
a solve the solvers may still be different in the end, and then so are the figures in the
last line of the reports.
-/

namespace NonsmoothDescent

variable {α : Type} [Scalar α]

/-- A search that has gone beyond its first solve is underway. -/
theorem Reached.underway {setting : Setting α} {start s : SearchState α} {b : Stage α}
    (hinv : Inv setting .ready start.toMoment) (h : Reached setting start b s)
    (hb : ¬ b.Unsolved) : s.Underway := by
  induction h with
  | start => exact absurd trivial hb
  | @step a b s s' hreached hstep ih =>
    obtain ⟨new, hjournal, -, hnew⟩ := hstep.records (hreached.inv hinv)
    unfold SearchState.Underway
    rw [hjournal, solvesOf_append, hnew]
    rcases b.gain_eq with hgain | hgain
    · exact List.append_ne_nil_of_left_ne_nil (ih fun ha => hb (hstep.unsolved ha hgain)) _
    · rw [if_pos hgain]
      exact List.append_ne_nil_of_right_ne_nil _ (List.cons_ne_nil _ _)

/-- A call that is stopped by a fault has made a solve. -/
theorem CallResult.underway_of_error {setting : Setting α} {entry s : SearchState α}
    {fault : Fault α} (h : CallResult setting entry (.error fault s)) : s.Underway := by
  cases h with
  | timeUp hopens hreached hcloses =>
    have hjournal := (hcloses.quiet setting.oracle).journal_eq
    have hunderway := hreached.underway hopens.inv id
    unfold SearchState.Underway
    rwa [hjournal]
  | overflowed hopens hoverflows =>
    obtain ⟨-, _, _, hreached⟩ := hoverflows
    exact hreached.underway hopens.inv id

section Calls

variable {setting : Setting α} {entry : SearchState α}

/-- The state in which the search proper begins. -/
def SearchState.prepared (s : SearchState α) : SearchState α :=
  { workspace := { s.workspace with
      innerIterations := 0
      minimizerIterations := 0
      trial := s.workspace.current
      clockReadings := s.workspace.clockReadings + 1 }
    engine := { s.engine with
      outcome := .unset
      solver := some s.solver.clearStep
      fullCuts := []
      aggregatedCuts := []
      active := .own []
      switched := false
      solves := 0 } }

/-- The state after the account of a search that began at the given time. -/
def SearchState.accounted (setting : Setting α) (start : α) (outcome : Outcome)
    (s : SearchState α) : SearchState α :=
  finalState (Search.account setting start outcome s)

/-- Preparing a search leaves the solver, whatever else is done to the workspace. -/
theorem SearchState.solver_prepared (s : SearchState α) {w : Workspace α}
    (hw : w.dimension = s.workspace.dimension) :
    ({ s.prepared with workspace := w } : SearchState α).solver = s.solver.clearStep :=
  Engine.solverFor_of_some rfl (s.dimension_solver.trans hw.symm)

/-- Accounting for a search succeeds. -/
theorem Search.account_run (setting : Setting α) (start : α) (outcome : Outcome)
    (s : SearchState α) :
    account setting start outcome s = .ok () (s.accounted setting start outcome) := rfl

/-- A call is a search between its preparation and its account. -/
theorem Search.computeDirection_run (setting : Setting α) (entry : SearchState α) :
    computeDirection setting entry =
      match seek setting entry.prepared with
      | .ok outcome s =>
        let s' := s.accounted setting (setting.clock entry.workspace.clockReadings) outcome
        if outcome = .timeLimit then .error .timeLimitReached s' else .ok outcome s'
      | .error fault s => .error fault s := by
  have hconclude : conclude setting entry = (seek setting >>= fun outcome =>
      account setting (setting.clock entry.workspace.clockReadings) outcome >>= fun _ =>
        pure outcome) entry.prepared := rfl
  unfold computeDirection
  cases hseek : seek setting entry.prepared with
  | error fault s =>
    rw [bind_of_error hseek] at hconclude
    rw [bind_of_error hconclude]
  | ok outcome s =>
    rw [bind_of_ok hseek, bind_of_ok (account_run ..)] at hconclude
    rw [bind_of_ok hconclude]
    dsimp only
    split <;> rfl

end Calls

namespace Twins

variable {f : Twins α} {s t : SearchState α}

/-- Two calls end alike. -/
structure Ends (f : Twins α) (s t : SearchState α) : Prop where
  workspace : s.workspace.Matches f.setting.oracle f.toPairing False t.workspace
  direction_eq : t.workspace.direction = s.workspace.direction
  trial_lt : s.workspace.trial < s.workspace.samples.size
  trial_eq : t.workspace.trial = f.rename s.workspace.trial
  fullCuts_eq : t.engine.fullCuts = s.engine.fullCuts
  aggregatedCuts_eq : t.engine.aggregatedCuts = s.engine.aggregatedCuts
  active_eq : t.engine.active = s.engine.active
  switched_eq : t.engine.switched = s.engine.switched
  outcome_eq : t.engine.outcome = s.engine.outcome
  solves_eq : t.engine.solves = s.engine.solves + f.lead
  ruleRecord_eq : f.samePast = true → t.engine.ruleRecord = s.engine.ruleRecord
  asked_eq : f.samePast = true → t.engine.consultations = s.engine.consultations
  consultations_eq : Search.consultations t.journal = Search.consultations s.journal
  solver_eq : s.Underway ∨ f.samePast = true → t.engine.solver = s.engine.solver
  reports : f.reporting = true → t.engine.solver = s.engine.solver →
    f.Reports s.engine.report t.engine.report

/-- States that match are ends of the same search. -/
theorem Matches.ends (h : f.Matches True s t) : f.Ends s t :=
  { h, h.trial with
    workspace := h.workspace.imp False.elim
    active_eq := h.active_eq (h.underway trivial)
    solver_eq := fun _ => h.solver_eq (h.underway trivial)
    reports := fun hreporting _ => h.reports hreporting }

/-- The trial point is the same point, at the same height. -/
theorem Ends.trialSample (h : f.Ends s t) :
    t.workspace.trialSample.position = s.workspace.trialSample.position ∧
      t.workspace.trialSample.objective = s.workspace.trialSample.objective := by
  have hpaired := h.workspace.points.paired _ h.trial_lt
  rw [Workspace.trialSample, Workspace.trialSample, h.trial_eq]
  exact ⟨hpaired.position_eq, hpaired.objective_eq⟩

/-- Engines with the same past end the same. -/
theorem Ends.engine_eq (h : f.Ends s t) (hpast : f.samePast = true)
    (hreporting : f.reporting = true) (hlead : f.lead = 0) (hbefore : f.before' = f.before) :
    t.engine = s.engine := by
  obtain ⟨-, -, -, -, hfull, haggregated, hactive, hswitched, houtcome, hsolves, hrecord, hasked, -,
    hsolver, hreports⟩ := h
  have hreport := (hreports hreporting (hsolver (.inr hpast))).eq hlead hbefore
  have hsolver := hsolver (.inr hpast)
  have hrecord := hrecord hpast
  have hasked := hasked hpast
  rw [hlead] at hsolves
  cases hs : s.engine
  cases ht : t.engine
  simp_all

/-- Both runs account for the search in the same way. -/
theorem Ends.accounted (h : f.Ends s t) (start : α) (outcome : Outcome) :
    f.Ends (s.accounted f.setting start outcome) (t.accounted f.second start outcome) := by
  refine { h with
    workspace := h.workspace.accounted f.setting.clock start _ _
    outcome_eq := rfl
    reports := fun hreporting hsolver => ?_ }
  have hsame : t.engine.solver = s.engine.solver := hsolver
  have hfigures := h.workspace.figures
  have hline : Search.figures t.workspace { t.engine with outcome } =
      (Search.figures s.workspace { s.engine with outcome }).ahead f.lead := by
    unfold Search.figures Figures.ahead Engine.solverFor
    dsimp only
    rw [hsame, hfigures.dimension_eq, hfigures.innerIterations_eq,
      hfigures.minimizerIterations_eq]
  have hflush := ((h.reports hreporting hsame).add .iteration
    (.summary (Search.figures s.workspace { s.engine with outcome }))).flush
  rw [ProgressLine.ahead, ← hline] at hflush
  exact hflush

/-- Calls come out as alike as their searches do. -/
theorem corresponds_of_seek (hw : s.workspace.WellFormed f.setting.oracle)
    (hreadings : t.workspace.clockReadings = s.workspace.clockReadings)
    (hseek : Corresponds (fun b s' c t' => c = b ∧ f.Ends s' t') (f.Matches False)
      (Search.seek f.setting s.prepared) (Search.seek f.second t.prepared)) :
    Corresponds (fun b s' c t' => c = b ∧ f.Ends s' t') f.Ends
      (Search.computeDirection f.setting s) (Search.computeDirection f.second t) := by
  have hcall := Search.computeDirection_cases hw
  rw [Search.computeDirection_run] at hcall ⊢
  rw [Search.computeDirection_run, hreadings]
  generalize Search.seek f.setting s.prepared = result at hcall hseek ⊢
  generalize Search.seek f.second t.prepared = result' at hseek ⊢
  cases hseek with
  | error hmatches => exact .error (hmatches.aligned hcall.underway_of_error).ends
  | ok hends =>
    obtain ⟨rfl, hends⟩ := hends
    dsimp only
    split
    · exact .error (hends.accounted _ _)
    · exact .ok ⟨rfl, hends.accounted _ _⟩

/-- Two calls begin alike: the workspaces are the same but for notices and the evaluation of
trial points, and the solvers have the same settings. -/
structure Meets (f : Twins α) (s t : SearchState α) : Prop where
  pairing_eq : f.toPairing = { apart := f.apart }
  gradient_eq : f.gradient' = f.setting.options.tryGradientStep
  wellFormed : s.workspace.WellFormed f.setting.oracle
  workspace_eq : t.workspace = { s.workspace with
    notices := t.workspace.notices
    jointEvaluation := t.workspace.jointEvaluation }
  joint_same : f.apart = false → t.workspace.jointEvaluation = s.workspace.jointEvaluation
  joint_apart : f.apart = true →
    s.workspace.jointEvaluation = false ∧ t.workspace.jointEvaluation = true
  settings_eq : t.solver.settings = s.solver.settings
  drill_eq : t.solver.drill = s.solver.drill
  solver_eq : f.samePast = true → t.solver = s.solver
  ruleRecord_eq : f.samePast = true → t.engine.ruleRecord = s.engine.ruleRecord
  asked_eq : f.samePast = true → t.engine.consultations = s.engine.consultations
  reports : f.reporting = true → f.Reports s.engine.report t.engine.report

namespace Meets

/-- Runs that meet match once they are prepared. -/
theorem prepared_matches (h : f.Meets s t) :
    s.prepared.workspace.Matches f.setting.oracle f.toPairing False t.prepared.workspace := by
  have hw : s.prepared.workspace.WellFormed f.setting.oracle := { h.wellFormed with }
  have hmatches := hw.matches t.workspace.notices h.joint_same h.joint_apart
  have hworkspace : t.prepared.workspace = { s.prepared.workspace with
      notices := t.workspace.notices
      jointEvaluation := t.workspace.jointEvaluation } := by
    unfold SearchState.prepared
    dsimp only
    rw [h.workspace_eq]
  rw [h.pairing_eq, hworkspace]
  exact hmatches

/-- Runs that meet have as many variables. -/
theorem dimension_eq (h : f.Meets s t) : t.workspace.dimension = s.workspace.dimension := by
  rw [h.workspace_eq]

/-- The solvers are set up alike as soon as they are configured. -/
theorem setup_configured (h : f.Meets s t) {w w' : Workspace α}
    (hw : w.dimension = s.workspace.dimension) (hw' : w'.dimension = w.dimension) :
    (configured { t.prepared with workspace := w' } t.workspace.radii).setup =
      (configured { s.prepared with workspace := w } s.workspace.radii).setup := by
  have hsolver := s.solver_prepared hw
  have hsolver' := t.solver_prepared ((hw'.trans hw).trans h.dimension_eq.symm)
  have hdimension : t.solver.subproblem.dimension = s.solver.subproblem.dimension :=
    t.dimension_solver.trans (h.dimension_eq.trans s.dimension_solver.symm)
  have hradii : t.workspace.radii = s.workspace.radii := by rw [h.workspace_eq]
  unfold configured
  rw [hsolver, hsolver', hradii]
  unfold Solver.setup Solver.unsolved Solver.setInexactness Solver.setRadius Solver.clearStep
  dsimp only
  rw [hdimension, h.settings_eq, h.drill_eq]

/-- With the current point evaluated and the solvers configured, the runs match. -/
theorem opened (h : f.Meets s t) {w w' : Workspace α}
    (hw : w.Matches f.setting.oracle f.toPairing False w')
    (hdimension : w.dimension = s.workspace.dimension) :
    f.Matches False (Search.opened s.prepared w) (Search.opened t.prepared w') := by
  have hlead : f.lead = 0 := congrArg Pairing.lead h.pairing_eq
  have hsetup := h.setup_configured hdimension hw.figures.dimension_eq
  refine ⟨hw.imp fun hunderway => hunderway rfl, rfl, rfl, rfl, rfl, ?_, h.ruleRecord_eq,
    h.asked_eq, ?_, fun _ => rfl, fun hunderway => absurd rfl hunderway, rfl, h.reports, False.elim⟩
  · change 0 = 0 + f.lead
    rw [hlead]
  · exact Engine.solverFor_congr rfl rfl (congrArg Solver.dimension hsetup :) hsetup

/-- If the current point cannot be evaluated the runs end alike: nothing has been solved, so
the trial point is still the current one. -/
theorem unevaluated_ends (h : f.Meets s t) {w w' : Workspace α}
    (he : s.prepared.workspace.Evaluates f.setting.oracle w)
    (he' : t.prepared.workspace.Evaluates f.setting.oracle w')
    (hw : w.Matches f.setting.oracle f.toPairing False w') (notices notices' : Array (Notice α)) :
    f.Ends { s.prepared with workspace := { w with notices } }
      { t.prepared with workspace := { w' with notices := notices' } } := by
  have hdirection : w'.direction = w.direction := by
    obtain ⟨_, _, _, _, hw⟩ := he.eq
    obtain ⟨_, _, _, _, hw'⟩ := he'.eq
    have hsame : t.workspace.direction = s.workspace.direction := by rw [h.workspace_eq]
    rw [hw, hw']
    exact hsame
  have htrial : w.trial = w.current := he.trial_eq.trans he.grows.current_eq.symm
  have htrial' : w'.trial = w'.current := he'.trial_eq.trans he'.grows.current_eq.symm
  have hlead : f.lead = 0 := congrArg Pairing.lead h.pairing_eq
  refine ⟨hw.noticing _ _, hdirection, ?_, ?_, rfl, rfl, rfl, rfl, rfl, ?_, h.ruleRecord_eq,
    h.asked_eq, rfl, fun hsame => ?_, fun hreporting _ => h.reports hreporting⟩
  · change w.trial < w.samples.size
    rw [htrial]
    exact hw.points.current_lt
  · change w'.trial = f.rename w.trial
    rw [htrial, htrial', hw.points.current_eq]
  · change 0 = 0 + f.lead
    rw [hlead]
  · have hsolver := h.solver_eq (hsame.resolve_left fun hunderway => hunderway rfl)
    exact congrArg (fun solver => some solver.clearStep) hsolver

/-- From the first evaluation on the runs correspond. -/
theorem seek_corresponds (h : f.Meets s t) (hf : f.Fair) :
    Corresponds (fun b s' c t' => c = b ∧ f.Ends s' t') (f.Matches False)
      (Search.seek f.setting s.prepared) (Search.seek f.second t.prepared) := by
  have hmatches := h.prepared_matches
  have hpoints := hmatches.points
  obtain ⟨hlt, hsame⟩ := hpoints.same_at (.inl rfl)
  have hlt' := hpoints.current_eq ▸ hpoints.rename_lt hlt
  obtain ⟨known, w, hrun, he, -⟩ :=
    Workspace.evaluateBoth_leads (o := f.setting.oracle) hlt true
  obtain ⟨known', w', hrun', he', -⟩ :=
    Workspace.evaluateBoth_leads (o := f.setting.oracle) hlt' true
  have hboth := hmatches.evaluateBoth hlt (.inl hsame)
  unfold Tandem at hboth
  rw [← hpoints.current_eq, hrun, hrun'] at hboth
  obtain ⟨rfl, hw⟩ : known' = known ∧ w.Matches f.setting.oracle f.toPairing False w' := by
    cases hboth with
    | ok hpost => exact hpost
  rw [Search.seek_run _ hrun, Search.seek_run f.second hrun']
  cases known' with
  | true =>
    have hopened := h.opened hw he.grows.dimension_eq
    have hproceed := hopened.proceed hf (congrArg Pairing.lead h.pairing_eq) h.gradient_eq
    exact hproceed.mono fun _ _ _ _ hpost => ⟨hpost.1, hpost.2.ends⟩
  | false => exact .ok ⟨rfl, h.unevaluated_ends he he' hw _ _⟩

/-- Two calls that begin alike come out alike. -/
theorem computeDirection_corresponds (h : f.Meets s t) (hf : f.Fair) :
    Corresponds (fun b s' c t' => c = b ∧ f.Ends s' t') f.Ends
      (Search.computeDirection f.setting s) (Search.computeDirection f.second t) :=
  corresponds_of_seek h.wellFormed (by rw [h.workspace_eq]) (h.seek_corresponds hf)

end Meets

end Twins

end NonsmoothDescent
