import NonsmoothDescent.Proofs.Search.Moves
import NonsmoothDescent.Proofs.Workspace.Sampling
import NonsmoothDescent.Search.Direction

/-!
# Operations that leave the cuts alone

Between two solves a search notices and reports, makes and evaluates points, and samples
cuts. None of this changes the solver, the lists of cuts, the counters of solves or the
direction; the workspace only grows. From a sound state these operations succeed.
-/

namespace NonsmoothDescent

variable {α : Type} [Scalar α]

namespace Moment

/-- Solver, cuts, direction and counters are the same; the workspace may have grown. -/
structure Keeps (o : Oracle α) (m m' : Moment α) : Prop where
  solver_eq : m'.engine.solver = m.engine.solver
  fullCuts_eq : m'.engine.fullCuts = m.engine.fullCuts
  aggregatedCuts_eq : m'.engine.aggregatedCuts = m.engine.aggregatedCuts
  active_eq : m'.engine.active = m.engine.active
  switched_eq : m'.engine.switched = m.engine.switched
  solves_eq : m'.engine.solves = m.engine.solves
  direction_eq : m'.workspace.direction = m.workspace.direction
  innerIterations_eq : m'.workspace.innerIterations = m.workspace.innerIterations
  minimizerIterations_eq : m'.workspace.minimizerIterations = m.workspace.minimizerIterations
  grows : m.workspace.Grows m'.workspace
  wellFormed : m.workspace.WellFormed o → m'.workspace.WellFormed o
  trial_lt : m.workspace.trial < m.workspace.samples.size →
    m'.workspace.trial < m'.workspace.samples.size

namespace Keeps

variable {o : Oracle α} {m m' m'' : Moment α}

/-- A moment keeps itself. -/
@[refl] theorem refl (o : Oracle α) (m : Moment α) : Keeps o m m :=
  ⟨rfl, rfl, rfl, rfl, rfl, rfl, rfl, rfl, rfl, .refl _, id, id⟩

/-- What is kept in two steps is kept. -/
theorem trans (h : Keeps o m m') (h' : Keeps o m' m'') : Keeps o m m'' where
  solver_eq := h'.solver_eq.trans h.solver_eq
  fullCuts_eq := h'.fullCuts_eq.trans h.fullCuts_eq
  aggregatedCuts_eq := h'.aggregatedCuts_eq.trans h.aggregatedCuts_eq
  active_eq := h'.active_eq.trans h.active_eq
  switched_eq := h'.switched_eq.trans h.switched_eq
  solves_eq := h'.solves_eq.trans h.solves_eq
  direction_eq := h'.direction_eq.trans h.direction_eq
  innerIterations_eq := h'.innerIterations_eq.trans h.innerIterations_eq
  minimizerIterations_eq := h'.minimizerIterations_eq.trans h.minimizerIterations_eq
  grows := h.grows.trans h'.grows
  wellFormed hw := h'.wellFormed (h.wellFormed hw)
  trial_lt ht := h'.trial_lt (h.trial_lt ht)

/-- The active cuts are kept. -/
theorem activeCuts_eq (h : Keeps o m m') : m'.engine.activeCuts = m.engine.activeCuts := by
  unfold Engine.activeCuts
  rw [h.active_eq, h.fullCuts_eq, h.aggregatedCuts_eq]

/-- The solver is kept. -/
theorem solver_eq' (h : Keeps o m m') : m'.solver = m.solver := by
  unfold solver Engine.solverFor
  rw [h.solver_eq, h.grows.dimension_eq]

end Keeps

/-- The radius rule keeps solver, cuts and direction. -/
theorem keeps_asked (setting : Setting α) (m : Moment α) :
    Keeps setting.oracle m (m.asked setting) := by
  refine ⟨rfl, rfl, rfl, rfl, rfl, rfl, rfl, rfl, rfl, .of_eq rfl rfl rfl rfl, fun hw => ?_, id⟩
  exact ⟨hw.dimension_eq, hw.length_position, hw.faithful, hw.current_lt, hw.bundle_lt⟩

/-- What every operation of a search relies on. -/
structure Sound (o : Oracle α) (m : Moment α) : Prop where
  wellFormed : m.workspace.WellFormed o
  /-- The objective is known at the current point. -/
  objective : ∃ value, m.workspace.currentSample.objective.value? = some value
  /-- So is the gradient. -/
  gradient : ∃ slope, m.workspace.currentSample.gradient.value? = some slope
  trial_lt : m.workspace.trial < m.workspace.samples.size

namespace Sound

variable {o : Oracle α} {m m' : Moment α}

/-- A sound moment stays so. -/
theorem keeps (h : Sound o m) (hk : Keeps o m m') : Sound o m' where
  wellFormed := hk.wellFormed h.wellFormed
  objective := by
    obtain ⟨value, hv⟩ := h.objective
    exact ⟨value, (hk.grows.currentSample h.wellFormed.current_lt).objective_value? hv⟩
  gradient := by
    obtain ⟨slope, hg⟩ := h.gradient
    exact ⟨slope, (hk.grows.currentSample h.wellFormed.current_lt).gradient_value? hg⟩
  trial_lt := hk.trial_lt h.trial_lt

/-- The current point has one entry per variable. -/
theorem length_current (h : Sound o m) :
    m.workspace.currentSample.position.length = m.workspace.dimension :=
  h.wellFormed.length_position _ h.wellFormed.current_lt

/-- The plane at the current point. -/
theorem exists_current (h : Sound o m) :
    ∃ plane : Plane α, m.workspace.CurrentPlane plane := by
  obtain ⟨value, hv⟩ := h.objective
  obtain ⟨slope, hg⟩ := h.gradient
  exact ⟨⟨slope, value⟩, hg, hv⟩

end Sound

end Moment

/-- Nothing happened that the journal, the radii or the rule would know of. -/
structure Quiet (o : Oracle α) (s s' : SearchState α) : Prop extends
    Moment.Keeps o s.toMoment s'.toMoment where
  journal_eq : s'.journal = s.journal
  radii_eq : s'.workspace.radii = s.workspace.radii
  ruleRecord_eq : s'.engine.ruleRecord = s.engine.ruleRecord

namespace Quiet

variable {o : Oracle α} {s s' s'' : SearchState α}

/-- A state is quiet to itself. -/
@[refl] theorem refl (o : Oracle α) (s : SearchState α) : Quiet o s s :=
  ⟨.refl o _, rfl, rfl, rfl⟩

/-- Two quiet changes make one. -/
theorem trans (h : Quiet o s s') (h' : Quiet o s' s'') : Quiet o s s'' where
  toKeeps := h.toKeeps.trans h'.toKeeps
  journal_eq := h'.journal_eq.trans h.journal_eq
  radii_eq := h'.radii_eq.trans h.radii_eq
  ruleRecord_eq := h'.ruleRecord_eq.trans h.ruleRecord_eq

/-- Changes of the workspace by evaluations. -/
theorem of_evaluates {w : Workspace α} (h : Workspace.Evaluates o s.workspace w) :
    Quiet o s { s with workspace := w } := by
  obtain ⟨_, _, _, _, he⟩ := h.eq
  refine ⟨⟨rfl, rfl, rfl, rfl, rfl, rfl, ?_, ?_, ?_, h.grows, h.wellFormed, fun ht => ?_⟩, rfl,
    h.radii_eq, rfl⟩
  · change w.direction = _
    rw [he]
  · change w.innerIterations = _
    rw [he]
  · change w.minimizerIterations = _
    rw [he]
  · change w.trial < w.samples.size
    rw [h.trial_eq, h.size_eq]
    exact ht

/-- A new trial point. -/
theorem of_withTrial (s : SearchState α) (t : α)
    (hd : s.workspace.direction.length = s.workspace.dimension) :
    Quiet o s { s with workspace := s.workspace.withTrial t } :=
  ⟨⟨rfl, rfl, rfl, rfl, rfl, rfl, rfl, rfl, rfl, s.workspace.withTrial_grows t,
    fun hw => Workspace.withTrial_wellFormed hw t hd,
    fun _ => s.workspace.withTrial_trial_lt t⟩, rfl, rfl, rfl⟩

/-- A new place in the bundle. -/
theorem of_bundled (s : SearchState α) {id : SampleId} (hid : id < s.workspace.samples.size) :
    Quiet o s { s with workspace := s.workspace.bundled id } :=
  ⟨⟨rfl, rfl, rfl, rfl, rfl, rfl, rfl, rfl, rfl, s.workspace.bundled_grows id,
    fun hw => Workspace.bundled_wellFormed hw hid, fun ht => ht⟩, rfl, rfl, rfl⟩

end Quiet

/-- Only notices, clock readings and the report have changed. -/
def Logs (s s' : SearchState α) : Prop :=
  ∃ notices clockReadings report, s' = { s with
    workspace := { s.workspace with notices := notices, clockReadings := clockReadings }
    engine := { s.engine with report := report } }

namespace Logs

variable {s s' : SearchState α}

/-- Writing notices and reading the clock is quiet. -/
theorem quiet (h : Logs s s') (o : Oracle α) : Quiet o s s' := by
  obtain ⟨_, _, _, rfl⟩ := h
  refine ⟨⟨rfl, rfl, rfl, rfl, rfl, rfl, rfl, rfl, rfl, .of_eq rfl rfl rfl rfl, fun hw => ?_,
    fun ht => ht⟩, rfl, rfl, rfl⟩
  exact ⟨hw.dimension_eq, hw.length_position, hw.faithful, hw.current_lt, hw.bundle_lt⟩

/-- Notices leave the bundle. -/
theorem bundle_eq (h : Logs s s') : s'.workspace.bundle = s.workspace.bundle := by
  obtain ⟨_, _, _, rfl⟩ := h
  rfl

/-- Notices leave the number of the trial point. -/
theorem trial_eq (h : Logs s s') : s'.workspace.trial = s.workspace.trial := by
  obtain ⟨_, _, _, rfl⟩ := h
  rfl

/-- Notices leave the trial point. -/
theorem trialSample_eq (h : Logs s s') :
    s'.workspace.trialSample = s.workspace.trialSample := by
  obtain ⟨_, _, _, rfl⟩ := h
  rfl

end Logs

/-- The figures that a report line shows of a moment. -/
def Moment.figures (m : Moment α) : Figures α := Search.figures m.workspace m.engine

/-- The lines of a round whose step was rejected, in a report with so many lines before. -/
def Setting.roundLines (setting : Setting α) (lines : Nat) (m : Moment α) :
    List (LineKind × ProgressLine α) :=
  (.innerIteration, .inner m.figures) ::
    if (setting.rule.blankAfter (lines + 1)).isEmpty then []
    else [(.innerIteration, .blank (setting.rule.blankAfter (lines + 1)))]

namespace Search

section Logging

/-- Notices are written. -/
theorem note_leads (notices : List (Notice α)) (s : SearchState α) :
    Leads (note notices) s fun _ s' => Logs s s' :=
  ⟨(), _, rfl, _, _, _, rfl⟩

/-- Buffered lines are emitted as notices. -/
theorem flushReport_leads (s : SearchState α) : Leads flushReport s fun _ s' => Logs s s' :=
  ⟨(), _, rfl, _, _, _, rfl⟩

/-- A report of a round adds its lines to those that wait. -/
theorem reportRound_run (setting : Setting α) (s : SearchState α) :
    reportRound setting s = .ok () (s.withEngine fun e => { e with
      report := { e.report with
        pending := e.report.pending ++ setting.roundLines e.report.size s.toMoment } }) := by
  let line : ProgressLine α := .inner (figures s.workspace s.engine)
  let t : SearchState α := s.withEngine fun e =>
    { e with report := e.report.add .innerIteration line }
  have hreport : report .innerIteration line s = .ok () t := rfl
  have hsize : t.engine.report.size = s.engine.report.size + 1 :=
    congrArg (s.engine.report.lines.size + ·) (Array.size_push _)
  unfold reportRound Setting.roundLines SearchState.withEngine
  rw [bind_of_ok (workspace_run s), bind_of_ok (engine_run s), bind_of_ok hreport,
    bind_of_ok (engine_run t), hsize]
  beta_reduce
  cases (setting.rule.blankAfter (s.engine.report.size + 1)).isEmpty <;> rfl

/-- A round is reported by notices. -/
theorem reportRound_leads (setting : Setting α) (s : SearchState α) :
    Leads (reportRound setting) s fun _ s' => Logs s s' :=
  ⟨(), _, reportRound_run setting s, _, _, _, rfl⟩

/-- Reading the clock changes its count of readings alone. -/
theorem elapsed_leads (clock : Nat → α) (s : SearchState α) :
    Leads (onWorkspace (Workspace.elapsed clock)) s fun _ s' => Logs s s' :=
  ⟨_, _, rfl, _, _, _, rfl⟩

end Logging

section Points

variable {setting : Setting α} {s : SearchState α}

/-- Makes a trial point with a stepsize and evaluates it. -/
def tryStep (setting : Setting α) (stepsize : α) : SearchM α Bool := do
  onWorkspace (Workspace.makeTrial stepsize)
  onWorkspace (Workspace.evaluateTrial setting.oracle)

/-- Evaluating the trial point is quiet, and leaves trial point and bundle. -/
theorem evaluateTrial_leads (hs : s.Sound setting.oracle) :
    Leads (onWorkspace (Workspace.evaluateTrial setting.oracle)) s fun evaluated s' =>
      Quiet setting.oracle s s' ∧ s'.workspace.trial = s.workspace.trial ∧
        s'.workspace.bundle = s.workspace.bundle ∧
        (evaluated = true ↔ s'.workspace.TrialEvaluated) := by
  obtain ⟨known, w, hr, he, hknown⟩ :=
    Workspace.evaluateTrial_leads (o := setting.oracle) hs.trial_lt
  exact ⟨known, _, onWorkspace_ok hr, .of_evaluates he, he.trial_eq, he.bundle_eq, hknown⟩

/-- What is known when a round has begun and evaluated its trial point. -/
theorem begun_of_run {s₁ s₂ : SearchState α} {evaluated : Bool} (hs : s.Sound setting.oracle)
    (hflush : flushReport (s.logged .roundBegan) = .ok () s₁)
    (hevaluate : onWorkspace (Workspace.evaluateTrial setting.oracle) s₁ = .ok evaluated s₂) :
    Quiet setting.oracle (s.logged .roundBegan) s₂ ∧
      s₂.workspace.trial = s.workspace.trial ∧ s₂.workspace.bundle = s.workspace.bundle ∧
      (evaluated = true ↔ s₂.workspace.TrialEvaluated) := by
  have hlogs := (flushReport_leads _).of_run hflush
  have hquiet := hlogs.quiet setting.oracle
  have hs₁ : s₁.Sound setting.oracle := hs.keeps hquiet.toKeeps
  obtain ⟨hq, htrial, hbundle, hevaluated⟩ := (evaluateTrial_leads hs₁).of_run hevaluate
  exact ⟨hquiet.trans hq, htrial.trans hlogs.trial_eq, hbundle.trans hlogs.bundle_eq, hevaluated⟩

/-- Trying a step is quiet: the trial point is the current one moved by the step. -/
theorem tryStep_leads (hs : s.Sound setting.oracle) (stepsize : α)
    (hd : s.workspace.direction.length = s.workspace.dimension) :
    Leads (tryStep setting stepsize) s fun evaluated s' =>
      Quiet setting.oracle s s' ∧
        s'.workspace.trialSample.position =
          (s.workspace.currentSample.moved stepsize s.workspace.direction).position ∧
        s'.workspace.bundle = s.workspace.bundle ∧
        (evaluated = true ↔ s'.workspace.TrialEvaluated) := by
  have hmake := onWorkspace_ok (Workspace.makeTrial_eq stepsize hs.length_current hd)
  have hquiet : Quiet setting.oracle s
      { s with workspace := s.workspace.withTrial stepsize } := .of_withTrial s stepsize hd
  have hs' := hs.keeps hquiet.toKeeps
  obtain ⟨evaluated, s', hr, hq, ht, hb, hknown⟩ := evaluateTrial_leads hs'
  refine ⟨evaluated, s', ?_, hquiet.trans hq, ?_, hb, hknown⟩
  · unfold tryStep
    rw [bind_of_ok hmake, hr]
  · rw [Workspace.trialSample, ht, (hq.grows.refines _ hs'.trial_lt).position_eq]
    exact congrArg Sample.position (Workspace.trialSample_withTrial s.workspace stepsize)

/-- Evaluating a gradient is quiet and leaves the bundle. -/
theorem evaluateGradient_leads (setting : Setting α) {id : SampleId}
    (hid : id < s.workspace.samples.size) (counted : Bool) :
    Leads (onWorkspace (Workspace.evaluateGradient setting.oracle id counted)) s fun known s' =>
      Quiet setting.oracle s s' ∧ s'.workspace.bundle = s.workspace.bundle ∧
        known = (s'.workspace.sampleAt id).gradient.isKnown := by
  obtain ⟨known, w, hr, he, hknown⟩ :=
    Workspace.evaluateGradient_leads (o := setting.oracle) hid counted
  exact ⟨known, _, onWorkspace_ok hr, .of_evaluates he, he.bundle_eq, hknown⟩

/-- Evaluating objective and gradient is quiet and leaves the bundle. -/
theorem evaluateBoth_leads (setting : Setting α) {id : SampleId}
    (hid : id < s.workspace.samples.size) (counted : Bool) :
    Leads (onWorkspace (Workspace.evaluateBoth setting.oracle id counted)) s fun known s' =>
      Quiet setting.oracle s s' ∧ s'.workspace.bundle = s.workspace.bundle ∧
        (known = true ↔ (s'.workspace.sampleAt id).objective.isKnown = true ∧
          (s'.workspace.sampleAt id).gradient.isKnown = true) := by
  obtain ⟨known, w, hr, he, hknown⟩ :=
    Workspace.evaluateBoth_leads (o := setting.oracle) hid counted
  exact ⟨known, _, onWorkspace_ok hr, .of_evaluates he, he.bundle_eq, hknown⟩

/-- A point in the bundle at which both objective and gradient are known has a cut. -/
theorem exists_samples (hs : s.Sound setting.oracle) {place : Nat} {id : SampleId}
    (hplace : s.workspace.bundle[place]? = some id)
    (ho : (s.workspace.sampleAt id).objective.isKnown = true)
    (hg : (s.workspace.sampleAt id).gradient.isKnown = true) :
    ∃ cut plane,
      Cut.atPoint (s.workspace.sampleAt id) s.workspace.currentSample place
        setting.options.downshift = .ok cut ∧
      cut.Samples setting.options.downshift s.workspace place id plane := by
  obtain ⟨value, hv⟩ := Workspace.isKnown_iff.mp ho
  obtain ⟨slope, hslope⟩ := Workspace.isKnown_iff.mp hg
  obtain ⟨currentValue, hcurrent⟩ := hs.objective
  have hplane : (s.workspace.sampleAt id).plane? setting.options.downshift
      s.workspace.currentSample = some _ :=
    Sample.plane?_eq_some_iff.mpr ⟨slope, value, currentValue, hslope, hv, hcurrent, rfl⟩
  have hsamples : Cut.Samples setting.options.downshift s.workspace place id _ _ :=
    ⟨hplace, hplane, rfl⟩
  have hposition := hs.wellFormed.length_position id
    (hs.wellFormed.bundle_lt id hsamples.mem_bundle)
  refine ⟨_, _, Cut.atPoint_of_plane? hplane place ?_ ?_, hsamples⟩
  · rw [hs.length_current, hposition]
  · rw [hsamples.length_slope hs.wellFormed, hposition]

/-- A cut at the trial point comes with one new place in the bundle, which it samples. -/
theorem trialCut_leads (hs : s.Sound setting.oracle) {evaluated : Bool}
    (he : evaluated = true → s.workspace.trialSample.objective.isKnown = true) :
    Leads (trialCut setting evaluated) s fun cuts s' =>
      Quiet setting.oracle s s' ∧
      s'.workspace.bundle.size = s.workspace.bundle.size + cuts.length ∧
      (cuts = [] ∨ ∃ cut plane, cuts = [cut] ∧
        cut.Samples setting.options.downshift s'.workspace s.workspace.bundle.size
          s.workspace.trial plane) := by
  cases evaluated with
  | false => exact ⟨[], s, rfl, .refl _ s, rfl, .inl rfl⟩
  | true =>
    obtain ⟨known, s₁, hr, hq, hb, hknown⟩ :=
      evaluateGradient_leads setting hs.trial_lt true
    unfold Leads trialCut
    rw [if_neg (by simp), bind_of_ok (workspace_run s), bind_of_ok hr]
    cases known with
    | false => exact ⟨[], s₁, rfl, hq, congrArg Array.size hb, .inl rfl⟩
    | true =>
      let s₂ : SearchState α := { s₁ with workspace := s₁.workspace.bundled s.workspace.trial }
      have hid : s.workspace.trial < s₁.workspace.samples.size :=
        Nat.lt_of_lt_of_le hs.trial_lt hq.grows.size_le
      have hq₂ : Quiet setting.oracle s s₂ := hq.trans (.of_bundled s₁ hid)
      have hplace : s₂.workspace.bundle[s.workspace.bundle.size]? = some s.workspace.trial := by
        change (s₁.workspace.bundle.push s.workspace.trial)[s.workspace.bundle.size]? = _
        rw [← hb, Array.getElem?_push_size]
      obtain ⟨value, hv⟩ := Workspace.isKnown_iff.mp (he rfl)
      have ho := Workspace.isKnown_iff.mpr
        ⟨value, (hq.grows.refines _ hs.trial_lt).objective_value? hv⟩
      obtain ⟨cut, plane, hcut, hsamples⟩ :=
        exists_samples (hs.keeps hq₂.toKeeps) hplace ho hknown.symm
      have hsize : s₂.workspace.bundle.size = s.workspace.bundle.size + 1 := by
        rw [← hb]
        exact Array.size_push _
      refine ⟨[cut], s₂, ?_, hq₂, hsize, .inr ⟨cut, plane, rfl, hsamples⟩⟩
      rw [if_neg (by simp)]
      rw [← hb] at hcut
      change (orFault (Cut.atPoint (s₂.workspace.sampleAt s.workspace.trial)
        s₂.workspace.currentSample s₁.workspace.bundle.size setting.options.downshift) >>=
        fun cut => pure [cut]) s₂ = _
      rw [bind_of_ok (orFault_ok hcut)]
      rfl

/-- A near place gives at most one cut, which samples it. -/
theorem nearCut_leads (hs : s.Sound setting.oracle) (place : Nat) :
    Leads (nearCut setting place) s fun cuts s' =>
      Quiet setting.oracle s s' ∧ s'.workspace.bundle = s.workspace.bundle ∧
        (cuts = [] ∨ ∃ id cut plane, cuts = [cut] ∧
          cut.Samples setting.options.downshift s'.workspace place id plane) := by
  unfold Leads nearCut
  rw [bind_of_ok (workspace_run s)]
  cases hplace : s.workspace.bundle[place]? with
  | none => exact ⟨[], s, rfl, .refl _ s, rfl, .inl rfl⟩
  | some id =>
    have hid : id < s.workspace.samples.size :=
      hs.wellFormed.bundle_lt id (Array.mem_toList_iff.mpr (Array.mem_of_getElem? hplace))
    obtain ⟨known, s₁, hr, hq, hb, hknown⟩ :=
      evaluateBoth_leads setting hid true
    dsimp only
    rw [bind_of_ok hr]
    cases known with
    | false => exact ⟨[], s₁, rfl, hq, hb, .inl rfl⟩
    | true =>
      obtain ⟨cut, plane, hcut, hsamples⟩ := exists_samples (hs.keeps hq.toKeeps)
        (hb ▸ hplace) (hknown.mp rfl).1 (hknown.mp rfl).2
      refine ⟨[cut], s₁, ?_, hq, hb, .inr ⟨id, cut, plane, rfl, hsamples⟩⟩
      rw [if_pos rfl, bind_of_ok (workspace_run s₁), bind_of_ok (orFault_ok hcut)]
      rfl

/-- What is collected are the given cuts, and cuts that sample some of the places. -/
theorem foldlM_nearCut_leads (places : List Nat) (cuts : List (Cut α))
    (hs : s.Sound setting.oracle) :
    Leads (places.foldlM (fun cuts place => do return cuts ++ (← nearCut setting place)) cuts) s
      fun all s' => Quiet setting.oracle s s' ∧ s'.workspace.bundle = s.workspace.bundle ∧
        ∃ found, all = cuts ++ found ∧ ∀ cut ∈ found, ∃ place ∈ places, ∃ id plane,
          cut.Samples setting.options.downshift s'.workspace place id plane := by
  induction places generalizing s cuts with
  | nil =>
    exact ⟨cuts, s, rfl, .refl _ s, rfl, [], (List.append_nil cuts).symm,
      fun cut hcut => absurd hcut List.not_mem_nil⟩
  | cons place places ih =>
    obtain ⟨new, s₁, hr, hq, hb, hnew⟩ := nearCut_leads hs place
    obtain ⟨all, s₂, hr', hq', hb', found, rfl, hfound⟩ := ih (cuts ++ new) (hs.keeps hq.toKeeps)
    refine ⟨cuts ++ new ++ found, s₂, ?_, hq.trans hq', hb'.trans hb, new ++ found,
      List.append_assoc .., fun cut hcut => ?_⟩
    · rw [List.foldlM_cons]
      change ((nearCut setting place >>= fun new => pure (cuts ++ new)) >>= _) s = _
      have hfirst : (nearCut setting place >>= fun new =>
          (pure (cuts ++ new) : SearchM α _)) s = .ok (cuts ++ new) s₁ := by
        rw [bind_of_ok hr]
        rfl
      rw [bind_of_ok hfirst, hr']
    · rcases List.mem_append.mp hcut with h | h
      · rcases hnew with rfl | ⟨id, cut', plane, rfl, hsamples⟩
        · simp at h
        · rw [List.mem_singleton.mp h]
          exact ⟨place, List.mem_cons_self, id, plane,
            hsamples.grows (hs.keeps hq.toKeeps).wellFormed hq'.grows⟩
      · obtain ⟨place', hplace', hrest⟩ := hfound cut h
        exact ⟨place', List.mem_cons_of_mem _ hplace', hrest⟩

/-- The collected cuts are the one at the current point and cuts that sample near points. -/
theorem collectCuts_leads (hs : s.Sound setting.oracle) :
    Leads (collectCuts setting) s fun cuts s' =>
      Quiet setting.oracle s s' ∧ s'.workspace.bundle = s.workspace.bundle ∧
        ∃ plane : Plane α, s.workspace.CurrentPlane plane ∧
          ∃ found, cuts = plane.toCut :: found ∧
            ∀ cut ∈ found, ∃ place id plane,
              cut.Samples setting.options.downshift s'.workspace place id plane ∧
              Cut.isNear s.workspace.currentSample.position s.workspace.radii.stationarity
                (s'.workspace.sampleAt id) = true := by
  have hlength : ∀ p ∈ s.workspace.points,
      s.workspace.currentSample.position.length = p.position.length := by
    intro p hp
    obtain ⟨id, hid, rfl⟩ := List.mem_map.mp hp
    rw [hs.length_current, hs.wellFormed.length_position id (hs.wellFormed.bundle_lt id hid)]
  have hnear := Cut.near_eq s.workspace.radii.stationarity hlength
  obtain ⟨plane, hcurrent⟩ := hs.exists_current
  obtain ⟨all, s', hr, hq, hb, found, hall, hfound⟩ :=
    foldlM_nearCut_leads _ [plane.toCut] hs
  refine ⟨all, s', ?_, hq, hb, plane, hcurrent, found, hall, fun cut hcut => ?_⟩
  · unfold collectCuts
    rw [bind_of_ok (workspace_run s), bind_of_ok (orFault_ok hcurrent.atCurrent_eq),
      bind_of_ok (orFault_ok hnear), hr]
  · obtain ⟨place, hplace, id, plane', hsamples⟩ := hfound cut hcut
    refine ⟨place, id, plane', hsamples, ?_⟩
    obtain ⟨⟨point, place'⟩, hpoint, rfl⟩ := List.mem_map.mp hplace
    obtain ⟨hmem, hisNear⟩ := List.mem_filter.mp hpoint
    have hget := List.mem_zipIdx_iff_getElem?.mp hmem
    have hid := hsamples.id_eq
    rw [hb] at hid
    have hbundle : s.workspace.bundle.toList[place']? = some id := by
      rw [Array.getElem?_toList, hid]
    rw [Workspace.points, List.getElem?_map, hbundle] at hget
    cases hget
    have hlt := hs.wellFormed.bundle_lt id (List.mem_of_getElem? hbundle)
    rw [Cut.isNear, (hq.grows.refines id hlt).position_eq]
    exact hisNear

end Points

/-- Aggregation has put two cuts in place of the aggregated ones: the cut at the current
point, and the combination of the solver's planes. -/
def Aggregated (s s' : SearchState α) : Prop :=
  ∃ (current : Plane α) (s₁ : SearchState α), s.workspace.CurrentPlane current ∧ Logs s s₁ ∧
    Cut.DenoteAll s.workspace [current.toCut, s.combined.toCut] [current, s.combined] ∧
    s' = s₁.withEngine (·.replaceAggregated [current.toCut, s.combined.toCut])

/-- Where the solver's planes are those of the aggregated cuts, aggregation does this. -/
theorem aggregate_leads {o : Oracle α} {s : SearchState α} (hs : s.Sound o)
    (hplanes : Cut.DenoteAll s.workspace s.engine.aggregatedCuts s.solver.subproblem.planes)
    (hweights : s.solver.weights.length = s.engine.aggregatedCuts.length) :
    Leads aggregate s fun _ s' => Aggregated s s' := by
  obtain ⟨current, hcurrent⟩ := hs.exists_current
  have haggregate := Cut.aggregate_eq hplanes hweights hs.length_current
    hcurrent.gradient_eq hcurrent.objective_eq
  have hcombined := Cut.denotes_owned s.workspace
    (Subproblem.length_slope_mix hplanes.length_slope s.solver.weights)
  let s₁ : SearchState α := { s with
    workspace := { s.workspace with
      notices := s.workspace.notices ++ [Notice.aggregated s.engine.aggregatedCuts.length
        s.solver.weights s.combined.slope] } }
  refine ⟨(), _, ?_, current, s₁, hcurrent, ⟨_, _, _, rfl⟩,
    .cons (hcurrent.denotes hs.wellFormed) (.cons (hcombined _) .nil), rfl⟩
  unfold aggregate
  rw [bind_of_ok (workspace_run s), bind_of_ok (engine_run s), bind_of_ok (solver_run s),
    bind_of_ok (orFault_ok haggregate)]
  rfl

end Search

end NonsmoothDescent
