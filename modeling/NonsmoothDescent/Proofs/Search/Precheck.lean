import NonsmoothDescent.Proofs.Search.Budget
import NonsmoothDescent.Proofs.Search.Endings
import NonsmoothDescent.Proofs.Search.Succession

/-!
# Gradient steps that are refused

A gradient step solves with the cut at the current point alone, makes two trial points and
evaluates the second one. If the step is refused, all that it leaves behind are these two
points, one inner iteration, one evaluation of the objective and perhaps one of the
gradient: the minimizer is not asked for a single plane, the radii stay, and solver and
direction are replaced by the next solve. So a search with a gradient step that is refused
goes on like one without, and ends like it if it may make one inner iteration more.
-/

namespace NonsmoothDescent

variable {α : Type} [Scalar α]

/-- A solve for which the minimizer is not asked and which leaves the solver set up as it
was. -/
structure Solver.SolvesAlone (s : Solver α) (made : Solver.Solved α) : Prop where
  consultation_eq : made.consultation = none
  iterations_eq : made.solver.iterations = 0
  setup_eq : made.solver.setup = s.setup

/-- A single plane is no question for the minimizer. -/
theorem Solver.solveBy_single {s : Solver α} (hcuts : s.cuts = 1) (hdrill : s.drill = none)
    (warm : Bool) (ask : Request α → Answer α) : s.SolvesAlone (s.solveBy warm ask) := by
  rw [s.solveBy_of_drill_eq_none warm ask hdrill]
  unfold solveFrom
  rw [if_neg (by omega), if_pos hcuts]
  split <;> exact ⟨rfl, rfl, rfl⟩

namespace Workspace

variable {o : Oracle α} {w v : Workspace α}

/-- Another workspace of the same run in which two more points have been made, one inner
iteration counted and one objective evaluated, all without consequence for the bundle. -/
structure Detour (w v : Workspace α) : Prop where
  workspace_eq : v = { w with
    samples := v.samples
    trial := v.trial
    direction := v.direction
    innerIterations := w.innerIterations + 1
    objectiveEvaluations := w.objectiveEvaluations + 1
    gradientEvaluations := v.gradientEvaluations
    notices := v.notices }
  size_eq : v.samples.size = w.samples.size + 2
  sampleAt_eq : ∀ id < w.samples.size, v.sampleAt id = w.sampleAt id
  gradients_le : w.gradientEvaluations ≤ v.gradientEvaluations

/-- Evaluating the trial point is evaluating the objective there, and perhaps the gradient. -/
theorem evaluateTrial_cases {known : Bool} (hr : evaluateTrial o w = .ok known v) :
    v = w.withObjective o w.trial ∨
      v = (w.withObjective o w.trial).withGradient o w.trial := by
  have hsplit : evaluateTrial o w =
      (if w.jointEvaluation then evaluateBoth o w.trial true
        else evaluateObjective o w.trial true) w := rfl
  have hobjective := evaluateObjective_run o w.trial w
  have hgradient := evaluateGradient_run o w.trial (w.withObjective o w.trial)
  rw [hsplit] at hr
  split at hr
  · unfold evaluateBoth at hr
    rw [bind_of_ok hobjective] at hr
    split at hr
    · rw [hgradient] at hr
      cases hr
      exact .inr rfl
    · cases hr
      exact .inl rfl
  · rw [hobjective] at hr
    cases hr
    exact .inl rfl

/-- At a new trial point the objective is evaluated, perhaps the gradient too, and nothing
else happens. -/
theorem evaluateTrial_new {known : Bool} (hnew : w.trialSample.objective = .pending)
    (hlt : w.trial < w.samples.size) (hr : evaluateTrial o w = .ok known v) :
    v = { w with
      samples := v.samples
      objectiveEvaluations := w.objectiveEvaluations + 1
      gradientEvaluations := v.gradientEvaluations
      notices := v.notices } ∧
    v.samples.size = w.samples.size ∧ (∀ id, id ≠ w.trial → v.sampleAt id = w.sampleAt id) ∧
    w.gradientEvaluations ≤ v.gradientEvaluations := by
  have hcount : (w.withObjective o w.trial).objectiveEvaluations = w.objectiveEvaluations + 1 := by
    change (if (w.sampleAt w.trial).objective.isPending then _ else _) = _
    exact if_pos (Evaluation.isPending_iff.mpr hnew)
  have hobjective := replaces_withObjective (o := o) hlt
  have hsame : ∀ id, id ≠ w.trial → (w.withObjective o w.trial).sampleAt id = w.sampleAt id :=
    fun id hid => (hobjective.sampleAt_eq id).trans (if_neg hid)
  rcases evaluateTrial_cases hr with rfl | rfl
  · refine ⟨?_, hobjective.size_eq, hsame, Nat.le_refl _⟩
    rw [← hcount]
    rfl
  · have hgradient := replaces_withGradient (o := o) (hobjective.size_eq.symm ▸ hlt)
    refine ⟨?_, hgradient.size_eq.trans hobjective.size_eq, fun id hid => ?_, ?_⟩
    · rw [← hcount]
      rfl
    · exact ((hgradient.sampleAt_eq id).trans (if_neg hid)).trans (hsame id hid)
    · rw [gradientEvaluations_withGradient]
      exact Nat.le_add_right _ _

/-- A step taken for a solve without iterations, a second trial point along it and the
evaluation of this point are a detour. -/
theorem detour_of_trials {solver : Solver α} {notices : Array (Notice α)} {stepsize : α}
    {known : Bool} (hiterations : solver.iterations = 0)
    (hr : evaluateTrial o ((Moment.stepped { w with notices } solver).withTrial stepsize) =
      .ok known v) : Detour w v := by
  let first : Workspace α := Moment.stepped { w with notices } solver
  have hnew : (first.withTrial stepsize).trialSample.objective = .pending := by
    rw [trialSample_withTrial]
    rfl
  have hsize₁ : first.samples.size = w.samples.size + 1 := Array.size_push _
  have hsize₂ : (first.withTrial stepsize).samples.size = first.samples.size + 1 :=
    Array.size_push _
  obtain ⟨hv, hsize, hsame, hgradients⟩ :=
    evaluateTrial_new hnew (first.withTrial_trial_lt stepsize) hr
  refine ⟨?_, by omega, fun id hid => ?_, hgradients⟩
  · have htrial : v.trial = first.samples.size := by
      rw [hv]
      rfl
    have hdirection : v.direction = solver.step := by
      rw [hv]
      rfl
    refine hv.trans ?_
    rw [htrial, hdirection]
    unfold first withTrial Moment.stepped Moment.directed
    rw [hiterations, Int.add_zero]
    rfl
  · have htrial : id ≠ (first.withTrial stepsize).trial := by
      change id ≠ first.samples.size
      omega
    have hfirst : (first.withTrial stepsize).sampleAt id = first.sampleAt id :=
      sampleAt_push_of_lt (hsize₁ ▸ Nat.lt_succ_of_lt hid)
    exact (hsame id htrial).trans (hfirst.trans (sampleAt_push_of_lt hid))

/-- How far a run is ahead after a detour. -/
def detour (w v : Workspace α) : Pairing where
  old := w.samples.size
  gap := 2
  lead := 1
  objectives := 1
  gradients := v.gradientEvaluations - w.gradientEvaluations

/-- After a detour the workspace matches the one without. -/
theorem Detour.matches (h : Detour w v) (hw : w.WellFormed o) :
    Matches o (detour w v) False w v := by
  have hrename : ∀ id < w.samples.size, (detour w v).rename id = id := fun id hid => if_pos hid
  have hcurrent : v.current = w.current := by rw [h.workspace_eq]
  have hbundle : v.bundle = w.bundle := by rw [h.workspace_eq]
  refine ⟨⟨hw.dimension_eq, Nat.le_refl _, h.size_eq, fun id hid => ?_, hw.current_lt, hw.bundle_lt,
    ?_, ?_, ?_, fun id hid => ?_⟩, ?_, False.elim⟩
  · rw [hrename id hid, h.sampleAt_eq id hid]
    exact .refl _ ((hw.length_position id hid).trans hw.dimension_eq.symm) (hw.faithful id hid)
  · rw [hcurrent, hrename _ hw.current_lt]
  · rw [hbundle]
    refine (Array.map_id _).symm.trans (Array.map_congr_left fun id hid => ?_)
    exact (hrename id (hw.bundle_lt id (Array.mem_toList_iff.mpr hid))).symm
  · rw [currentSample, hcurrent]
    exact h.sampleAt_eq _ hw.current_lt
  · rw [hrename id (hw.bundle_lt id hid)]
    exact h.sampleAt_eq id (hw.bundle_lt id hid)
  · have hgradients := (Nat.add_sub_of_le h.gradients_le).symm
    rw [h.workspace_eq]
    exact ⟨rfl, rfl, rfl, rfl, fun hlead => absurd hlead Nat.one_ne_zero, rfl, rfl,
      fun _ => hgradients, Bool.noConfusion, fun _ => rfl, Bool.noConfusion, rfl, rfl, rfl, rfl⟩

end Workspace

/-- The same setting with a gradient step, and with one inner iteration more to make. -/
def Setting.prechecked (setting : Setting α) : Setting α :=
  { setting with
    options := { setting.options with
      tryGradientStep := true
      iterationLimit := setting.options.iterationLimit + 1 } }

/-- The acceptance tests among events, each with whether the trial point was evaluated. -/
def testsOf (events : List (Event α)) : List (Moment α × Bool) :=
  events.filterMap fun
    | .tested m evaluated => some (m, evaluated)
    | _ => none

/-- The first acceptance test of a search, that of its gradient step, does not accept it. -/
def RefusesGradientStep (setting : Setting α) (s : SearchState α) : Prop :=
  ∃ m evaluated, (testsOf s.journal.toList).head? = some (m, evaluated) ∧
    m.accepting setting evaluated setting.options.gradientStepsize = false

/-- What a refused gradient step leaves behind: a detour of the workspace, one solve, and one
question to the radius rule. -/
structure Detours (s t : SearchState α) : Prop where
  workspace : s.workspace.Detour t.workspace
  engine_eq : t.engine = { s.engine with
    solver := t.engine.solver
    active := t.engine.active
    solves := s.engine.solves + 1
    ruleRecord := t.engine.ruleRecord }
  fits : t.engine.solver = some t.solver
  setup_eq : t.solver.setup = s.solver.setup
  consultations_eq : Search.consultations t.journal = Search.consultations s.journal

namespace Search

variable {setting : Setting α} {s : SearchState α}

/-- What is written to the journal when the minimizer was not asked. -/
theorem journal_stored {made : Solver.Solved α} (hnone : made.consultation = none)
    (s : SearchState α) :
    (s.stored made).journal = s.journal.push (.solved (s.stored made).toMoment) := by
  change (s.journal ++ (made.consultation.map Event.consulted).toList).push _ = _
  rw [hnone]
  rfl

/-- For a single plane the solver does not need the minimizer. -/
theorem resolved_single (setting : Setting α) (plane : Plane α) (active : ActiveCuts α)
    (hdrill : s.solver.drill = none) :
    ∃ made, s.solver.SolvesAlone made ∧
      s.resolved setting [plane] active = (s.on (s.loaded [plane] active)).stored made := by
  have hsolver : (s.loaded [plane] active).solver = s.solver.loaded [plane] :=
    s.solver_loaded [plane] active
  have hnone : (s.solver.loaded [plane]).drill = none := by
    change s.solver.drill.map _ = none
    rw [hdrill]
    rfl
  obtain ⟨hconsultation, hiterations, hsetup⟩ :=
    Solver.solveBy_single (s := s.solver.loaded [plane]) rfl hnone false (s.ask setting)
  have hanswer : (s.loaded [plane] active).answer setting false =
      (s.solver.loaded [plane]).solveBy false (s.ask setting) := by
    unfold Moment.answer
    rw [hsolver]
    rfl
  refine ⟨(s.loaded [plane] active).answer setting false, ⟨?_, ?_, ?_⟩, rfl⟩
  · rw [hanswer, hconsultation]
  · rw [hanswer, hiterations]
  · rw [hanswer, hsetup]
    change ({ s.solver.setup with drill := s.solver.drill.map _ } : Solver α) = _
    rw [hdrill]
    unfold Solver.setup Solver.unsolved
    rw [hdrill]
    rfl

/-- A steady rule that does not fire leaves the workspace alone. -/
theorem asked_workspace_of_steady {m : Moment α} (hsteady : setting.rule.Steady)
    (hfired : (m.asked setting).engine.ruleRecord.fired = false) :
    (m.asked setting).workspace = m.workspace := by
  have hradii : (m.asked setting).workspace.radii = m.workspace.radii := hsteady.ask_radii hfired
  have hnotices : (m.asked setting).workspace.notices = m.workspace.notices :=
    if_neg (Bool.eq_false_iff.mp hfired)
  calc (m.asked setting).workspace
      = { m.workspace with
          radii := (m.asked setting).workspace.radii
          notices := (m.asked setting).workspace.notices } := rfl
    _ = m.workspace := by rw [hradii, hnotices]

/-- A trial point made and evaluated after a single plane was solved for, and a test at which
a steady radius rule does not fire, are a detour. -/
theorem detours_of_trials (hsteady : setting.rule.Steady) {made : Solver.Solved α}
    {planes : List (Plane α)} {active : ActiveCuts α} {stepsize : α} {evaluated : Bool}
    {t₁ : SearchState α} {v : Workspace α} (halone : s.solver.SolvesAlone made)
    (hmade : t₁ = (s.on (s.loaded planes active)).stored made)
    (hr : Workspace.evaluateTrial setting.oracle (t₁.workspace.withTrial stepsize) =
      .ok evaluated v)
    (hfired : (Moment.asked setting { t₁.toMoment with workspace := v }).engine.ruleRecord.fired =
      false) :
    Detours s (({ t₁ with workspace := v } : SearchState α).tested setting evaluated) := by
  have hworkspace : s.workspace.Detour v := by
    subst hmade
    exact Workspace.detour_of_trials halone.iterations_eq hr
  let t := ({ t₁ with workspace := v } : SearchState α).tested setting evaluated
  have hv : t.workspace = v := asked_workspace_of_steady hsteady hfired
  have hdimension : made.solver.dimension = t.workspace.dimension := by
    have hsame : v.dimension = s.workspace.dimension := by rw [hworkspace.workspace_eq]
    rw [hv, hsame, ← s.dimension_solver]
    exact (congrArg Solver.dimension halone.setup_eq :)
  subst hmade
  have hsolver : t.solver = made.solver := Engine.solverFor_of_some rfl hdimension
  refine ⟨hv.symm ▸ hworkspace, ?_, congrArg some hsolver.symm, hsolver ▸ halone.setup_eq, ?_⟩
  · change ({ s.engine with
      solver := some made.solver
      active
      consultations := s.engine.consultations + (if made.consultation.isSome then 1 else 0)
      solves := s.engine.solves + 1
      ruleRecord := t.engine.ruleRecord } : Engine α) = _
    rw [halone.consultation_eq]
    rfl
  · change consultations (((s.on (s.loaded planes active)).stored made).journal.push _) = _
    rw [journal_stored halone.consultation_eq, consultations_push, consultations_push]
    exact (List.append_nil _).trans (List.append_nil _)

/-- A gradient step leads to its test, and ends the search if this is passed. -/
theorem gradientStep_eq (hbase : s.Base setting.oracle) {plane : Plane α}
    (hcurrent : s.workspace.CurrentPlane plane) {t₁ : SearchState α}
    (ht₁ : s.resolved setting [plane] (.own [plane.toCut]) = t₁) :
    ∃ evaluated v,
      Workspace.evaluateTrial setting.oracle
        (t₁.workspace.withTrial setting.options.gradientStepsize) = .ok evaluated v ∧
      ∀ t, t = ({ t₁ with workspace := v } : SearchState α).tested setting evaluated →
        gradientStep setting s =
          (if t.accepting setting evaluated setting.options.gradientStepsize = true then do
            note [.gradientStepAccepted]
            pure (some .success)
          else pure none : SearchM α (Option Outcome)) t := by
  let stepsize := setting.options.gradientStepsize
  have hplanes : Cut.DenoteAll s.workspace [plane.toCut] [plane] :=
    .cons (hcurrent.denotes hbase.wellFormed) .nil
  have hsolves := SearchState.solves_resolved (.own [plane.toCut]) hbase hplanes
  rw [ht₁] at hsolves
  obtain ⟨evaluated, v, hevaluate, -, -⟩ :=
    Workspace.evaluateTrial_leads (o := setting.oracle) (t₁.workspace.withTrial_trial_lt stepsize)
  have hmake : onWorkspace (Workspace.makeTrial stepsize) t₁ =
      .ok () { t₁ with workspace := t₁.workspace.withTrial stepsize } :=
    onWorkspace_ok (Workspace.makeTrial_eq _ hsolves.length_current hsolves.length_direction)
  have htrial : onWorkspace (Workspace.evaluateTrial setting.oracle)
      { t₁ with workspace := t₁.workspace.withTrial stepsize } =
        .ok evaluated { t₁ with workspace := v } := onWorkspace_ok hevaluate
  refine ⟨evaluated, v, hevaluate, ?_⟩
  rintro _ rfl
  unfold gradientStep
  rw [bind_of_ok (workspace_run s), bind_of_ok (orFault_ok hcurrent.atCurrent_eq),
    Search.resolve_bind hbase hplanes, ht₁, bind_of_ok hmake, bind_of_ok htrial,
    bind_of_ok (accepts_run ..)]
  rfl

/-- A gradient step either passes its test and ends the search, or is refused after a
detour. -/
theorem gradientStep_run (setting : Setting α) (hsteady : setting.rule.Steady)
    (hbase : s.Base setting.oracle) (hdrill : s.solver.drill = none) :
    ∃ evaluated t m, t.journal = (s.journal.push (.solved m)).push (.tested t.toMoment evaluated) ∧
      (t.accepting setting evaluated setting.options.gradientStepsize = true ∧
          (∃ t', t'.journal = t.journal ∧ gradientStep setting s = .ok (some .success) t') ∨
        t.accepting setting evaluated setting.options.gradientStepsize = false ∧
          Detours s t ∧ gradientStep setting s = .ok none t) := by
  obtain ⟨plane, hcurrent⟩ := hbase.exists_current
  obtain ⟨made, halone, hmade⟩ := resolved_single setting plane (.own [plane.toCut]) hdrill
  generalize ht₁ : s.resolved setting [plane] (.own [plane.toCut]) = t₁ at hmade
  obtain ⟨evaluated, v, hevaluate, hstep⟩ := gradientStep_eq hbase hcurrent ht₁
  let t := ({ t₁ with workspace := v } : SearchState α).tested setting evaluated
  have hrun := hstep t rfl
  refine ⟨evaluated, t, t₁.toMoment, ?_, ?_⟩
  · have hjournal : t₁.journal = s.journal.push (.solved t₁.toMoment) := by
      rw [hmade]
      exact journal_stored halone.consultation_eq _
    rw [← hjournal]
    rfl
  · cases haccepting : t.accepting setting evaluated setting.options.gradientStepsize with
    | true =>
      obtain ⟨t', hnote, hjournal⟩ :
          ∃ t', note [.gradientStepAccepted] t = .ok () t' ∧ t'.journal = t.journal := ⟨_, rfl, rfl⟩
      rw [haccepting, if_pos rfl, bind_of_ok hnote] at hrun
      exact .inl ⟨rfl, t', hjournal, hrun⟩
    | false =>
      rw [haccepting, if_neg Bool.false_ne_true] at hrun
      have hfired := (Bool.or_eq_false_iff.mp haccepting).2
      exact .inr ⟨rfl, detours_of_trials hsteady halone hmade hevaluate hfired, hrun⟩

end Search

section Runs

variable {setting : Setting α} {entry s t : SearchState α} {w : Workspace α}

/-- A run, and one with a detour at its beginning that may go on as much longer. -/
def Twins.prechecked (setting : Setting α) (s t : SearchState α) : Twins α where
  toPairing := s.workspace.detour t.workspace
  setting
  gradient' := true
  samePast := false
  reporting := false

/-- After the detour the runs match, one solve apart. -/
theorem Detours.matches (h : Detours s t) (setting : Setting α) (hbase : s.Base setting.oracle)
    (hnone : ¬ s.Underway) : (Twins.prechecked setting s t).Matches False s t := by
  have hworkspace := h.workspace.matches hbase.wellFormed
  have hengine := h.engine_eq
  have hdimension : t.solver.dimension = s.solver.dimension :=
    (congrArg Solver.dimension h.setup_eq :)
  refine ⟨hworkspace.imp hnone, ?_, ?_, ?_, ?_, ?_, Bool.noConfusion, Bool.noConfusion,
    Engine.solverFor_congr hbase.fits h.fits hdimension h.setup_eq, fun hs => absurd hs hnone,
    fun hs => absurd hs hnone, h.consultations_eq, Bool.noConfusion, False.elim⟩
  all_goals rw [hengine]
  rfl

namespace Search

/-- With the current point evaluated, a call may begin to solve. -/
theorem base_opened (hw : entry.workspace.WellFormed setting.oracle)
    (hrun : Workspace.evaluateBoth setting.oracle entry.workspace.current true
      entry.prepared.workspace = .ok true w) :
    (opened entry.prepared w).Base setting.oracle ∧
      (opened entry.prepared w).solver.drill = entry.solver.drill := by
  have hlt : entry.workspace.current < entry.prepared.workspace.samples.size := hw.current_lt
  have hprepared : entry.prepared.workspace.WellFormed setting.oracle := { hw with }
  obtain ⟨he, hknown⟩ :=
    (Workspace.evaluateBoth_leads (o := setting.oracle) hlt true).of_run hrun
  have hcurrent : w.current = entry.workspace.current := he.grows.current_eq
  have hsample : w.currentSample = w.sampleAt entry.workspace.current := by
    rw [Workspace.currentSample, hcurrent]
  rw [← hsample] at hknown
  have hcleared := entry.solver_prepared he.grows.dimension_eq
  have hsolver : (opened entry.prepared w).solver =
      configured { entry.prepared with workspace := w } entry.workspace.radii :=
    Engine.solverFor_of_some rfl (Moment.dimension_solver _)
  have htrial : w.trial = w.current := he.trial_eq.trans hcurrent.symm
  refine ⟨⟨⟨he.wellFormed hprepared, Workspace.isKnown_iff.mp (hknown.mp rfl).1,
    Workspace.isKnown_iff.mp (hknown.mp rfl).2, ?_⟩, congrArg some hsolver.symm,
    fun _ hcut => absurd hcut List.not_mem_nil, fun _ hcut => absurd hcut List.not_mem_nil⟩, ?_⟩
  · change w.trial < w.samples.size
    rw [htrial]
    exact (he.wellFormed hprepared).current_lt
  · rw [hsolver]
    exact (congrArg Solver.drill hcleared :)

/-- The journal of a call is that of its search. -/
theorem journal_computeDirection (setting : Setting α) (entry : SearchState α) :
    (finalState (computeDirection setting entry)).journal =
      (finalState (seek setting entry.prepared)).journal := by
  rw [computeDirection_run]
  cases seek setting entry.prepared with
  | error fault s => rfl
  | ok outcome s =>
    dsimp only
    split <;> rfl

/-- More rounds than the limit allows make no difference to a call. -/
theorem seek_eq_mainPhase (hw : entry.workspace.WellFormed setting.oracle)
    (hoff : setting.options.tryGradientStep = false)
    (hrun : Workspace.evaluateBoth setting.oracle entry.workspace.current true
      entry.prepared.workspace = .ok true w) :
    seek setting entry.prepared =
      mainPhase setting (setting.options.iterationLimit + 3) (opened entry.prepared w) := by
  have hseek : seek setting entry.prepared =
      mainPhase setting (setting.options.iterationLimit + 2) (opened entry.prepared w) := by
    rw [seek_run setting (s := entry.prepared) hrun, if_pos rfl]
    unfold proceed
    rw [hoff]
    rfl
  have hsettled : ∀ s', mainPhase setting (setting.options.iterationLimit + 2)
      (opened entry.prepared w) ≠ .error .unsettled s' := by
    intro s' hunsettled
    refine (computeDirection_cases hw).settled s' ?_
    rw [computeDirection_run, hseek, hunsettled]
  rw [hseek, ← mainPhase_succ hsettled]

/-- What becomes of a gradient step. -/
theorem proceed_run {ended : Option Outcome} (hon : setting.options.tryGradientStep = true)
    (hr : gradientStep setting s = .ok ended t) :
    proceed setting s = match ended with
      | some outcome => .ok outcome t
      | none => mainPhase setting (setting.options.iterationLimit + 2) t := by
  unfold proceed
  rw [if_pos hon, bind_of_ok hr]
  cases ended <;> rfl

/-- A search whose gradient step is refused goes on as one that makes none. -/
theorem seek_prechecked (hmemoryless : setting.Memoryless) (hsteady : setting.rule.Steady)
    (hw : entry.workspace.WellFormed setting.oracle)
    (hoff : setting.options.tryGradientStep = false) (hdrill : entry.solver.drill = none)
    (hrefused : RefusesGradientStep setting.prechecked
      (finalState (seek setting.prechecked entry.prepared))) :
    ∃ s t, Corresponds (fun b s' c t' => c = b ∧ (Twins.prechecked setting s t).Ends s' t')
      ((Twins.prechecked setting s t).Matches False)
      (seek setting entry.prepared) (seek setting.prechecked entry.prepared) := by
  have hlt : entry.workspace.current < entry.prepared.workspace.samples.size := hw.current_lt
  obtain ⟨known, w, hrun, -, -⟩ :=
    Workspace.evaluateBoth_leads (o := setting.oracle) hlt true
  have hseek := seek_run setting.prechecked (s := entry.prepared) hrun
  obtain ⟨m, evaluated, htests, hrefuses⟩ := hrefused
  cases known with
  | false =>
    rw [hseek] at htests
    cases htests
  | true =>
    obtain ⟨hbase, hnone⟩ := base_opened hw hrun
    obtain ⟨evaluated', t, solve, hjournal, hpassed | ⟨hrefuses', hdetours, hgradient⟩⟩ :=
      gradientStep_run setting.prechecked hsteady hbase (hnone.trans hdrill)
    · -- The test that the journal tells of is the one that was passed.
      obtain ⟨haccepts, t', hsame, hgradient⟩ := hpassed
      rw [hseek, if_pos rfl, proceed_run rfl hgradient] at htests
      change (testsOf t'.journal.toList).head? = _ at htests
      rw [hsame, hjournal, Array.toList_push, Array.toList_push] at htests
      cases htests
      exact Bool.noConfusion (haccepts.symm.trans hrefuses)
    · refine ⟨opened entry.prepared w, t, ?_⟩
      have hmatches := hdetours.matches setting hbase fun hunderway => hunderway rfl
      have hfair : (Twins.prechecked setting (opened entry.prepared w) t).Fair :=
        ⟨.inr hmemoryless, Bool.noConfusion⟩
      have hmain := hmatches.mainPhase hfair (setting.options.iterationLimit + 3)
      have hafter : seek setting.prechecked entry.prepared =
          mainPhase setting.prechecked (setting.options.iterationLimit + 3) t := by
        rw [hseek, if_pos rfl, proceed_run rfl hgradient]
        rfl
      rw [seek_eq_mainPhase hw hoff hrun, hafter]
      exact hmain.mono fun _ _ _ _ hpost => ⟨hpost.1, hpost.2.ends⟩

end Search

/-- Two calls end the same: outcome, direction, trial point, current point, bundle, radii,
cuts, and what the minimizer was asked. The second one has made one solve, one inner
iteration and one evaluation of the objective more. -/
structure EndsOneAhead (s t : SearchState α) : Prop where
  outcome_eq : t.engine.outcome = s.engine.outcome
  direction_eq : t.workspace.direction = s.workspace.direction
  trialPosition_eq : t.workspace.trialSample.position = s.workspace.trialSample.position
  trialObjective_eq : t.workspace.trialSample.objective = s.workspace.trialSample.objective
  currentSample_eq : t.workspace.currentSample = s.workspace.currentSample
  points_eq : t.workspace.points = s.workspace.points
  radii_eq : t.workspace.radii = s.workspace.radii
  fullCuts_eq : t.engine.fullCuts = s.engine.fullCuts
  aggregatedCuts_eq : t.engine.aggregatedCuts = s.engine.aggregatedCuts
  activeCuts_eq : t.engine.activeCuts = s.engine.activeCuts
  switched_eq : t.engine.switched = s.engine.switched
  consultations_eq : Search.consultations t.journal = Search.consultations s.journal
  minimizerIterations_eq : t.workspace.minimizerIterations = s.workspace.minimizerIterations
  solves_eq : t.engine.solves = s.engine.solves + 1
  innerIterations_eq : t.workspace.innerIterations = s.workspace.innerIterations + 1
  objectives_eq : t.workspace.objectiveEvaluations = s.workspace.objectiveEvaluations + 1

/-- Twins of which one was prechecked end one solve apart. -/
theorem Twins.Ends.oneAhead {s₀ t₀ : SearchState α}
    (h : (Twins.prechecked setting s₀ t₀).Ends s t) : EndsOneAhead s t where
  outcome_eq := h.outcome_eq
  direction_eq := h.direction_eq
  trialPosition_eq := h.trialSample.1
  trialObjective_eq := h.trialSample.2
  currentSample_eq := h.workspace.points.currentSample_eq
  points_eq := h.workspace.points.points_eq
  radii_eq := h.workspace.figures.radii_eq
  fullCuts_eq := h.fullCuts_eq
  aggregatedCuts_eq := h.aggregatedCuts_eq
  activeCuts_eq := by
    unfold Engine.activeCuts
    rw [h.active_eq, h.fullCuts_eq, h.aggregatedCuts_eq]
  switched_eq := h.switched_eq
  consultations_eq := h.consultations_eq
  minimizerIterations_eq := h.workspace.figures.minimizerIterations_eq
  solves_eq := h.solves_eq
  innerIterations_eq := h.workspace.figures.innerIterations_eq
  objectives_eq := h.workspace.figures.objectives_eq

/-- A gradient step that is refused leaves no trace, with a rule that changes the radii only
where it fires: with one inner iteration more to make, a call with it ends as one without. -/
theorem refused_gradient_step_leaves_no_trace (hmemoryless : setting.Memoryless)
    (hsteady : setting.rule.Steady)
    (hw : entry.workspace.WellFormed setting.oracle)
    (hoff : setting.options.tryGradientStep = false) (hdrill : entry.solver.drill = none)
    (hrefused : RefusesGradientStep setting.prechecked
      (finalState (Search.computeDirection setting.prechecked entry))) :
    Corresponds (fun outcome s outcome' t => outcome' = outcome ∧ EndsOneAhead s t) EndsOneAhead
      (Search.computeDirection setting entry)
      (Search.computeDirection setting.prechecked entry) := by
  unfold RefusesGradientStep at hrefused
  rw [Search.journal_computeDirection] at hrefused
  obtain ⟨s, t, hseek⟩ := Search.seek_prechecked hmemoryless hsteady hw hoff hdrill hrefused
  have hcalls := Twins.corresponds_of_seek (f := .prechecked setting s t) (s := entry) (t := entry)
    hw rfl hseek
  exact hcalls.imp (fun _ _ _ _ hpost => ⟨hpost.1, hpost.2.oneAhead⟩)
    fun _ _ hends => hends.oneAhead

end Runs

/-- The search across the valley without a gradient step, with radii that may shrink. -/
def steadying : Setting ℚ :=
  { condensing with
    options := { condensing.options with tryGradientStep := false, iterationLimit := 3 }
    rule := ShrinkRule.standard.toRule }

/-- Across the valley the gradient step is refused; without it there are four solves in place
of five. -/
theorem refused_gradient_step_across_valley :
    RefusesGradientStep steadying.prechecked
        (finalState (Search.computeDirection steadying.prechecked acrossValley)) ∧
      Corresponds (fun outcome s outcome' t => outcome' = outcome ∧ EndsOneAhead s t) EndsOneAhead
        (Search.computeDirection steadying acrossValley)
        (Search.computeDirection steadying.prechecked acrossValley) ∧
      (finalState (Search.computeDirection steadying acrossValley)).engine.solves = 4 := by
  have hfirst : ((testsOf (finalState (Search.computeDirection steadying.prechecked
      acrossValley)).journal.toList).head?.any
        fun test => decide (test.1.accepting steadying.prechecked test.2 1 = false)) = true := by
    decide +kernel
  have hrefused : RefusesGradientStep steadying.prechecked
      (finalState (Search.computeDirection steadying.prechecked acrossValley)) := by
    obtain ⟨⟨m, evaluated⟩, htest, hrefuses⟩ := (Option.any_eq_true _ _).mp hfirst
    exact ⟨m, evaluated, htest, of_decide_eq_true hrefuses⟩
  have hw : acrossValley.workspace.WellFormed steadying.oracle := wellFormed_acrossValley
  have hrule : steadying.rule = (ShrinkRule.standard : ShrinkRule ℚ).toRule := rfl
  have hmemoryless : steadying.Memoryless := .of_shrinkRule hrule fun _ _ => rfl
  have hsteady : steadying.rule.Steady := ShrinkRule.standard.steady
  exact ⟨hrefused, refused_gradient_step_leaves_no_trace hmemoryless hsteady hw rfl rfl hrefused,
    by decide +kernel⟩

end NonsmoothDescent
