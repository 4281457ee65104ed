import NonsmoothDescent.Proofs.Search.Advance

/-!
# Where the trial points lie

From each solve until the end of its round's first half the trial point is the end of
the full step. After the gradient step it is the end of that step, and so it is after the
shortened step, whose length is taken from the stationarity radius of that moment. With a
rule that changes the radii only where it fires this is the one at the start of the search.
-/

namespace NonsmoothDescent

variable {α : Type} [Scalar α]

/-- The trial point lies at `x + t * d`, where `x` is the current point and `d` the
solver's step. -/
def Moment.TrialAt (t : α) (m : Moment α) : Prop :=
  m.workspace.trialSample.position =
    (m.workspace.currentSample.moved t m.solver.step).position

namespace Moment.TrialAt

variable {t : α} {m m' : Moment α} {o : Oracle α}

/-- It stays there as long as there is no other trial point. -/
theorem keeps (h : TrialAt t m) (hs : m.Sound o) (hk : Keeps o m m')
    (ht : m'.workspace.trial = m.workspace.trial) : TrialAt t m' := by
  have htrial : m'.workspace.trialSample.position = m.workspace.trialSample.position := by
    rw [Workspace.trialSample, ht, (hk.grows.refines _ hs.trial_lt).position_eq]
    rfl
  have hcurrent := (hk.grows.currentSample hs.wellFormed.current_lt).position_eq
  unfold TrialAt at *
  rw [htrial, h, hk.solver_eq', Sample.moved, Sample.moved, hcurrent]

/-- A change of the engine that leaves the solver leaves the trial point. -/
theorem withEngine {s : SearchState α} (h : TrialAt t s.toMoment) (f : Engine α → Engine α)
    (hf : (f s.engine).solver = s.engine.solver) : TrialAt t (s.withEngine f).toMoment := by
  unfold TrialAt
  rw [solver_withEngine f hf]
  exact h

/-- A solve makes the end of its step the trial point. -/
theorem solved {setting : Setting α} {warm : Bool} (hs : m.Sound o) :
    TrialAt 1 (m.solved setting warm) := by
  let w : Workspace α := directed
    { m.workspace with notices := m.workspace.notices ++ (m.answer setting warm).notices }
    (m.answer setting warm).solver
  have htrial : (m.solved setting warm).workspace.trialSample =
      m.workspace.currentSample.moved 1 (m.answer setting warm).solver.step :=
    Workspace.trialSample_withTrial w 1
  have hcurrent := ((m.grows_solved setting warm).currentSample
    hs.wellFormed.current_lt).position_eq
  unfold TrialAt
  rw [htrial, solver_solved, Sample.moved, Sample.moved, hcurrent]

end Moment.TrialAt

/-- The radius rule leaves the trial point where it is. -/
theorem Moment.asked_trial (setting : Setting α) (m : Moment α) :
    (m.asked setting).workspace.trial = m.workspace.trial := rfl

/-- Where the trial point lies at a stage, with the radius at the start. -/
def Stage.Placed (setting : Setting α) (radius : α) : Stage α → Moment α → Prop
  | .solved _, m | .round _, m | .begun _ _, m | .tested _ _, m | .rejected _, m
  | .sampling _ _, m => m.TrialAt 1
  | .gradientTested _, m => m.TrialAt setting.options.gradientStepsize
  | .shortTested _ _ _ _, m => ¬ m.solver.stepNormInf ≤ 0 ∧ ∃ r,
    (setting.rule.Steady → r = radius) ∧
      m.TrialAt (shortStepsize setting.options r m.solver.stepNormInf)
  | _, _ => True

section Placed

variable {setting : Setting α} {a b : Stage α} {s s' start : SearchState α}

/-- Notices leave the trial point. -/
theorem trialAt_of_logs {t : α} (h : s.TrialAt t) (hs : s.Sound setting.oracle)
    (hlogs : Logs s s') : s'.TrialAt t :=
  h.keeps hs (hlogs.quiet setting.oracle).toKeeps hlogs.trial_eq

/-- A notice leaves the trial point. -/
theorem trialAt_of_note {t : α} {notices : List (Notice α)} (h : s.TrialAt t)
    (hs : s.Sound setting.oracle) (hr : Search.note notices s = .ok () s') : s'.TrialAt t :=
  trialAt_of_logs h hs ((Search.note_leads _ _).of_run hr)

/-- A cold solve makes the full step the trial point. -/
theorem trialAt_resolved {planes : List (Plane α)} {active : ActiveCuts α}
    (hs : s.Sound setting.oracle) : (s.resolved setting planes active).TrialAt 1 :=
  Moment.TrialAt.solved (m := s.loaded planes active)
    ⟨hs.wellFormed, hs.objective, hs.gradient, hs.trial_lt⟩

/-- Trying and testing a step leaves the solver. -/
theorem solver_tested_of_tryStep {t : α} {evaluated : Bool} (hsolves : s.Solves setting.oracle)
    (htry : Search.tryStep setting t s = .ok evaluated s') :
    (s'.tested setting evaluated).solver = s.solver := by
  obtain ⟨hq, _⟩ :=
    (Search.tryStep_leads hsolves.toSound _ hsolves.length_direction).of_run htry
  exact (Moment.keeps_asked setting s'.toMoment).solver_eq'.trans hq.solver_eq'

/-- A step that is tried makes its end the trial point, also once it was tested. -/
theorem trialAt_tested {t : α} {evaluated : Bool} (hsolves : s.Solves setting.oracle)
    (htry : Search.tryStep setting t s = .ok evaluated s') :
    (s'.tested setting evaluated).TrialAt t := by
  have hs := hsolves.toSound
  obtain ⟨hq, hposition, _⟩ :=
    (Search.tryStep_leads hs _ hsolves.length_direction).of_run htry
  have hcurrent := (hq.grows.currentSample hs.wellFormed.current_lt).position_eq
  rw [hsolves.direction_eq] at hposition
  have hat : s'.TrialAt t := by
    unfold Moment.TrialAt
    rw [hposition, hq.solver_eq', Sample.moved, Sample.moved, hcurrent]
  exact hat.keeps (hs.keeps hq.toKeeps) (Moment.keeps_asked setting s'.toMoment)
    (Moment.asked_trial setting _)

/-- Every step places the trial point as its stage asks. -/
theorem Stage.Placed.step
    (h : a.Placed setting start.workspace.radii.stationarity s.toMoment)
    (hinv : Inv setting a s.toMoment)
    (hradii : setting.rule.Steady → a.Searching → s.workspace.radii = start.workspace.radii)
    (hstep : Step setting a s b s') :
    b.Placed setting start.workspace.radii.stationarity s'.toMoment := by
  have hs := hinv.base.toSound
  cases hstep with
  | solveGradient | solveAggregated => exact trialAt_resolved hs
  | solveFull hcollect hnote =>
    have hk := ((Search.collectCuts_leads hs).of_run hcollect).1.toKeeps.trans
      (keeps_of_note setting.oracle hnote)
    have hs' := hs.keeps hk
    exact trialAt_resolved ⟨hs'.wellFormed, hs'.objective, hs'.gradient, hs'.trial_lt⟩
  | fallBack _ _ _ hnote | solveSwitching _ _ hnote =>
    exact trialAt_resolved (hs.keeps (keeps_of_note setting.oracle hnote))
  | @solveWarm _ _ _ planes =>
    exact Moment.TrialAt.solved (m := s.extended planes)
      ⟨hs.wellFormed, hs.objective, hs.gradient, hs.trial_lt⟩
  | enterLoop | markSwitch => exact h.withEngine _ rfl
  | nextRound => exact h
  | restart hnote =>
    exact Moment.TrialAt.withEngine (trialAt_of_note h hs hnote) _ rfl
  | beginRound hflush hevaluate =>
    obtain ⟨hq, htrial, _⟩ := Search.begun_of_run hs hflush hevaluate
    exact h.keeps hs hq.toKeeps htrial
  | testFull =>
    exact h.keeps hs (Moment.keeps_asked setting s.toMoment) (Moment.asked_trial setting _)
  | goOn _ hclock => exact trialAt_of_logs h hs ((Search.elapsed_leads _ _).of_run hclock)
  | aggregate hon hr =>
    obtain ⟨_, s₁, _, hlogs, _, rfl⟩ := (hinv.aggregate_leads hon).of_run hr
    exact Moment.TrialAt.withEngine (trialAt_of_logs h hs hlogs) _ rfl
  | omitAggregation => exact h
  | testGradient htry => exact trialAt_tested hinv.holds.1 htry
  | testShort _ hnorm htry =>
    have hsolver := solver_tested_of_tryStep hinv.holds.1 htry
    refine ⟨hsolver ▸ hnorm, s.workspace.radii.stationarity, fun hsteady => ?_, ?_⟩
    · rw [hradii hsteady trivial]
    rw [hsolver]
    exact trialAt_tested hinv.holds.1 htry
  | _ => trivial

/-- Where the trial point lies at each stage that a search reaches. -/
theorem Reached.placed (hinv : Inv setting .ready start.toMoment)
    (h : Reached setting start b s) :
    b.Placed setting start.workspace.radii.stationarity s.toMoment := by
  induction h with
  | start => trivial
  | step hreached hstep ih =>
    exact ih.step (hreached.inv hinv) (hreached.radii_eq hinv) hstep

end Placed

end NonsmoothDescent
