import NonsmoothDescent.Proofs.Search.Twins

/-!
# Two searches in lockstep

From states that match, each operation of a search comes out alike in both runs, and so
does the whole of what follows the opening: the gradient step, the solve with the cuts of
all near points, and the rounds. Until the first solve the solvers of the runs may hold
different results, and directions and trial points may be different; a solve forgets the
former and replaces the latter.
-/

namespace NonsmoothDescent

variable {α : Type} [Scalar α]

namespace Search

/-- What follows the gradient step of a search, with so many rounds at most. -/
def mainPhase (setting : Setting α) (fuel : Nat) : SearchM α Outcome := do
  if let some outcome ← solveFull setting then return outcome
  modifyEngine fun e => { e with aggregatedCuts := e.fullCuts }
  rounds setting fuel true

/-- What follows once the current point is evaluated and the solver configured. -/
def proceed (setting : Setting α) : SearchM α Outcome := do
  if setting.options.tryGradientStep then
    if let some outcome ← gradientStep setting then return outcome
  mainPhase setting (setting.options.iterationLimit + 2)

/-- The state in which the current point is evaluated and the solver configured. -/
def opened (s : SearchState α) (w : Workspace α) : SearchState α :=
  ({ s with workspace := w } : SearchState α).withEngine fun e =>
    { e with solver := some (configured { s with workspace := w } s.workspace.radii) }

/-- The search proper evaluates the current point first. -/
theorem seek_run (setting : Setting α) {s : SearchState α} {known : Bool} {w : Workspace α}
    (hr : Workspace.evaluateBoth setting.oracle s.workspace.current true s.workspace =
      .ok known w) :
    seek setting s =
      if known then proceed setting (opened s w)
      else .ok .evaluationFailure { s with
        workspace := { w with notices := w.notices ++ [(.currentNotEvaluated : Notice α)] } } := by
  unfold seek
  rw [bind_of_ok (workspace_run s), bind_of_ok (onWorkspace_ok hr)]
  cases known <;> rfl

/-- Rounds are a first round and, unless this ends the search, further rounds. -/
theorem rounds_eq (setting : Setting α) (fuel : Nat) (first : Bool) :
    rounds setting (fuel + 1) first = round setting first >>= fun ended =>
      match ended with
      | some outcome => pure outcome
      | none => rounds setting fuel false := rfl

/-- More rounds than it takes do not change how they come out. -/
theorem rounds_succ {setting : Setting α} {fuel : Nat} {first : Bool} {s : SearchState α}
    (h : ∀ s', rounds setting fuel first s ≠ .error .unsettled s') :
    rounds setting (fuel + 1) first s = rounds setting fuel first s := by
  induction fuel generalizing first s with
  | zero => exact absurd rfl (h s)
  | succ fuel ih =>
    rw [rounds_eq] at h
    rw [rounds_eq setting (fuel + 1) first, rounds_eq setting fuel first]
    cases hround : round setting first s with
    | error fault s' => rw [bind_of_error hround, bind_of_error hround]
    | ok ended s' =>
      rw [bind_of_ok hround, bind_of_ok hround]
      rw [bind_of_ok hround] at h
      cases ended with
      | some outcome => rfl
      | none => exact ih h

/-- With fuel enough, more fuel changes nothing. -/
theorem mainPhase_succ {setting : Setting α} {fuel : Nat} {s : SearchState α}
    (h : ∀ s', mainPhase setting fuel s ≠ .error .unsettled s') :
    mainPhase setting (fuel + 1) s = mainPhase setting fuel s := by
  unfold mainPhase at h ⊢
  cases hfull : solveFull setting s with
  | error fault s' => rw [bind_of_error hfull, bind_of_error hfull]
  | ok ended s' =>
    rw [bind_of_ok hfull, bind_of_ok hfull]
    rw [bind_of_ok hfull] at h
    cases ended with
    | some outcome => rfl
    | none => exact rounds_succ h

end Search

namespace Twins

variable {f : Twins α} {p q : Prop} {s t : SearchState α}

/-- Changes of the engine agree if their results match. -/
theorem Agree.modifyEngine {g g' : Engine α → Engine α}
    (h : f.Matches q (s.withEngine g) (t.withEngine g')) :
    f.Agree q (Search.modifyEngine g) s (Search.modifyEngine g') t :=
  .of_ok rfl rfl ⟨rfl, h⟩

/-- Entries in the journals agree if their results match. -/
theorem Agree.record {event event' : Moment α → Event α}
    (h : f.Matches q (s.logged event) (t.logged event')) :
    f.Agree q (Search.record event) s (Search.record event') t :=
  .of_ok rfl rfl ⟨rfl, h⟩

namespace Matches

section Reports

/-- The runs emit the same lines but for the lead. -/
theorem flushReport (h : f.Matches p s t) :
    f.Agree p Search.flushReport s Search.flushReport t :=
  .of_ok rfl rfl ⟨rfl, { h with
    workspace := h.workspace.noticing _ _
    reports := fun hreporting => (h.reports hreporting).flush }⟩

/-- On the same course the figures differ by the lead only. -/
theorem figures_eq (h : f.Matches True s t) :
    Search.figures t.workspace t.engine = (Search.figures s.workspace s.engine).ahead f.lead := by
  have hsolver : t.engine.solverFor t.workspace.dimension =
      s.engine.solverFor s.workspace.dimension := h.solver_eq'
  have hfigures := h.workspace.figures
  unfold Search.figures Figures.ahead
  rw [hsolver, hfigures.innerIterations_eq, hfigures.minimizerIterations_eq]

/-- The second run reports the round of the first, as far ahead as it is. -/
theorem reportRound (h : f.Matches True s t) (hf : f.Fair) :
    f.Agree True (Search.reportRound f.setting) s (Search.reportRound f.second) t := by
  refine .of_ok (Search.reportRound_run f.setting s) (Search.reportRound_run f.second t)
    ⟨rfl, { h with reports := fun hreporting => ?_ }⟩
  have hreports := h.reports hreporting
  have hfigures : t.figures = s.figures.ahead f.lead := h.figures_eq
  refine ⟨?_, hreports.lines_eq⟩
  unfold Setting.roundLines SearchState.withEngine
  dsimp only
  rw [hreports.pending_eq, hreports.blankAfter_eq hf, hfigures]
  split
  · simp [ProgressLine.ahead]
  · simp [ProgressLine.ahead]

end Reports

section Solves

/-- The runs fall back to the same cut. -/
theorem fallBack (h : f.Matches p s t) (hf : f.Fair) :
    f.Agree True (Search.fallBack f.setting) s (Search.fallBack f.second) t := by
  unfold Search.fallBack
  refine h.read (Search.solver_run s) (Search.solver_run t) ?_
  refine (h.note _ _).bind fun _ s t h => ?_
  refine h.read (Search.workspace_run s) (Search.workspace_run t) ?_
  rw [h.workspace.points.currentSample_eq]
  refine h.orFault_bind _ fun cut _ => ?_
  refine h.resolve_bind hf _ _ fun status s t h => ?_
  exact .ite .rfl ((h.note _ _).bind fun _ _ _ h => h.pure _) (h.pure _)

/-- After a solve the runs go on, fall back or stop alike. -/
theorem settle (h : f.Matches True s t) (hf : f.Fair) (status : SolveStatus)
    (resetAggregated : Bool) :
    f.Agree True (Search.settle f.setting status resetAggregated) s
      (Search.settle f.second status resetAggregated) t := by
  unfold Search.settle
  refine .ite .rfl (h.pure _) (.ite .rfl (h.pure _) ?_)
  refine (h.fallBack hf).bind fun cuts s t h => ?_
  refine Agree.bind (.modifyEngine { h with
    fullCuts_eq := rfl, active_eq := fun _ => rfl, aggregatedCuts_eq := ?_ })
      fun _ _ _ h => h.pure _
  cases resetAggregated
  · exact h.aggregatedCuts_eq
  · rfl

end Solves

section Points

/-- Both runs make a trial point of the same direction and evaluate it. -/
theorem evaluateTrial (h : f.Matches True s t) (hf : f.Fair) :
    f.Agree True (Search.onWorkspace (Workspace.evaluateTrial f.setting.oracle)) s
      (Search.onWorkspace (Workspace.evaluateTrial f.second.oracle)) t :=
  h.onWorkspace_agree (h.workspace.evaluateTrial (h.underway trivial) hf.differentiable) id

/-- The runs make the same trial point. -/
theorem makeTrial (h : f.Matches True s t) (stepsize : α) :
    f.Agree True (Search.onWorkspace (Workspace.makeTrial stepsize)) s
      (Search.onWorkspace (Workspace.makeTrial stepsize)) t :=
  h.onWorkspace_agree
    ((h.workspace.makeTrial h.trial.direction_eq stepsize).mono fun _ _ _ _ hw => ⟨rfl, hw⟩)
    fun _ => trivial

/-- Both runs make the same cut at the trial point. -/
theorem trialCut (h : f.Matches True s t) (evaluated : Bool) :
    f.Agree True (Search.trialCut f.setting evaluated) s
      (Search.trialCut f.second evaluated) t := by
  unfold Search.trialCut
  refine .ite .rfl (h.pure _) (h.read (Search.workspace_run s) (Search.workspace_run t) ?_)
  rw [h.trial.trial_eq]
  have hgradient := h.workspace.evaluateGradient h.trial.trial_lt (.inr ⟨h.underway trivial, rfl⟩)
  refine Tandem.bind (h.onWorkspace hgradient fun _ _ _ _ hpost => hpost.2.1) ?_
  rintro _ _ known _ ⟨w, w', rfl, rfl, ⟨rfl, hw, -, hlt, hsame, hknown⟩, hm⟩
  refine Agree.ite .rfl (hm.pure _) ?_
  refine Tandem.bind (hm.onWorkspace (hw.addToBundle hlt hsame hknown)
    fun _ _ _ _ hpost => hpost.2.2.2) ?_
  rintro _ _ place _ ⟨_, _, rfl, rfl, ⟨rfl, rfl, rfl, hbundled⟩, hm⟩
  refine hm.read (Search.workspace_run _) (Search.workspace_run _) ?_
  have hsample : (w'.bundled (f.rename s.workspace.trial)).sampleAt (f.rename s.workspace.trial) =
      (w.bundled s.workspace.trial).sampleAt s.workspace.trial := hsame
  rw [hsample, hbundled.points.currentSample_eq]
  exact hm.orFault_bind _ fun cut _ => hm.pure _

/-- Both runs make the same cut at a place of the bundle. -/
theorem nearCut (h : f.Matches p s t) (place : Nat) :
    f.Agree p (Search.nearCut f.setting place) s (Search.nearCut f.second place) t := by
  unfold Search.nearCut
  refine h.read (Search.workspace_run s) (Search.workspace_run t) ?_
  rw [h.workspace.points.bundle_eq, Array.getElem?_map]
  cases hplace : s.workspace.bundle[place]? with
  | none => exact h.pure _
  | some id =>
    have hmem : id ∈ s.workspace.bundle.toList :=
      Array.mem_toList_iff.mpr (Array.mem_of_getElem? hplace)
    obtain ⟨hlt, hsame⟩ := h.workspace.points.same_at (.inr hmem)
    have hboth := (h.workspace.evaluateBoth hlt (.inl hsame)).with_runs
    refine Tandem.bind (h.onWorkspace hboth fun _ _ _ _ hpost => hpost.1.2) ?_
    rintro _ _ known _ ⟨w, w', rfl, rfl, ⟨⟨rfl, hw⟩, hrun, -⟩, hm⟩
    refine Agree.ite .rfl ?_ (hm.pure _)
    refine hm.read (Search.workspace_run _) (Search.workspace_run _) ?_
    have hevaluates :=
      ((Workspace.evaluateBoth_leads (o := f.setting.oracle) hlt true).of_run hrun).1
    have hsample := hw.points.bundleSample_eq id (hevaluates.bundle_eq ▸ hmem)
    rw [hsample, hw.points.currentSample_eq]
    exact hm.orFault_bind _ fun cut _ => hm.pure _

/-- The runs make the same cuts at the near points. -/
theorem nearCuts (h : f.Matches p s t) (places : List Nat) (cuts : List (Cut α)) :
    f.Agree p
      (places.foldlM (fun cuts place => do return cuts ++ (← Search.nearCut f.setting place)) cuts)
      s
      (places.foldlM (fun cuts place => do return cuts ++ (← Search.nearCut f.second place)) cuts)
      t := by
  induction places generalizing cuts s t with
  | nil => exact h.pure _
  | cons place places ih =>
    rw [List.foldlM_cons, List.foldlM_cons]
    exact ((h.nearCut place).bind fun _ _ _ h => h.pure _).bind fun cuts _ _ h => ih h cuts

/-- The runs collect the same cuts. -/
theorem collectCuts (h : f.Matches p s t) :
    f.Agree p (Search.collectCuts f.setting) s (Search.collectCuts f.second) t := by
  unfold Search.collectCuts
  refine h.read (Search.workspace_run s) (Search.workspace_run t) ?_
  rw [h.workspace.points.currentSample_eq, h.workspace.points.points_eq,
    h.workspace.figures.radii_eq]
  exact h.orFault_bind _ fun first _ => h.orFault_bind _ fun places _ => h.nearCuts places [first]

end Points

section Phases

/-- Both runs accept the gradient step or both do not. -/
theorem gradientStep (h : f.Matches p s t) (hf : f.Fair) :
    f.Agree True (Search.gradientStep f.setting) s (Search.gradientStep f.second) t := by
  unfold Search.gradientStep
  refine h.read (Search.workspace_run s) (Search.workspace_run t) ?_
  rw [h.workspace.points.currentSample_eq]
  refine h.orFault_bind _ fun cut _ => h.resolve_bind hf _ _ fun _ s t h => ?_
  refine (h.makeTrial _).bind fun _ s t h => (h.evaluateTrial hf).bind fun evaluated s t h => ?_
  refine (h.accepts hf evaluated _).bind fun accepted s t h => ?_
  exact .ite .rfl ((h.note _ _).bind fun _ _ _ h => h.pure _) (h.pure _)

/-- The runs solve on the same cuts. -/
theorem solveFull (h : f.Matches p s t) (hf : f.Fair) :
    f.Agree True (Search.solveFull f.setting) s (Search.solveFull f.second) t := by
  unfold Search.solveFull
  refine h.collectCuts.bind fun cuts s t h => ?_
  refine h.read (Search.workspace_run s) (Search.workspace_run t) ?_
  refine (h.note _ _).bind fun _ s t h => ?_
  refine Agree.bind (.modifyEngine { h with fullCuts_eq := rfl }) fun _ s t h => ?_
  exact h.resolve_bind hf _ _ fun status s t h => h.settle hf status false

/-- Both runs come to their limits together. -/
theorem acceptanceAndLimits (h : f.Matches True s t) (hf : f.Fair) (evaluated : Bool) :
    f.Agree True (Search.acceptanceAndLimits f.setting evaluated) s
      (Search.acceptanceAndLimits f.second evaluated) t := by
  unfold Search.acceptanceAndLimits
  refine (h.accepts hf evaluated 1).bind fun accepted s t h => .ite .rfl (h.pure _) ?_
  refine h.read (Search.workspace_run s) (Search.workspace_run t) ?_
  have hlimit : (f.setting.options.iterationLimit : Int) < s.workspace.innerIterations ↔
      (f.second.options.iterationLimit : Int) < t.workspace.innerIterations := by
    have hlead : f.second.options.iterationLimit = f.setting.options.iterationLimit + f.lead := rfl
    rw [h.workspace.figures.innerIterations_eq, hlead]
    omega
  refine .ite hlimit (h.pure _) ?_
  rw [h.workspace.figures.timeLimit_eq]
  refine (h.onWorkspace_agree (h.workspace.elapsed _) id).bind fun time s t h => ?_
  exact .ite .rfl (h.pure _) (h.pure _)

/-- The runs aggregate alike. -/
theorem aggregate (h : f.Matches True s t) :
    f.Agree True Search.aggregate s Search.aggregate t := by
  unfold Search.aggregate
  refine h.read (Search.workspace_run s) (Search.workspace_run t) ?_
  refine h.read (Search.engine_run s) (Search.engine_run t) ?_
  refine h.read (Search.solver_run s) (Search.solver_run t) ?_
  rw [h.workspace.points.pointAt_eq, h.workspace.points.currentSample_eq, h.solver_eq',
    h.aggregatedCuts_eq]
  refine h.orFault_bind _ fun (cuts, notices) _ => (h.note _ _).bind fun _ s t h => ?_
  refine .modifyEngine { h with aggregatedCuts_eq := rfl, active_eq := fun hunderway => ?_ }
  unfold SearchState.withEngine Engine.replaceAggregated
  dsimp only
  rw [h.active_eq hunderway, h.aggregatedCuts_eq]

/-- The runs make the same cut of the full step. -/
theorem fullStep (h : f.Matches True s t) (evaluated : Bool) :
    f.Agree True (Search.fullStep f.setting evaluated) s
      (Search.fullStep f.second evaluated) t := by
  unfold Search.fullStep
  refine h.read (Search.solver_run s) (Search.solver_run t) ?_
  refine h.read (Search.workspace_run s) (Search.workspace_run t) ?_
  rw [h.solver_eq', h.workspace.figures.radii_eq]
  exact .ite .rfl (h.trialCut evaluated) (h.pure _)

/-- The runs test the same shortened step. -/
theorem shortenedStep (h : f.Matches True s t) (hf : f.Fair) :
    f.Agree True (Search.shortenedStep f.setting) s (Search.shortenedStep f.second) t := by
  unfold Search.shortenedStep
  refine .ite .rfl (h.pure _) (h.read (Search.solver_run s) (Search.solver_run t) ?_)
  rw [h.solver_eq']
  refine .ite .rfl (h.pure _) (h.read (Search.workspace_run s) (Search.workspace_run t) ?_)
  rw [h.workspace.figures.radii_eq]
  refine (h.makeTrial _).bind fun _ s t h => (h.evaluateTrial hf).bind fun evaluated s t h => ?_
  refine (h.accepts hf evaluated 1).bind fun accepted s t h => ?_
  exact .ite .rfl ((h.note _ _).bind fun _ _ _ h => h.pure _)
    ((h.trialCut evaluated).bind fun _ _ _ h => h.pure _)

/-- The runs solve again alike, cold or warm. -/
theorem solveAgain (h : f.Matches True s t) (hf : f.Fair) (added : List (Cut α))
    (aggregating : Bool) :
    f.Agree True (Search.solveAgain f.setting added aggregating) s
      (Search.solveAgain f.second added aggregating) t := by
  unfold Search.solveAgain
  refine h.read (Search.workspace_run s) (Search.workspace_run t) ?_
  rw [h.workspace.figures.dimension_eq, h.workspace.points.bundle_size_eq,
    h.workspace.points.pointAt_eq]
  refine h.orFault_bind _ fun threshold _ => .ite .rfl ?aggregated (.ite .rfl ?full ?warm)
  case aggregated =>
    refine h.read (Search.engine_run s) (Search.engine_run t) ?_
    rw [h.aggregatedCuts_eq]
    exact h.resolve_bind hf _ _ fun status s t h => h.settle hf status true
  case full =>
    refine (h.note _ _).bind fun _ s t h => ?_
    refine h.read (Search.engine_run s) (Search.engine_run t) ?_
    rw [h.fullCuts_eq]
    refine h.resolve_bind hf _ _ fun status s t h => ?_
    exact Agree.bind (.modifyEngine { h with switched_eq := rfl }) fun _ s t h =>
      h.settle hf status true
  case warm =>
    refine h.orFault_bind _ fun slopes _ => h.read (Search.solver_run s) (Search.solver_run t) ?_
    rw [h.solver_eq']
    refine h.orFault_bind _ fun extended _ => ?_
    have hset : f.Agree True (Search.setSolver extended) s (Search.setSolver extended) t :=
      .modifyEngine { h with
        setup_eq := Engine.solverFor_congr rfl rfl rfl rfl, solver_eq := fun _ => rfl }
    refine hset.bind fun _ s t h => ?_
    refine Agree.bind (.modifyEngine { h with active_eq := fun _ => rfl }) fun _ s t h => ?_
    exact (h.solve_warm hf).bind fun status s t h => h.settle hf status true

/-- The runs improve their models alike. -/
theorem improve (h : f.Matches True s t) (hf : f.Fair) (evaluated : Bool) :
    f.Agree True (Search.improve f.setting evaluated) s (Search.improve f.second evaluated) t := by
  unfold Search.improve
  refine h.read (Search.engine_run s) (Search.engine_run t) ?_
  rw [h.switched_eq]
  have haggregate : f.Agree True
      (Search.aggregateIf (f.setting.options.tryAggregation && !s.engine.switched)) s
      (Search.aggregateIf (f.setting.options.tryAggregation && !s.engine.switched)) t :=
    .ite .rfl h.aggregate (h.pure _)
  refine haggregate.bind fun _ s t h => (h.fullStep evaluated).bind fun fullStepCuts s t h => ?_
  refine (h.shortenedStep hf).bind fun (accepted, shortCuts) s t h => .ite .rfl (h.pure _) ?_
  refine Agree.bind (.modifyEngine { h with fullCuts_eq := ?_, aggregatedCuts_eq := ?_ })
    fun _ s t h => (h.reportRound hf).bind fun _ s t h => h.solveAgain hf _ _
  · exact congrArg (· ++ _) h.fullCuts_eq
  · unfold SearchState.withEngine
    dsimp only
    rw [h.aggregatedCuts_eq]
    rfl

/-- The runs go through a round alike. -/
theorem round (h : f.Matches True s t) (hf : f.Fair) (first : Bool) :
    f.Agree True (Search.round f.setting first) s (Search.round f.second first) t := by
  unfold Search.round
  refine Agree.bind (.record (h.logged rfl rfl)) fun _ s t h => ?_
  refine h.flushReport.bind fun _ s t h => (h.evaluateTrial hf).bind fun evaluated s t h => ?_
  refine .ite .rfl ((h.note _ _).bind fun _ _ _ h => h.pure _) ?_
  refine (h.acceptanceAndLimits hf evaluated).bind fun ended s t h => ?_
  cases ended with
  | some outcome => exact h.pure _
  | none => exact h.improve hf evaluated

/-- As many rounds go alike in both runs as it takes. -/
theorem rounds (h : f.Matches True s t) (hf : f.Fair) (fuel : Nat) (first : Bool) :
    f.Agree True (Search.rounds f.setting fuel first) s (Search.rounds f.second fuel first) t := by
  induction fuel generalizing first s t with
  | zero => exact .of_throw (h.imp False.elim)
  | succ fuel ih =>
    unfold Search.rounds
    refine (h.round hf first).bind fun ended s t h => ?_
    cases ended with
    | some outcome => exact h.pure _
    | none => exact ih h false

/-- The runs agree from the first solve to their ends. -/
theorem mainPhase (h : f.Matches p s t) (hf : f.Fair) (fuel : Nat) :
    f.Agree True (Search.mainPhase f.setting fuel) s (Search.mainPhase f.second fuel) t := by
  unfold Search.mainPhase
  refine (h.solveFull hf).bind fun ended s t h => ?_
  cases ended with
  | some outcome => exact h.pure _
  | none =>
    exact Agree.bind (.modifyEngine { h with aggregatedCuts_eq := h.fullCuts_eq }) fun _ _ _ h =>
      h.rounds hf fuel true

/-- Where both runs try a gradient step or both do not, and none is ahead, all that follows
the evaluation of the current point goes alike. -/
theorem proceed (h : f.Matches p s t) (hf : f.Fair) (hlead : f.lead = 0)
    (hgradient : f.gradient' = f.setting.options.tryGradientStep) :
    f.Agree True (Search.proceed f.setting) s (Search.proceed f.second) t := by
  have hlimit : f.second.options.iterationLimit = f.setting.options.iterationLimit := by
    change f.setting.options.iterationLimit + f.lead = _
    rw [hlead, Nat.add_zero]
  have htry : f.second.options.tryGradientStep = f.setting.options.tryGradientStep := hgradient
  unfold Search.proceed
  rw [hlimit, htry]
  refine .ite .rfl ?_ (h.mainPhase hf _)
  refine (h.gradientStep hf).bind fun ended s t h => ?_
  cases ended with
  | some outcome => exact h.pure _
  | none => exact h.mainPhase hf _

end Phases

end Matches

end Twins

end NonsmoothDescent
