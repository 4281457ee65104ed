import NonsmoothDescent.Proofs.Search.Advance

/-!
# The course of a search

Every search runs along the steps of the transition system. From its start it ends at a
stage that ends the search, with that outcome, or stops with a fault where a number of
points is too large to be an integer. No other fault occurs, and the rounds never run
out: each makes a solve, and the limit on inner iterations ends the search before.
-/

namespace NonsmoothDescent

variable {α : Type} [Scalar α]

/-- The number of points at which aggregation ends cannot be formed. -/
def Overflows (setting : Setting α) (start s : SearchState α) : Prop :=
  Search.pointThreshold setting.options s.workspace.dimension = .error .tooLarge ∧
    ∃ aggregating added, Reached setting start (.augmented aggregating added) s

/-- A stage is reached with at least `k` inner iterations. -/
structure Onward (setting : Setting α) (start : SearchState α) (k : Int) (stage : Stage α)
    (s : SearchState α) : Prop where
  reached : Reached setting start stage s
  le_iterations : k ≤ s.workspace.innerIterations

/-- A step leads onward by the solve that it makes. -/
theorem Onward.step {setting : Setting α} {start s s' : SearchState α} {k : Int}
    {a b : Stage α} (hinv : Inv setting .ready start.toMoment)
    (h : Onward setting start k a s) (hstep : Step setting a s b s') :
    Onward setting start (k + b.gain) b s' where
  reached := h.reached.step hstep
  le_iterations := by
    have hcount := (hstep.advances (h.reached.inv hinv)).iterations_eq
    have hle := h.le_iterations
    omega

/-- A step on the way to the next solve. -/
theorem Onward.step_zero {setting : Setting α} {start s s' : SearchState α} {k : Int}
    {a b : Stage α} (hinv : Inv setting .ready start.toMoment)
    (h : Onward setting start k a s) (hstep : Step setting a s b s') :
    Onward setting start k b s' :=
  ⟨h.reached.step hstep, (Int.le_add_of_nonneg_right (Int.natCast_nonneg b.gain)).trans
    (h.step hinv hstep).le_iterations⟩

/-- How a part of a search comes out: it goes on in a state as described, or the search
has ended or stopped with a fault. -/
def Arrives (setting : Setting α) (start : SearchState α) (next : SearchState α → Prop) :
    EStateM.Result (Fault α) (SearchState α) (Option Outcome) → Prop
  | .ok none s => next s
  | .ok (some outcome) s => Reached setting start (.ended outcome) s
  | .error fault s => fault = .tooLarge ∧ Overflows setting start s

namespace Search

section Follow

variable {setting : Setting α} {start s : SearchState α} {next next' : SearchState α → Prop}

/-- A part of a search is followed by the next one unless the search has ended. -/
theorem arrives_bind {x rest : SearchM α (Option Outcome)}
    {k : Option Outcome → SearchM α (Option Outcome)}
    (hk : ∀ outcome, k (some outcome) = pure (some outcome)) (hnone : k none = rest)
    (hx : Arrives setting start next (x s))
    (hrest : ∀ s', next s' → Arrives setting start next' (rest s')) :
    Arrives setting start next' ((x >>= k) s) := by
  cases hr : x s with
  | ok result s' =>
    rw [hr] at hx
    rw [bind_of_ok hr]
    cases result with
    | none =>
      rw [hnone]
      exact hrest s' hx
    | some outcome =>
      rw [hk]
      exact hx
  | error fault s' =>
    rw [hr] at hx
    rw [bind_of_error hr]
    exact hx

/-- To make a trial point and to evaluate it is to try a step. -/
theorem tryStep_bind {β : Type} (stepsize : α) (f : Bool → SearchM α β) :
    (onWorkspace (Workspace.makeTrial stepsize) >>= fun _ =>
      onWorkspace (Workspace.evaluateTrial setting.oracle) >>= f) =
      tryStep setting stepsize >>= f := by
  unfold tryStep
  rw [bind_assoc]

/-- Planes are loaded and a cold solve is made. -/
theorem resolve_bind {β : Type} {cuts : List (Cut α)} {planes : List (Plane α)}
    {active : ActiveCuts α} (hb : s.Base setting.oracle)
    (h : Cut.DenoteAll s.workspace cuts planes) (f : SolveStatus → SearchM α β) :
    (load cuts active >>= fun _ => solve setting false >>= f) s =
      f (s.resolved setting planes active).solver.status (s.resolved setting planes active) := by
  have hp : (s.on (s.loaded planes active)).solver.subproblem.WellFormed := by
    change (s.loaded planes active).solver.subproblem.WellFormed
    rw [Moment.solver_loaded]
    exact fun p hp => (h.length_slope p hp).trans s.dimension_solver.symm
  have hsolve := solve_run (s := s.on (s.loaded planes active)) setting false
    hb.length_current hp
  rw [bind_of_ok (load_run h active), bind_of_ok hsolve]
  rfl

/-- After planes were put behind the old ones a warm solve is made. -/
theorem continue_run (setting : Setting α) {planes : List (Plane α)} (hb : s.Base setting.oracle)
    (h : Cut.DenoteAll s.workspace s.engine.fullCuts (s.solver.subproblem.planes ++ planes)) :
    solve setting true (s.on (s.extended planes)) =
      .ok (s.continued setting planes).solver.status (s.continued setting planes) := by
  have hp : (s.on (s.extended planes)).solver.subproblem.WellFormed := by
    change (s.extended planes).solver.subproblem.WellFormed
    rw [Moment.solver_extended]
    exact fun p hp => (h.length_slope p hp).trans s.dimension_solver.symm
  exact solve_run (s := s.on (s.extended planes)) setting true hb.length_current hp

/-- The number of points fails only for its size. -/
theorem pointThreshold_error {options : Options α} {dimension : Nat} {fault : Fault α}
    (h : pointThreshold options dimension = .error fault) : fault = .tooLarge := by
  unfold pointThreshold at h
  dsimp only at h
  split at h
  · cases h
  · cases h
    rfl

variable (hinv : Inv setting .ready start.toMoment)
include hinv

/-- The gradient step ends the search or is rejected. -/
theorem gradientStep_arrives (h : Reached setting start .ready s)
    (hon : setting.options.tryGradientStep = true) :
    Arrives setting start (Reached setting start .opened) (gradientStep setting s) := by
  have hbase := (h.inv hinv).base
  obtain ⟨plane, hcurrent⟩ := hbase.exists_current
  have hplanes : Cut.DenoteAll s.workspace [plane.toCut] [plane] :=
    .cons (hcurrent.denotes hbase.wellFormed) .nil
  have hsolved := h.step (.solveGradient hon hcurrent)
  have hsolves : (s.resolved setting [plane] (.own [plane.toCut])).Solves setting.oracle :=
    (hsolved.inv hinv).holds.1
  obtain ⟨evaluated, s₁, htry, _⟩ := tryStep_leads hsolves.toSound
    setting.options.gradientStepsize hsolves.length_direction
  have htested := hsolved.step (.testGradient htry)
  unfold gradientStep
  rw [bind_of_ok (workspace_run s), bind_of_ok (orFault_ok hcurrent.atCurrent_eq),
    resolve_bind hbase hplanes, tryStep_bind, bind_of_ok htry, bind_of_ok (accepts_run ..)]
  change Arrives _ _ _ ((if s₁.passes setting evaluated setting.options.gradientStepsize = true
    then _ else _ : SearchM α (Option Outcome)) (s₁.tested setting evaluated))
  cases hpass : s₁.passes setting evaluated setting.options.gradientStepsize with
  | true =>
    rw [hpass] at htested
    rw [if_pos rfl]
    exact htested.step (.acceptGradient rfl)
  | false =>
    rw [hpass] at htested
    rw [if_neg (by simp)]
    exact htested.step .rejectGradient

omit hinv in
/-- The state in which a search goes on after a fallback. -/
theorem fallBack_run {kind : SolveKind α} {first : Bool} (hbase : s.Base setting.oracle)
    (hkind : kind = .full ∧ first = true ∨ kind.InRound ∧ first = false)
    (hstatus : s.solver.status ≠ .success)
    (hgo : setting.options.failOnSolverFailure = false) :
    ∃ plane s₁ s₂, Step setting (.solved kind) s (.solved (.fallback plane first)) s₁ ∧
      Step setting (.solved (.fallback plane first)) s₁ (.round first)
        (s₂.withEngine (·.restarted plane.toCut)) ∧
      fallBack setting s = .ok [plane.toCut] s₂ := by
  obtain ⟨s', hnote⟩ : ∃ s', note [.fallingBack s.solver.status] s = .ok () s' := ⟨_, rfl⟩
  have hbase' := hbase.keeps (keeps_of_note setting.oracle hnote)
  obtain ⟨plane, hcurrent⟩ := hbase'.exists_current
  have hplanes : Cut.DenoteAll s'.workspace [plane.toCut] [plane] :=
    .cons (hcurrent.denotes hbase'.wellFormed) .nil
  refine ⟨plane, _, _, .fallBack hkind hstatus hgo hnote hcurrent, .restart rfl, ?_⟩
  unfold fallBack
  rw [bind_of_ok (solver_run s), bind_of_ok hnote, bind_of_ok (workspace_run s'),
    bind_of_ok (orFault_ok hcurrent.atCurrent_eq), resolve_bind hbase' hplanes]
  generalize (s'.resolved setting [plane] (.own [plane.toCut])) = t
  cases hsuccess : decide (t.solver.status = .success) with
  | true =>
    rw [if_neg (by simpa using hsuccess), if_pos (by simpa using hsuccess)]
    rfl
  | false =>
    rw [if_pos (by simpa using hsuccess), if_neg (by simpa using hsuccess)]
    rfl

/-- After the first solve on all near points the search ends or enters the loop. -/
theorem settle_full_arrives (h : Reached setting start (.solved .full) s) :
    Arrives setting start (fun s' => Reached setting start (.round true)
      (s'.withEngine Engine.entered)) (settle setting s.solver.status false s) := by
  unfold settle
  by_cases hstatus : s.solver.status = .success
  · rw [if_pos hstatus]
    exact h.step (.enterLoop hstatus)
  · rw [if_neg hstatus]
    cases hfail : setting.options.failOnSolverFailure with
    | true =>
      rw [if_pos rfl]
      exact h.step (.failSolver (.inl rfl) hstatus hfail)
    | false =>
      obtain ⟨cut, s₁, s₂, hfall, hrestart, hrun⟩ :=
        fallBack_run (h.inv hinv).base (.inl ⟨rfl, rfl⟩) hstatus hfail
      rw [if_neg (by simp), bind_of_ok hrun]
      exact (h.step hfall).step hrestart

/-- After a solve within a round the search ends or the next round follows. -/
theorem settle_arrives {kind : SolveKind α} {k : Int} (hkind : kind.InRound)
    (h : Onward setting start k (.solved kind) s) :
    Arrives setting start (Onward setting start k (.round false))
      (settle setting s.solver.status true s) := by
  unfold settle
  by_cases hstatus : s.solver.status = .success
  · rw [if_pos hstatus]
    exact h.step_zero hinv (.nextRound hkind hstatus)
  · rw [if_neg hstatus]
    cases hfail : setting.options.failOnSolverFailure with
    | true =>
      rw [if_pos rfl]
      exact h.reached.step (.failSolver (.inr hkind) hstatus hfail)
    | false =>
      obtain ⟨cut, s₁, s₂, hfall, hrestart, hrun⟩ :=
        fallBack_run (h.reached.inv hinv).base (.inr ⟨hkind, rfl⟩) hstatus hfail
      rw [if_neg (by simp), bind_of_ok hrun]
      exact (h.step_zero hinv hfall).step_zero hinv hrestart

/-- The solve with the cuts of all near points ends the search or leads into the loop. -/
theorem solveFull_arrives (h : Reached setting start .opened s) :
    Arrives setting start (fun s' => Reached setting start (.round true)
      (s'.withEngine Engine.entered)) (solveFull setting s) := by
  have hbase := (h.inv hinv).base
  obtain ⟨cuts, s₁, hcollect, _⟩ := collectCuts_leads hbase.toSound
  obtain ⟨hq, hvalid⟩ := valid_collectCuts hbase.toSound hcollect
  obtain ⟨s₂, hnote⟩ : ∃ s₂, note [.cutSetBuilt cuts.length s₁.workspace.bundle.size] s₁ =
    .ok () s₂ := ⟨_, rfl⟩
  have hk := keeps_of_note setting.oracle hnote
  have hbase₂ := (hbase.keeps hq.toKeeps).keeps hk
  obtain ⟨planes, hplanes⟩ :=
    Cut.denoteAll_of_valid (hk.valid (hbase.keeps hq.toKeeps).toSound hvalid)
  have hbase₃ : (s₂.withEngine (·.collected cuts)).Base setting.oracle :=
    base_withEngine (·.collected cuts) hbase₂ rfl hplanes.valid hbase₂.aggregatedCuts
  have hmodify : modifyEngine (fun e => { e with fullCuts := cuts }) s₂ =
      .ok () (s₂.withEngine (·.collected cuts)) := rfl
  unfold solveFull
  rw [bind_of_ok hcollect, bind_of_ok (workspace_run s₁), bind_of_ok hnote, bind_of_ok hmodify,
    resolve_bind hbase₃ hplanes]
  exact settle_full_arrives hinv (h.step (.solveFull hcollect hnote hplanes))

/-- A round ends the search if the full step is acceptable or a limit is reached. -/
theorem acceptanceAndLimits_arrives {first evaluated : Bool} {k : Int}
    (h : Onward setting start k (.begun first evaluated) s)
    (hfirst : first = true → evaluated = true) :
    Arrives setting start (Onward setting start k (.rejected evaluated))
      (acceptanceAndLimits setting evaluated s) := by
  have htested := h.step_zero hinv (.testFull hfirst)
  unfold acceptanceAndLimits
  rw [bind_of_ok (accepts_run ..)]
  change Arrives _ _ _ ((if s.passes setting evaluated 1 = true then _ else _ :
    SearchM α (Option Outcome)) (s.tested setting evaluated))
  cases hpass : s.passes setting evaluated 1 with
  | true =>
    rw [hpass] at htested
    rw [if_pos rfl]
    exact htested.reached.step .acceptFull
  | false =>
    rw [hpass] at htested
    generalize s.tested setting evaluated = t at *
    rw [if_neg (by simp), bind_of_ok (workspace_run t)]
    by_cases hlimit : (setting.options.iterationLimit : Int) < t.workspace.innerIterations
    · rw [if_pos hlimit]
      exact htested.reached.step (.reachLimit hlimit)
    · obtain ⟨time, s', hclock⟩ : ∃ time s',
          onWorkspace (Workspace.elapsed setting.clock) t = .ok time s' := ⟨_, _, rfl⟩
      rw [if_neg hlimit, bind_of_ok hclock]
      by_cases htime : t.workspace.timeLimit ≤ time
      · rw [if_pos htime]
        exact htested.reached.step (.runOut hlimit hclock htime)
      · rw [if_neg htime]
        exact htested.step_zero hinv (.goOn hlimit hclock htime)

section Improve

variable {k : Int} {evaluated aggregating : Bool}

/-- Aggregation is done if it goes on. -/
theorem aggregateIf_onward (h : Onward setting start k (.rejected evaluated) s) :
    ∃ s', aggregateIf (s.engine.aggregating setting.options) s = .ok () s' ∧
      Onward setting start k (.sampling (s.engine.aggregating setting.options) evaluated) s' := by
  cases hon : s.engine.aggregating setting.options with
  | true =>
    obtain ⟨_, s', hrun, _⟩ := (h.reached.inv hinv).aggregate_leads hon
    exact ⟨s', hrun, h.step_zero hinv (.aggregate hon hrun)⟩
  | false => exact ⟨s, rfl, h.step_zero hinv (.omitAggregation hon)⟩

/-- The full step gives cuts if it is not too long. -/
theorem fullStep_onward (h : Onward setting start k (.sampling aggregating evaluated) s) :
    ∃ cuts s', fullStep setting evaluated s = .ok cuts s' ∧
      Onward setting start k (.sampled aggregating cuts) s' := by
  have hinv' := h.reached.inv hinv
  unfold fullStep
  rw [bind_of_ok (solver_run s), bind_of_ok (workspace_run s)]
  by_cases hnear : setting.options.addFarPoints = true ∨
      s.solver.stepNormInf ≤ s.workspace.radii.stationarity
  · obtain ⟨cuts, s', hrun, _⟩ := trialCut_leads hinv'.base.toSound hinv'.holds.2.2
    rw [if_pos (by simpa using hnear)]
    exact ⟨cuts, s', hrun, h.step_zero hinv (.sampleFull hnear hrun)⟩
  · rw [if_neg (by simpa using hnear)]
    exact ⟨[], s, rfl, h.step_zero hinv (.omitFull hnear)⟩

/-- The shortened step is accepted, or it may give a cut. -/
theorem shortenedStep_onward {cuts : List (Cut α)}
    (h : Onward setting start k (.sampled aggregating cuts) s) :
    ∃ accepted new s', shortenedStep setting s = .ok (accepted, new) s' ∧
      (accepted = true → Reached setting start (.ended .success) s') ∧
      (accepted = false → Onward setting start k (.chosen aggregating (cuts ++ new)) s') := by
  have homit : ∀ hoff : setting.options.tryShortenedStep = false ∨ s.solver.stepNormInf ≤ 0,
      Onward setting start k (.chosen aggregating (cuts ++ [])) s := by
    intro hoff
    rw [List.append_nil]
    exact h.step_zero hinv (.omitShort hoff)
  unfold shortenedStep
  cases hon : setting.options.tryShortenedStep with
  | false => exact ⟨false, [], s, rfl, fun hf => Bool.noConfusion hf, fun _ => homit (.inl hon)⟩
  | true =>
    rw [if_neg (by simp), bind_of_ok (solver_run s)]
    by_cases hnorm : s.solver.stepNormInf ≤ 0
    · rw [if_pos hnorm]
      exact ⟨false, [], s, rfl, fun hf => Bool.noConfusion hf, fun _ => homit (.inr hnorm)⟩
    · have hsolves : s.Solves setting.oracle := (h.reached.inv hinv).holds.1
      obtain ⟨evaluated, s₁, htry, _⟩ := tryStep_leads hsolves.toSound (shortStepsize
        setting.options s.workspace.radii.stationarity s.solver.stepNormInf)
        hsolves.length_direction
      have htested := h.step_zero hinv (.testShort hon hnorm htry)
      unfold shortStepsize at htry
      rw [if_neg hnorm, bind_of_ok (workspace_run s), tryStep_bind, bind_of_ok htry,
        bind_of_ok (accepts_run ..)]
      change ∃ accepted new s', (if s₁.passes setting evaluated 1 = true then _ else _ :
        SearchM α (Bool × List (Cut α))) (s₁.tested setting evaluated) = _ ∧ _
      cases hpass : s₁.passes setting evaluated 1 with
      | true =>
        rw [hpass] at htested
        exact ⟨true, [], _, rfl, fun _ => htested.reached.step (.acceptShort rfl),
          fun hf => Bool.noConfusion hf⟩
      | false =>
        rw [hpass] at htested
        have hinv' := htested.reached.inv hinv
        obtain ⟨new, s', hrun, _⟩ :=
          trialCut_leads hinv'.base.toSound hinv'.holds.2.2.2
        refine ⟨false, new, s', ?_, fun hf => Bool.noConfusion hf,
          fun _ => htested.step_zero hinv (.sampleShort hrun)⟩
        rw [if_neg (by simp), bind_of_ok hrun]
        rfl

/-- After cuts were added, the search solves again. -/
theorem solveAgain_arrives {added : List (Cut α)}
    (h : Onward setting start k (.augmented aggregating added) s) :
    Arrives setting start (Onward setting start (k + 1) (.round false))
      (solveAgain setting added aggregating s) := by
  obtain ⟨hbase, hholds, _⟩ := h.reached.inv hinv
  unfold solveAgain
  rw [bind_of_ok (workspace_run s)]
  cases hthreshold : pointThreshold setting.options s.workspace.dimension with
  | error fault =>
    have hfault : fault = .tooLarge := pointThreshold_error hthreshold
    subst hfault
    rw [bind_of_error (orFault_error rfl)]
    exact ⟨rfl, hthreshold, aggregating, added, h.reached⟩
  | ok threshold =>
    rw [bind_of_ok (orFault_ok rfl)]
    cases aggregating with
    | false =>
      obtain ⟨planes, hplanes⟩ := Cut.denoteAll_of_valid hholds.valid
      have hsolved := h.step hinv (.solveWarm hthreshold hplanes)
      have hsolve := continue_run setting hbase (hholds.denote_append hplanes)
      rw [if_neg (by simp), if_neg (by simp), bind_of_ok (orFault_ok hplanes.mapM_coefficient),
        bind_of_ok (solver_run s), bind_of_ok (orFault_ok (extend_eq hplanes))]
      change Arrives _ _ _ ((solve setting true >>= _) (s.on (s.extended planes)))
      rw [bind_of_ok hsolve]
      exact settle_arrives hinv .warm hsolved
    | true =>
      by_cases hfew : (s.workspace.bundle.size : Int) < threshold
      · obtain ⟨planes, hplanes⟩ := Cut.denoteAll_of_valid hbase.aggregatedCuts
        rw [if_pos (by simpa using hfew), bind_of_ok (engine_run s),
          resolve_bind hbase hplanes]
        exact settle_arrives hinv .aggregated
          (h.step hinv (.solveAggregated hthreshold hfew hplanes))
      · obtain ⟨s₁, hnote⟩ : ∃ s₁, note [.switchedToFull s.workspace.bundle.size threshold] s =
          .ok () s₁ := ⟨_, rfl⟩
        have hbase₁ := hbase.keeps (keeps_of_note setting.oracle hnote)
        obtain ⟨planes, hplanes⟩ := Cut.denoteAll_of_valid hbase₁.fullCuts
        have hsolved := (h.step hinv (.solveSwitching hthreshold hfew hnote hplanes)).step_zero
          hinv .markSwitch
        rw [if_neg (by simpa using hfew), if_pos rfl, bind_of_ok hnote, bind_of_ok (engine_run s₁),
          resolve_bind hbase₁ hplanes]
        exact settle_arrives hinv .switched hsolved

/-- Improving the model arrives at the next round by one solve, or stops the search. -/
theorem improve_arrives (h : Onward setting start k (.rejected evaluated) s) :
    Arrives setting start (Onward setting start (k + 1) (.round false))
      (improve setting evaluated s) := by
  obtain ⟨s₁, haggregate, h₁⟩ := aggregateIf_onward hinv h
  obtain ⟨cuts, s₂, hsample, h₂⟩ := fullStep_onward hinv h₁
  obtain ⟨accepted, new, s₃, hshort, haccepted, hrejected⟩ := shortenedStep_onward hinv h₂
  unfold improve
  rw [bind_of_ok (engine_run s)]
  change Arrives _ _ _ ((aggregateIf (s.engine.aggregating setting.options) >>= _) s)
  rw [bind_of_ok haggregate, bind_of_ok hsample, bind_of_ok hshort]
  cases accepted with
  | true => exact haccepted rfl
  | false =>
    have h₃ := hrejected rfl
    obtain ⟨s₄, hreport⟩ : ∃ s₄, reportRound setting (s₃.withEngine
      (·.augmented (s.engine.aggregating setting.options) (cuts ++ new))) = .ok () s₄ := by
      obtain ⟨_, s₄, hrun, _⟩ := reportRound_leads setting (s₃.withEngine
        (·.augmented (s.engine.aggregating setting.options) (cuts ++ new)))
      exact ⟨s₄, hrun⟩
    change Arrives _ _ _ ((reportRound setting >>= _) (s₃.withEngine
      (·.augmented (s.engine.aggregating setting.options) (cuts ++ new))))
    rw [bind_of_ok hreport]
    exact solveAgain_arrives hinv (h₃.step_zero hinv (.augment hreport))

end Improve

/-- A round ends the search, or the next one follows after at least one solve. -/
theorem round_arrives {first : Bool} {k : Int} (h : Onward setting start k (.round first) s) :
    Arrives setting start (Onward setting start (k + 1) (.round false))
      (round setting first s) := by
  obtain ⟨s₁, hflush⟩ : ∃ s₁, flushReport (s.logged .roundBegan) = .ok () s₁ := ⟨_, rfl⟩
  have hbase := (h.reached.inv hinv).base
  have hsound : s₁.Sound setting.oracle :=
    hbase.toSound.keeps ((((flushReport_leads _).of_run hflush).quiet setting.oracle).toKeeps)
  obtain ⟨evaluated, s₂, hevaluate, _⟩ := evaluateTrial_leads hsound
  have hbegun := h.step_zero hinv (.beginRound hflush hevaluate)
  have hrecord : record .roundBegan s = .ok () (s.logged .roundBegan) := rfl
  unfold round
  rw [bind_of_ok hrecord, bind_of_ok hflush, bind_of_ok hevaluate]
  by_cases hfail : evaluated = false ∧ first = true
  · obtain ⟨rfl, rfl⟩ := hfail
    exact hbegun.reached.step (.failTrial rfl)
  · rw [if_neg (by simpa using hfail)]
    refine arrives_bind (fun _ => rfl) rfl
      (acceptanceAndLimits_arrives hinv hbegun fun hf => ?_) fun s' h' => improve_arrives hinv h'
    cases evaluated
    · exact absurd ⟨rfl, hf⟩ hfail
    · rfl

/-- How a search comes out: it has ended, or stopped with a fault. -/
def Concludes (setting : Setting α) (start : SearchState α) :
    EStateM.Result (Fault α) (SearchState α) Outcome → Prop
  | .ok outcome s => Reached setting start (.ended outcome) s
  | .error fault s => fault = .tooLarge ∧ Overflows setting start s

/-- The rounds end before they run out: each makes a solve, and past the limit on inner
iterations no round goes on. -/
theorem rounds_concludes {fuel : Nat} {first : Bool} {k : Int}
    (h : Onward setting start k (.round first) s)
    (hfuel : (setting.options.iterationLimit : Int) + 3 ≤ fuel + k)
    (hfirst : first = true → fuel ≠ 0) :
    Concludes setting start (rounds setting fuel first s) := by
  induction fuel generalizing s first k with
  | zero =>
    have hcounts := (h.reached.inv hinv).counts
    have hle := h.le_iterations
    cases first with
    | true => exact absurd rfl (hfirst rfl)
    | false =>
      simp only [Stage.Counts] at hcounts
      omega
  | succ fuel ih =>
    have hround := round_arrives hinv h
    unfold rounds
    cases hr : round setting first s with
    | error fault s' =>
      rw [hr] at hround
      rw [bind_of_error hr]
      exact hround
    | ok result s' =>
      rw [hr] at hround
      rw [bind_of_ok hr]
      cases result with
      | some outcome => exact hround
      | none => exact ih hround (by push_cast at hfuel; omega) fun hf => Bool.noConfusion hf

/-- From the solve with the cuts of all near points on. -/
theorem opened_concludes (h : Reached setting start .opened s) :
    Concludes setting start ((do
      if let some outcome ← solveFull setting then return outcome
      modifyEngine fun e => { e with aggregatedCuts := e.fullCuts }
      rounds setting (setting.options.iterationLimit + 2) true : SearchM α Outcome) s) := by
  have hfull := solveFull_arrives hinv h
  cases hr : solveFull setting s with
  | error fault s' =>
    rw [hr] at hfull
    rw [bind_of_error hr]
    exact hfull
  | ok result s' =>
    rw [hr] at hfull
    rw [bind_of_ok hr]
    cases result with
    | some outcome => exact hfull
    | none =>
      have hround : Reached setting start (.round true) (s'.withEngine Engine.entered) := hfull
      have hcounts := (hround.inv hinv).counts
      simp only [Stage.Counts] at hcounts
      exact rounds_concludes hinv ⟨hround, hcounts.1⟩ (by push_cast; omega) fun _ => by omega

/-- From the stage at which the current point is evaluated on. -/
theorem ready_concludes (h : Reached setting start .ready s) :
    Concludes setting start ((do
      if setting.options.tryGradientStep then
        if let some outcome ← gradientStep setting then return outcome
      if let some outcome ← solveFull setting then return outcome
      modifyEngine fun e => { e with aggregatedCuts := e.fullCuts }
      rounds setting (setting.options.iterationLimit + 2) true : SearchM α Outcome) s) := by
  cases hon : setting.options.tryGradientStep with
  | false => exact opened_concludes hinv (h.step (.omitGradient hon))
  | true =>
    have hgradient := gradientStep_arrives hinv h hon
    rw [if_pos rfl]
    cases hr : gradientStep setting s with
    | error fault s' =>
      rw [hr] at hgradient
      rw [bind_of_error hr]
      exact hgradient
    | ok result s' =>
      rw [hr] at hgradient
      rw [bind_of_ok hr]
      cases result with
      | some outcome => exact hgradient
      | none => exact opened_concludes hinv hgradient

end Follow

end Search

end NonsmoothDescent
