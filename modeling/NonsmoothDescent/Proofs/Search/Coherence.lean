import NonsmoothDescent.Proofs.Subproblem.Transfer
import NonsmoothDescent.Proofs.Search.Budget
import NonsmoothDescent.Proofs.Search.History

/-!
# The step that a call leaves behind

However a call ends, the direction it leaves is the step of its last solve and the trial
point lies along it: at the end of the gradient step or of the shortened step if that was
accepted, and at the end of the full step otherwise. Which step was accepted is told by
the notices. The current point is neither replaced nor moved. Over any history of calls
the totals of the workspace are what its journals tell: all solves, all iterations that
the minimizer has reported, and the time between the first and the last clock reading of
each call.
-/

namespace NonsmoothDescent

section Generic

variable {α : Type}

/-- The notice tells that a step other than the full one was accepted. -/
def Notice.isAcceptance : Notice α → Bool
  | .gradientStepAccepted | .shortenedStepAccepted _ => true
  | _ => false

/-- A notice of acceptance is a search's own. -/
theorem Notice.isOwn_of_isAcceptance (n : Notice α) (h : n.isAcceptance = true) :
    n.isOwn = true := by
  cases n <;> first | rfl | cases h

/-- A trial was accepted that is not the end of the full step. -/
def Stage.Accepts : Stage α → Prop
  | .gradientTested accepted | .shortTested _ _ _ accepted => accepted = true
  | _ => False

variable [Scalar α]

/-- What has been told of accepted steps, in order. -/
def SearchState.acceptances (s : SearchState α) : List (Notice α) :=
  s.workspace.heard Notice.isAcceptance

/-- How far along the direction the trial point lies, given what was told of accepted steps,
the stationarity radius and the largest entry of the direction. -/
inductive Taken (options : Options α) (radius norm : α) : List (Notice α) → α → Prop where
  | full : Taken options radius norm [] 1
  | gradient : Taken options radius norm [.gradientStepAccepted] options.gradientStepsize
  | shortened (stepsize : α) : Taken options radius norm [.shortenedStepAccepted stepsize]
      (shortStepsize options radius norm)

section Steps

variable {setting : Setting α} {a b : Stage α} {s s' start : SearchState α} {outcome : Outcome}

/-- A step tells of an accepted trial only where there is one. -/
theorem Step.acceptances_eq (hstep : Step setting a s b s') (ha : ¬ a.Accepts) :
    s'.acceptances = s.acceptances := by
  obtain ⟨new, htold, hsaid⟩ := hstep.speaks.told
  have hnone : new.filter Notice.isAcceptance = [] := by
    refine List.filter_eq_nil_iff.mpr fun n hn hacceptance => ha ?_
    have hn := hsaid n hn
    cases n with
    | gradientStepAccepted =>
      obtain rfl : a = .gradientTested true := hn
      rfl
    | shortenedStepAccepted _ =>
      obtain ⟨_, _, _, rfl⟩ := hn
      rfl
    | _ => cases hacceptance
  unfold SearchState.acceptances
  rw [Workspace.heard_eq Notice.isOwn_of_isAcceptance, htold, List.filter_append, hnone,
    List.append_nil, ← Workspace.heard_eq Notice.isOwn_of_isAcceptance]

/-- A notice of acceptance comes behind the others. -/
theorem SearchState.acceptances_note {n : Notice α} (hn : n.isAcceptance = true)
    (hr : Search.note [n] s = .ok () s') : s'.acceptances = s.acceptances ++ [n] := by
  cases hr
  change (s.workspace.notices ++ [n]).toList.filter _ = _
  rw [Array.toList_appendList, List.filter_append, List.filter_singleton, hn]
  rfl

/-- While a search has not ended it has told of no accepted step. -/
theorem Reached.acceptances_eq (h : Reached setting start b s)
    (hb : ∀ outcome, b ≠ .ended outcome) : s.acceptances = start.acceptances := by
  induction h with
  | start => rfl
  | @step a b s s' hreached hstep ih =>
    have hends : ¬ a.Accepts ∧ ∀ outcome, a ≠ .ended outcome := by
      cases hstep with
      | acceptGradient | acceptShort => exact absurd rfl (hb _)
      | _ => exact ⟨by simp [Stage.Accepts], nofun⟩
    exact (hstep.acceptances_eq hends.1).trans (ih hends.2)

/-- Where a search ends, direction and trial point are those of the step that was taken. -/
theorem Reached.taken (hinv : Inv setting .ready start.toMoment)
    (h : Reached setting start (.ended outcome) s) :
    s.Stepped ∧ ∃ new t radius, s.acceptances = start.acceptances ++ new ∧ s.TrialAt t ∧
      (setting.rule.Steady → radius = start.workspace.radii.stationarity) ∧
      Taken setting.options radius s.solver.stepNormInf new t := by
  obtain _ | @⟨a, _, u, _, hreached, hstep⟩ := h
  have hinv' := hreached.inv hinv
  have hs := hinv'.base.toSound
  have hplaced := hreached.placed hinv
  have hkeeps := (hstep.quiet hinv' trivial).toKeeps
  have hsolver := hkeeps.solver_eq'
  have hstepped : u.Stepped → s.Stepped := fun h => h.keeps hkeeps
  have hbefore : u.acceptances = start.acceptances :=
    hreached.acceptances_eq fun outcome ha => by subst ha; cases hstep
  have hfull : ¬ a.Accepts → s.acceptances = start.acceptances ++ [] :=
    fun ha => by rw [hstep.acceptances_eq ha, hbefore, List.append_nil]
  cases hstep with
  | acceptGradient hnote =>
    have htold := SearchState.acceptances_note rfl hnote
    exact ⟨hstepped hinv'.holds.toStepped, _, _, _, hbefore ▸ htold,
      trialAt_of_note hplaced hs hnote, fun _ => rfl, .gradient⟩
  | @acceptShort _ _ _ _ _ stepsize hnote =>
    have htold := SearchState.acceptances_note rfl hnote
    obtain ⟨_, r, hr, hat⟩ := hplaced
    exact ⟨hstepped hinv'.holds.1.toStepped, _, _, r, hbefore ▸ htold,
      trialAt_of_note hat hs hnote, hr, hsolver ▸ .shortened stepsize⟩
  | failTrial hnote =>
    exact ⟨hstepped hinv'.holds.1.toStepped, [], 1, _, hfull id,
      trialAt_of_note hplaced hs hnote, fun _ => rfl, .full⟩
  | runOut _ hclock =>
    exact ⟨hstepped hinv'.holds.1.toStepped, [], 1, _, hfull id,
      trialAt_of_logs hplaced hs ((Search.elapsed_leads _ _).of_run hclock), fun _ => rfl, .full⟩
  | failSolver | acceptFull | reachLimit =>
    exact ⟨hstepped hinv'.holds.1.toStepped, [], 1, _, hfull id, hplaced, fun _ => rfl, .full⟩

end Steps

end Generic

section Exact

variable {K : Type} [Field K] [LinearOrder K] [FloorRing K]

/-- A moved sample stands at the sum of its position and the step. -/
theorem Sample.position_moved (s : Sample K) (t : K) (d : List K) :
    (s.moved t d).position = Vec.add s.position (Vec.scale t d) := by
  simp [moved, Vec.add, Vec.scale]

/-- Direction and trial point of a state after a call are those of the call's last solve. -/
structure Takes (setting : Setting K) (entry s : SearchState K) (m : Moment K) : Prop where
  direction_eq : s.workspace.direction = m.solver.step
  normInf_le : Vec.normInf s.workspace.direction ≤ entry.workspace.radii.trust
  /-- The trial point is the end of the step that was accepted, or of the full one. The
  shortened step is measured by the stationarity radius of its moment, which is that at entry
  unless the rule changes the radii without firing. -/
  trial : ∃ new t radius, s.acceptances = entry.acceptances ++ new ∧
    (setting.rule.Steady → radius = entry.workspace.radii.stationarity) ∧
    Taken setting.options radius (Vec.normInf s.workspace.direction) new t ∧
    s.workspace.trialSample.position =
      Vec.add s.workspace.currentSample.position (Vec.scale t s.workspace.direction)

/-- What a call leaves behind fits together. -/
structure Call.Coherent (c : Call K) : Prop where
  current_eq : c.final.workspace.current = c.entry.workspace.current
  position_eq :
    c.final.workspace.currentSample.position = c.entry.workspace.currentSample.position
  takes : ∀ m, c.solves.getLast? = some m → Takes c.setting c.entry c.final m

/-- The time from the first clock reading of a call to its last one. -/
def Call.duration (c : Call K) : K :=
  c.setting.clock (c.final.workspace.clockReadings - 1) -
    c.setting.clock c.entry.workspace.clockReadings

/-- Both radii are positive. -/
def Radii.Positive (radii : Radii K) : Prop := 0 < radii.stationarity ∧ 0 < radii.trust

/-- A change between calls that leaves the accounts alone and the radii positive. -/
structure Idle (w w' : Workspace K) : Prop where
  innerIterations_eq : w'.totalInnerIterations = w.totalInnerIterations
  minimizerIterations_eq : w'.totalMinimizerIterations = w.totalMinimizerIterations
  searchTime_eq : w'.searchTime = w.searchTime
  positive : w.radii.Positive → w'.radii.Positive

/-- The totals of a workspace are what the calls of its history add up to. -/
structure Totals (calls : List (Call K)) (first w : Workspace K) : Prop where
  innerIterations_eq : w.totalInnerIterations =
    first.totalInnerIterations + (calls.map fun c => (c.solves.length : Int)).sum
  minimizerIterations_eq : w.totalMinimizerIterations =
    first.totalMinimizerIterations + (calls.map fun c => Search.minimizerWork c.final.journal).sum
  searchTime_eq : w.searchTime = first.searchTime + (calls.map Call.duration).sum

/-- A call adds what it has done to the totals. -/
theorem Totals.called {first : Workspace K} {calls : List (Call K)} {c : Call K}
    (h : Totals calls first c.entry.workspace)
    (hw : c.entry.workspace.WellFormed c.setting.oracle) (hcompleted : c.Completed) :
    Totals (calls ++ [c]) first c.final.workspace := by
  have hcall := Call.cases hw
  obtain ⟨outcome, haccounted⟩ := Call.accounted hw hcompleted
  obtain ⟨readings, hreadings, htime⟩ := haccounted.searchTime_eq
  have hsolves : c.final.workspace.innerIterations = c.solves.length := by
    rw [Call.final, hcall.withinBudget.iterations_eq, ← hcall.withinBudget.length_solvesOf]
    rfl
  have hwork : c.final.workspace.minimizerIterations = Search.minimizerWork c.final.journal :=
    hcall.minimizerIterations_eq
  have hduration : c.duration =
      c.setting.clock readings - c.setting.clock c.entry.workspace.clockReadings := by
    rw [Call.duration, hreadings, Nat.add_sub_cancel]
  refine ⟨?_, ?_, ?_⟩
  · rw [haccounted.innerIterations_eq, h.innerIterations_eq, hsolves]
    simp [add_assoc]
  · rw [haccounted.minimizerIterations_eq, h.minimizerIterations_eq, hwork]
    simp [add_assoc]
  · rw [htime, h.searchTime_eq, ← hduration]
    simp [add_assoc]

/-- Totals are kept through every history of completed calls. -/
theorem History.totals {o : Oracle K} {first w : Workspace K} {calls : List (Call K)}
    (h : History o Idle first calls w) (hw : first.WellFormed o)
    (hcompleted : ∀ call ∈ calls, call.Completed) : Totals calls first w := by
  have hentries := h.wellFormed hw
  induction h with
  | start => exact ⟨by simp, by simp, by simp⟩
  | changed _ hidle _ ih =>
    obtain ⟨hinner, hminimizer, htime⟩ := ih hcompleted hentries
    exact ⟨hidle.innerIterations_eq.trans hinner, hidle.minimizerIterations_eq.trans hminimizer,
      hidle.searchTime_eq.trans htime⟩
  | called _ _ ih =>
    obtain ⟨hbefore, hlast⟩ := List.forall_mem_append.mp hcompleted
    obtain ⟨hbefore', hlast'⟩ := List.forall_mem_append.mp hentries
    exact (ih hbefore hbefore').called (hlast' _ (List.mem_singleton_self _))
      (hlast _ (List.mem_singleton_self _))

variable [IsStrictOrderedRing K]

/-- Every entry of the step of a solve lies within the bound. -/
theorem Solver.allows_solveBy (s : Solver K) (warm : Bool) (ask : Request K → Answer K)
    (hb : s.subproblem.bound.Positive) :
    ∀ x ∈ (s.solveBy warm ask).solver.step, s.subproblem.bound.Allows x := by
  obtain ⟨_, _, he, _⟩ := s.solveBy_eq warm ask
  rw [he]
  intro x hx
  rcases s.solveFrom_cases ask (s.startOf warm) with ⟨_, _, hf⟩ | ⟨weights, _, _, _, hf⟩ <;>
    rw [hf] at hx
  · obtain rfl : x = 0 := List.eq_of_mem_replicate hx
    cases hbound : s.subproblem.bound with
    | unbounded => trivial
    | within radius =>
      rw [hbound] at hb
      change |(0 : K)| ≤ radius
      rw [abs_zero]
      exact (show 0 < radius from hb).le
  · obtain ⟨v, _, rfl⟩ := List.mem_map.mp hx
    exact StepBound.allows_clip hb (-v)

variable {setting : Setting K} {entry start s s' : SearchState K} {outcome : Outcome}
  {result : EStateM.Result (Fault K) (SearchState K) Outcome}

/-- A step is no longer than the trust-region radius at entry. -/
theorem Opens.stepNormInf_le (hopens : Opens setting entry start) {b : Stage K}
    (h : Reached setting start b s) (hb : ¬ b.Unsolved) (htrust : 0 < entry.workspace.radii.trust) :
    s.solver.stepNormInf ≤ entry.workspace.radii.trust := by
  have hbound : s.solver.subproblem.bound = .within entry.workspace.radii.trust := by
    rw [(h.alike hopens.inv).bound_eq, hopens.bound_eq]
    exact if_pos htrust
  have hallows := h.of_solves (P := fun solver => solver.subproblem.bound.Positive →
    ∀ x ∈ solver.step, solver.subproblem.bound.Allows x) (fun solver warm ask => by
      rw [Solver.solveBy_subproblem]
      exact solver.allows_solveBy warm ask) hopens.inv hb
  rw [hbound] at hallows
  exact Vec.normInf_le_iff.mpr ⟨htrust.le, hallows htrust⟩

/-- A search that has ended and was accounted for leaves the step of its last solve. -/
theorem Opens.takes {clockStart : K} (hopens : Opens setting entry start)
    (hclear : Clear entry start) (hreached : Reached setting start (.ended outcome) s)
    (hcloses : Closes s s') (haccount : Search.account setting clockStart outcome s = .ok () s')
    (htrust : 0 < entry.workspace.radii.trust) {m : Moment K}
    (hlast : (solvesOf s'.journal.toList).getLast? = some m) : Takes setting entry s' m := by
  obtain ⟨hstepped, new, t, radius, hnew, hat, hradius, htaken⟩ := hreached.taken hopens.inv
  have hkeeps := (hcloses.quiet setting.oracle).toKeeps
  have hstepped' := hstepped.keeps hkeeps
  have hnorm := hopens.stepNormInf_le hreached id htrust
  have hat' : s'.TrialAt t := hat.keeps (hreached.inv hopens.inv).base.toSound hkeeps (by
    obtain ⟨_, _, _, _, _, _, rfl⟩ := hcloses
    rfl)
  have htold : s'.acceptances = s.acceptances :=
    Search.heard_account Notice.isOwn_of_isAcceptance (fun _ => rfl) (fun _ _ _ _ _ => rfl)
      haccount
  have hfirst : start.acceptances = entry.acceptances := by
    have hsame : start.workspace.told = entry.workspace.told := congrArg Prod.snd hclear.speech_eq
    unfold SearchState.acceptances
    rw [Workspace.heard_eq Notice.isOwn_of_isAcceptance, hsame,
      ← Workspace.heard_eq Notice.isOwn_of_isAcceptance]
  obtain ⟨m', hlast', hsolver⟩ := hreached.solver_of_last hopens.inv id
  rw [(hcloses.quiet setting.oracle).journal_eq, hlast'] at hlast
  cases hlast
  have hdirection : s'.workspace.direction = s.solver.step := by
    rw [hstepped'.direction_eq, hkeeps.solver_eq']
  refine ⟨hdirection.trans (congrArg Solver.step hsolver.symm), ?_, new, t, radius, ?_,
    hopens.radii_eq ▸ hradius, ?_, ?_⟩
  · rw [hdirection]
    exact hnorm
  · rw [htold, hnew, hfirst]
  · rw [hdirection]
    exact htaken
  · rw [← Sample.position_moved, hstepped'.direction_eq]
    exact hat'

/-- After a call with a solve, direction and trial are those of its last solve. -/
theorem CallResult.takes (h : CallResult setting entry result)
    (hcompleted : ∀ fault s, result = .error fault s → fault = .timeLimitReached)
    (htrust : 0 < entry.workspace.radii.trust) {m : Moment K}
    (hlast : (solvesOf (finalState result).journal.toList).getLast? = some m) :
    Takes setting entry (finalState result) m := by
  cases h with
  | unevaluated hfresh hcloses =>
    rw [finalState_ok, (hcloses.quiet setting.oracle).journal_eq, hfresh.journal_eq] at hlast
    cases hlast
  | ended hopens hreached hcloses _ _ haccount hclear =>
    exact hopens.takes hclear hreached hcloses haccount htrust hlast
  | timeUp hopens hreached hcloses _ haccount hclear =>
    exact hopens.takes hclear hreached hcloses haccount htrust hlast
  | overflowed => cases hcompleted _ _ rfl

/-- A completed call leaves direction, trial and report in step. -/
theorem Call.coherent {c : Call K} (hw : c.entry.workspace.WellFormed c.setting.oracle)
    (hcompleted : c.Completed) (htrust : 0 < c.entry.workspace.radii.trust) : c.Coherent where
  current_eq := (cases hw).grows.current_eq
  position_eq := ((cases hw).grows.currentSample hw.current_lt).position_eq
  takes _ hlast := (cases hw).takes hcompleted htrust hlast

/-- A rule that was made with a valid factor keeps the radii positive. -/
theorem Radii.Positive.keeps_of_make {tolerance factor : K} {shrinks : Bool} {rule : ShrinkRule K}
    (h : ShrinkRule.make tolerance factor shrinks = .ok rule) :
    rule.toRule.Keeps Radii.Positive := by
  obtain ⟨rfl, _, hfactor, _⟩ := ShrinkRule.of_make h
  refine ShrinkRule.keeps fun radii hradii => ?_
  unfold ShrinkRule.shrink
  split
  · exact ⟨mul_pos hradii.1 hfactor, mul_pos hradii.2 hfactor⟩
  · exact hradii

/-- On a workspace that was made with valid settings, and with rules that keep the radii
positive, every call that comes to its end leaves the current point where it is, the step
of its last solve as direction and the end of the accepted step as trial point, within the
trust-region radius. The totals are the numbers of solves, the iterations that the minimizer
has reported and the durations of all calls. -/
theorem steps_coherent {o : Oracle K} {clock : Nat → K} {settings : WorkspaceSettings K}
    {origin : Nested K} {first w : Workspace K} {calls : List (Call K)}
    (hcreate : Workspace.create o.dimension clock settings origin = .ok first)
    (h : History o Idle first calls w) (hcompleted : ∀ call ∈ calls, call.Completed)
    (hrules : ∀ call ∈ calls, call.setting.rule.Keeps Radii.Positive) :
    (∀ call ∈ calls, call.Coherent) ∧
      w.totalInnerIterations = (calls.map fun c => (c.solves.length : Int)).sum ∧
      w.totalMinimizerIterations =
        (calls.map fun c => Search.minimizerWork c.final.journal).sum ∧
      w.searchTime = (calls.map Call.duration).sum := by
  have hw := Workspace.wellFormed_create hcreate
  obtain ⟨⟨hstationarity, htrust, _⟩, _, _, _, _, rfl⟩ := Workspace.exists_of_create hcreate
  obtain ⟨hinner, hminimizer, htime⟩ := h.totals hw hcompleted
  obtain ⟨_, hradii⟩ := h.radii hw ⟨not_le.mp hstationarity, not_le.mp htrust⟩
    (fun _ _ hidle => hidle.positive) hrules
  exact ⟨fun call hc => Call.coherent (h.wellFormed hw call hc) (hcompleted call hc)
    (hradii call hc).2, hinner.trans (zero_add _), hminimizer.trans (zero_add _),
    htime.trans (zero_add _)⟩

end Exact

/-- Searches in the valley on a clock that tells the number of its readings. -/
def timed (options : Options ℚ) (rule : RadiusRule ℚ) : Setting ℚ where
  oracle := valley
  options
  rule
  clock n := n
  minimizer _ _ := ⟨[1 / 2, 1 / 2], 0, 3, ""⟩

/-- A workspace on the slope of the valley, with time for eight readings. -/
def onSlope : Workspace ℚ where
  dimension := 1
  samples := #[{ position := [1 / 2] }]
  direction := [0]
  radii := ⟨0.1, 2⟩
  clockReadings := 1
  startTime := 0
  timeLimit := 8
  searchTime := 0

/-- The workspace on the slope is created from its settings. -/
theorem create_onSlope :
    Workspace.create valley.dimension (timed {} .never).clock
      { trust := 2, timeLimit := 8 } (.row [.number (1 / 2)]) = .ok onSlope := by
  have hstationarity : ¬ (0.1 : ℚ) ≤ 0 := by norm_num
  have htrust : ¬ (2 : ℚ) ≤ 0 := by norm_num
  have htime : ¬ (8 : ℚ) < 0 := by norm_num
  exact Workspace.create_eq hstationarity htrust htime rfl

/-- A call that ends with a shortened step. -/
def shortCall : Call ℚ where
  setting := timed { tryGradientStep := false } ShrinkRule.standard.toRule
  entry := { workspace := onSlope, engine := {} }

/-- The next one ends with a gradient step. -/
def gradientCall : Call ℚ := shortCall.next (timed {} ShrinkRule.standard.toRule)

/-- The last one samples the other side and asks the minimizer until the time is up. -/
def longCall : Call ℚ := gradientCall.next
  (timed { addFarPoints := true, tryGradientStep := false, tryShortenedStep := false } .never)

/-- The three calls on the slope are a history. -/
theorem history_longCall :
    History valley Idle onSlope [shortCall, gradientCall, longCall] longCall.final.workspace := by
  have hshort : History valley Idle onSlope [] shortCall.entry.workspace := .start
  have hgradient : History valley Idle onSlope [shortCall] gradientCall.entry.workspace :=
    hshort.next rfl _
  have hlong : History valley Idle onSlope [shortCall, gradientCall] longCall.entry.workspace :=
    hgradient.next rfl _
  exact hlong.called rfl

/-- Three calls make four solves and get three iterations out of the minimizer. Each leaves
another kind of step behind. -/
theorem steps_coherent_in_valley :
    (∀ call ∈ [shortCall, gradientCall, longCall], call.Coherent) ∧
      [shortCall, gradientCall, longCall].map (fun c => (c.solves.length,
        c.final.acceptances.length, c.final.workspace.trialSample.position)) =
        [(1, 1, [499 / 1000]), (1, 2, [4999 / 10000]), (2, 2, [1 / 2])] ∧
      longCall.final.workspace.totalInnerIterations = 4 ∧
      longCall.final.workspace.totalMinimizerIterations = 3 ∧
      longCall.final.workspace.searchTime = 6 := by
  have hcompleted : ∀ call ∈ [shortCall, gradientCall, longCall], call.Completed := by
    refine Call.completed_of_all ?_
    decide +kernel
  have hrules : ∀ call ∈ [shortCall, gradientCall, longCall],
      call.setting.rule.Keeps Radii.Positive := by
    simp only [List.forall_mem_cons]
    have hmade : ShrinkRule.make 0.1 0.1 true = .ok (.standard : ShrinkRule ℚ) := by
      norm_num [ShrinkRule.make, ShrinkRule.standard]
    have hstandard := Radii.Positive.keeps_of_make hmade
    exact ⟨hstandard, hstandard, RadiusRule.keeps_never, fun _ hc => absurd hc List.not_mem_nil⟩
  obtain ⟨hcoherent, hinner, hminimizer, htime⟩ :=
    steps_coherent create_onSlope history_longCall hcompleted hrules
  refine ⟨hcoherent, by decide +kernel, hinner.trans ?_, hminimizer.trans ?_, htime.trans ?_⟩ <;>
    decide +kernel

end NonsmoothDescent
