import NonsmoothDescent.Proofs.Options
import NonsmoothDescent.Proofs.Search.Journal
import NonsmoothDescent.Proofs.Search.Trial

/-!
# What outcomes mean

A call tells by its outcome alone how it ended. Success means that the trial point lowers
the objective enough, that the radius rule fired, or that the limit on inner iterations
was exceeded and this does not count as failure. Where a limit ended the call, the trial
point is the end of the full step and was not acceptable. A trial point that cannot be
evaluated ends a call in its first round only.

Whether a trial point counts as evaluated is up to the workspace. In joint evaluation it
does not if the gradient failed there, however low the objective is, and then it is not
accepted either.
-/

namespace NonsmoothDescent

variable {K : Type} [Field K] [LinearOrder K] [FloorRing K]

/-- The trial point is evaluated, and its value is below that of the current point by more
than a margin. -/
def Workspace.Lowers (w : Workspace K) (margin : K) : Prop :=
  w.TrialEvaluated ∧ ∃ trial current, w.trialSample.objective.value? = some trial ∧
    w.currentSample.objective.value? = some current ∧ trial < current - margin

/-- The decrease that a trial point must exceed: a share of half the squared length of the
direction, for a step of the given size. -/
def Workspace.margin (w : Workspace K) (options : Options K) (stepsize : K) : K :=
  options.acceptanceTolerance * stepsize * (0.5 * Vec.normSq w.direction)

/-- The margin is the accepted share of half the squared length of the step. -/
theorem Workspace.margin_eq (w : Workspace K) (options : Options K) (stepsize : K) :
    w.margin options stepsize =
      options.acceptanceTolerance * stepsize * (1 / 2 * Vec.normSq w.direction) := by
  have hhalf : (0.5 : K) = 1 / 2 := by norm_num
  rw [← hhalf]
  rfl

namespace SearchState

/-- The trial point lowers the objective enough for a step of the given size. -/
def Improves (options : Options K) (stepsize : K) (s : SearchState K) : Prop :=
  s.workspace.Lowers (s.workspace.margin options stepsize)

/-- The stepsize that counts for the last trial point: that of the gradient step as long as
no round has begun, and one from then on. -/
def countedStepsize (options : Options K) (s : SearchState K) : K :=
  if (roundsOf s.journal.toList).isEmpty then options.gradientStepsize else 1

/-- The trial point is the end of the full step. It does not lower the objective enough, and
the rule did not fire. -/
def Refused (options : Options K) (s : SearchState K) : Prop :=
  s.workspace.trialSample.position =
      (s.workspace.currentSample.moved 1 s.workspace.direction).position ∧
    ¬ s.Improves options 1 ∧ s.engine.ruleRecord.fired = false

/-- The time was up at a reading of the clock, within the limit on inner iterations. -/
structure TimeUp (setting : Setting K) (reading : Nat) (s : SearchState K) : Prop where
  within : s.workspace.innerIterations ≤ setting.options.iterationLimit
  elapsed : s.workspace.timeLimit ≤ setting.clock reading - s.workspace.startTime
  refused : s.Refused setting.options

end SearchState

/-- What an outcome that a call returns means for the state in which it ends. -/
def Outcome.Means (options : Options K) (s : SearchState K) : Outcome → Prop
  | .success =>
    (s.Improves options (s.countedStepsize options) ∧ s.workspace.Lowers 0) ∨
      s.engine.ruleRecord.fired = true ∨
      ((options.iterationLimit : Int) < s.workspace.innerIterations ∧
        options.failOnIterationLimit = false)
  | .iterationLimit =>
    options.failOnIterationLimit = true ∧
      (options.iterationLimit : Int) < s.workspace.innerIterations ∧ s.Refused options
  | .solverFailure =>
    options.failOnSolverFailure = true ∧
      ∃ m, (solvesOf s.journal.toList).getLast? = some m ∧ m.solver.status ≠ .success
  | .evaluationFailure =>
    (roundsOf s.journal.toList = [] ∧
      ¬ (s.workspace.currentSample.objective.isKnown = true ∧
        s.workspace.currentSample.gradient.isKnown = true)) ∨
      ((∃ m, roundsOf s.journal.toList = [m]) ∧ ¬ s.workspace.TrialEvaluated)
  | .timeLimit | .unset => False

/-- What has been found out at a stage. -/
def Stage.Found (options : Options K) : Stage K → SearchState K → Prop
  | .solved _, s => ∃ m, (solvesOf s.journal.toList).getLast? = some m ∧ m.solver = s.solver
  | .begun _ evaluated, s => evaluated = true ↔ s.workspace.TrialEvaluated
  | .gradientTested accepted, s => accepted = true ↔
    s.Improves options options.gradientStepsize ∨ s.engine.ruleRecord.fired = true
  | .tested _ accepted, s | .shortTested _ _ _ accepted, s => accepted = true ↔
    s.Improves options 1 ∨ s.engine.ruleRecord.fired = true
  | _, _ => True

section Acceptance

/-- Asking the rule changes nothing about the trial point. -/
theorem Moment.asked_trialEvaluated (setting : Setting K) (m : Moment K) :
    (m.asked setting).workspace.TrialEvaluated ↔ m.workspace.TrialEvaluated := by
  unfold asked
  dsimp only
  split <;> rfl

variable [IsStrictOrderedRing K] {setting : Setting K} {s s' : SearchState K}

/-- What lowers the objective by a margin lowers it by a smaller one. -/
theorem Workspace.Lowers.mono {w : Workspace K} {margin margin' : K}
    (h : w.Lowers margin) (hle : margin' ≤ margin) : w.Lowers margin' := by
  obtain ⟨hevaluated, trial, current, ht, hc, hlt⟩ := h
  exact ⟨hevaluated, trial, current, ht, hc, hlt.trans_le (by linarith)⟩

/-- With accepted options no margin is negative. -/
theorem Options.Accepted.margin_nonneg {options : Options K} (h : options.Accepted)
    (w : Workspace K) {stepsize : K} (hs : 0 ≤ stepsize) : 0 ≤ w.margin options stepsize := by
  have htolerance : 0 ≤ options.acceptanceTolerance := h.nonneg .acceptanceTolerance
  have hnorm := Vec.normSq_nonneg w.direction
  rw [w.margin_eq]
  exact mul_nonneg (mul_nonneg htolerance hs) (by linarith)

/-- In exact arithmetic the model predicts half the squared length of the step. -/
theorem modelDecrease_eq (s : Solver K) : Search.modelDecrease s = 1 / 2 * Vec.normSq s.step := by
  have hnonneg := Vec.normSq_nonneg s.step
  have hhalf : s.quadraticValue = 1 / 2 * Vec.normSq s.step := by
    unfold Solver.quadraticValue
    norm_num
  have hle : s.stepNormSq ≤ Scalar.greater s.combinationNormSq s.stepNormSq := by
    unfold Scalar.greater
    split
    · exact le_rfl
    · exact not_lt.mp ‹_›
  rw [Search.modelDecrease, Scalar.lesser_eq_min, hhalf, min_eq_left]
  refine le_trans ?_ hle
  unfold Solver.stepNormSq
  linarith

/-- A step decreases the objective enough if both values are known and differ by the margin. -/
theorem decreases_iff {options : Options K} {w : Workspace K} {solver : Solver K} {stepsize : K}
    (hd : w.direction = solver.step) : Search.decreases options w solver stepsize = true ↔
      ∃ trial current, w.trialSample.objective.value? = some trial ∧
        w.currentSample.objective.value? = some current ∧
          trial < current - w.margin options stepsize := by
  unfold Search.decreases
  rw [w.margin_eq, modelDecrease_eq, hd]
  cases w.trialSample.objective.value? with
  | none => simp
  | some trial =>
    cases w.currentSample.objective.value? with
    | none => simp
    | some current =>
      simp only [decide_eq_true_eq, Option.some.injEq, exists_eq_left', exists_and_left]
      constructor <;> intro h <;> linarith

/-- A trial passes the test if it lowers the objective enough or the rule fires. -/
theorem passes_iff {evaluated : Bool} {stepsize : K} (hstepped : s.Stepped)
    (hevaluated : evaluated = true ↔ s.workspace.TrialEvaluated) :
    s.passes setting evaluated stepsize = true ↔
      (s.tested setting evaluated).Improves setting.options stepsize ∨
        (s.tested setting evaluated).engine.ruleRecord.fired = true := by
  have hdirection := (hstepped.keeps (Moment.keeps_asked setting s.toMoment)).direction_eq
  have hsame := Moment.asked_trialEvaluated setting s.toMoment
  unfold SearchState.passes Moment.accepting
  rw [Bool.or_eq_true, Bool.and_eq_true, decreases_iff hdirection, hevaluated, ← hsame]
  rfl

end Acceptance

section Found

variable {setting : Setting K} {a b : Stage K} {s s' start : SearchState K}

variable [IsStrictOrderedRing K]

/-- Each step finds what its stage stands for. -/
theorem Stage.Found.step (h : a.Found setting.options s) (hinv : Inv setting a s.toMoment)
    (hstep : Step setting a s b s') : b.Found setting.options s' := by
  have hsolved : b.gain = 1 → ∃ m, (solvesOf s'.journal.toList).getLast? = some m ∧
      m.solver = s'.solver :=
    fun hb => ⟨s'.toMoment, hstep.getLast?_solvesOf hinv hb, rfl⟩
  have htry : ∀ {stepsize counted : K} {evaluated : Bool} {t : SearchState K}, s.Stepped →
      Search.tryStep setting stepsize s = .ok evaluated t →
        (t.passes setting evaluated counted = true ↔
          (t.tested setting evaluated).Improves setting.options counted ∨
            (t.tested setting evaluated).engine.ruleRecord.fired = true) := by
    intro stepsize counted evaluated t hstepped hr
    obtain ⟨hq, _, _, hevaluated⟩ :=
      (Search.tryStep_leads hinv.base.toSound _ hstepped.length_direction).of_run hr
    exact passes_iff (hstepped.keeps hq.toKeeps) hevaluated
  -- A solve, a test and the evaluation of a trial each find out something anew; the other
  -- stages are not asked about, but for the solve that only marks the switch.
  cases hstep with
  | solveGradient | solveFull | fallBack | solveAggregated | solveSwitching | solveWarm =>
    exact hsolved rfl
  | markSwitch =>
    obtain ⟨m, hlast, hsolver⟩ := h
    exact ⟨m, hlast, hsolver.trans (solver_withEngine _ rfl).symm⟩
  | testGradient hr => exact htry hinv.holds.1.toStepped hr
  | testShort _ _ hr => exact htry hinv.holds.1.toStepped hr
  | beginRound hflush hevaluate =>
    obtain ⟨_, _, _, hevaluated⟩ := Search.begun_of_run hinv.base.toSound hflush hevaluate
    exact hevaluated
  | testFull => exact passes_iff hinv.holds.1.toStepped h
  | _ => trivial

/-- At each stage the search has found what the stage stands for. -/
theorem Reached.found (hinv : Inv setting .ready start.toMoment) (h : Reached setting start b s) :
    b.Found setting.options s := by
  induction h with
  | start => trivial
  | step hreached hstep ih => exact ih.step (hreached.inv hinv) hstep

end Found

section Endings

variable {setting : Setting K} {s s' start : SearchState K} {outcome : Outcome}

/-- Accounting for a search changes nothing of what its outcome means. -/
theorem Outcome.Means.closes {options : Options K} (h : outcome.Means options s)
    (hcloses : Closes s s') : outcome.Means options s' := by
  obtain ⟨_, _, _, _, _, _, rfl⟩ := hcloses
  cases outcome <;> exact h

/-- Accounting for a search leaves the reading at which time was up. -/
theorem SearchState.TimeUp.closes {reading : Nat} (h : s.TimeUp setting reading)
    (hcloses : Closes s s') : s'.TimeUp setting reading := by
  obtain ⟨_, _, _, _, _, _, rfl⟩ := hcloses
  exact ⟨h.within, h.elapsed, h.refused⟩

/-- The current point could not be evaluated, before any round. -/
theorem unevaluated_means {entry : SearchState K} (options : Options K) (hfresh : Fresh entry s)
    (hunknown : ¬ (s.workspace.currentSample.objective.isKnown = true ∧
      s.workspace.currentSample.gradient.isKnown = true)) :
    Outcome.evaluationFailure.Means options s := by
  refine .inl ⟨?_, hunknown⟩
  rw [hfresh.journal_eq]
  rfl

/-- From the first round on a step counts in full. -/
theorem countedStepsize_of_late {b : Stage K} (hinv : Inv setting .ready start.toMoment)
    (h : Reached setting start b s) (hb : b.Late) : s.countedStepsize setting.options = 1 := by
  have hrounds := h.roundsOf_ne_nil hinv hb
  unfold SearchState.countedStepsize
  rw [if_neg (by simpa using hrounds)]

variable [IsStrictOrderedRing K]

/-- Where a trial was accepted, success means what it should. -/
theorem success_means {options : Options K} {stepsize : K} (haccepted : options.Accepted)
    (hcounted : s.countedStepsize options = stepsize) (hstepsize : 0 ≤ stepsize)
    (h : s.Improves options stepsize ∨ s.engine.ruleRecord.fired = true) :
    Outcome.success.Means options s := by
  rcases h with himproves | hfired
  · refine .inl ⟨hcounted.symm ▸ himproves, ?_⟩
    exact himproves.mono (haccepted.margin_nonneg s.workspace hstepsize)
  · exact .inr (.inl hfired)

/-- After a test of the full step that it did not pass. -/
theorem Reached.refused {evaluated : Bool} (hinv : Inv setting .ready start.toMoment)
    (h : Reached setting start (.tested evaluated false) s) : s.Refused setting.options := by
  have hplaced : s.TrialAt 1 := h.placed hinv
  have hfound : false = true ↔ _ := h.found hinv
  have hnot : ¬ (s.Improves setting.options 1 ∨ s.engine.ruleRecord.fired = true) :=
    fun himproves => Bool.noConfusion (hfound.mpr himproves)
  obtain ⟨himproves, hfired⟩ := not_or.mp hnot
  have hdirection := (h.inv hinv).holds.1.direction_eq
  exact ⟨hdirection ▸ hplaced, himproves, Bool.not_eq_true _ ▸ hfired⟩

/-- What an outcome means where a search ends. -/
theorem Reached.means (hinv : Inv setting .ready start.toMoment) (hempty : start.journal = #[])
    (haccepted : setting.options.Accepted) (h : Reached setting start (.ended outcome) s)
    (htime : outcome ≠ .timeLimit) : outcome.Means setting.options s := by
  obtain _ | ⟨hreached, hstep⟩ := h
  have hfound := hreached.found hinv
  cases hstep with
  | acceptGradient hnote =>
    -- No round has begun, so the size of the gradient step counts.
    have hrounds := hreached.roundsOf_eq_nil hinv hempty trivial
    obtain ⟨_, _, _, rfl⟩ := (Search.note_leads _ _).of_run hnote
    refine success_means haccepted ?_ (haccepted.nonneg .gradientStepsize) (hfound.mp rfl)
    exact if_pos (List.isEmpty_iff.mpr hrounds)
  | acceptFull =>
    exact success_means haccepted (countedStepsize_of_late hinv hreached id) zero_le_one
      (hfound.mp rfl)
  | acceptShort hnote =>
    have hcounted := countedStepsize_of_late hinv hreached id
    obtain ⟨_, _, _, rfl⟩ := (Search.note_leads _ _).of_run hnote
    exact success_means haccepted hcounted zero_le_one (hfound.mp rfl)
  | reachLimit hlimit =>
    split
    · rename_i hfail
      exact ⟨hfail, hlimit, hreached.refused hinv⟩
    · rename_i hfail
      exact .inr (.inr ⟨hlimit, Bool.not_eq_true _ ▸ hfail⟩)
  | failSolver hkind hstatus hfail =>
    obtain ⟨m, hlast, hsolver⟩ := hfound
    exact ⟨hfail, m, hlast, hsolver ▸ hstatus⟩
  | failTrial hnote =>
    -- Only a round that knows itself the first ends here; the later ones go on to the test.
    have hrounds := hreached.roundsOf_first hinv hempty
    obtain ⟨_, _, _, rfl⟩ := (Search.note_leads _ _).of_run hnote
    exact .inr ⟨hrounds, fun hevaluated => Bool.noConfusion (hfound.mpr hevaluated)⟩
  | runOut => exact absurd rfl htime

/-- Where the time is up, it was found to be at the last reading of the clock. -/
theorem Reached.timeUp (hinv : Inv setting .ready start.toMoment)
    (h : Reached setting start (.ended .timeLimit) s) :
    ∃ reading, s.workspace.clockReadings = reading + 1 ∧ s.TimeUp setting reading := by
  obtain _ | ⟨hreached, hstep⟩ := h
  generalize hb : Stage.ended Outcome.timeLimit = b at hstep
  cases hstep with
  | runOut hlimit hclock htime =>
    have hrefused := hreached.refused hinv
    cases hclock
    exact ⟨_, rfl, not_lt.mp hlimit, htime, hrefused⟩
  | reachLimit =>
    split at hb <;> cases hb
  | _ => cases hb

/-- Every outcome that a call returns means what it should. Where a call stops at the time
limit, the time was up at the reading of the clock before the last, which only accounts for
the search. -/
theorem outcome_means {entry : SearchState K} (hw : entry.workspace.WellFormed setting.oracle)
    (haccepted : setting.options.Accepted) :
    (∀ outcome s, Search.computeDirection setting entry = .ok outcome s →
      outcome.Means setting.options s) ∧
    ∀ s, Search.computeDirection setting entry = .error .timeLimitReached s →
      ∃ reading, s.workspace.clockReadings = reading + 2 ∧ s.TimeUp setting reading := by
  have hcall := Search.computeDirection_cases hw
  refine ⟨fun outcome s hresult => ?_, fun s hresult => ?_⟩
  · rw [hresult] at hcall
    cases hcall with
    | unevaluated hfresh hcloses hunknown =>
      exact (unevaluated_means setting.options hfresh hunknown).closes hcloses
    | ended hopens hreached hcloses htime =>
      exact (hreached.means hopens.inv hopens.journal_eq haccepted htime).closes hcloses
  · rw [hresult] at hcall
    cases hcall with
    | timeUp hopens hreached hcloses =>
      obtain ⟨reading, hreading, htimeUp⟩ := hreached.timeUp hopens.inv
      refine ⟨reading, ?_, htimeUp.closes hcloses⟩
      obtain ⟨_, _, _, _, _, _, rfl⟩ := hcloses
      exact congrArg (· + 1) hreading

end Endings

/-- The absolute value of one variable, with a gradient that divides by it. -/
def cusp : Oracle ℚ where
  dimension := 1
  positive := Nat.one_pos
  value
    | [x] => .ok |x|
    | _ => .error .refused
  gradient := some fun
    | [x] => if x = 0 then .error .division else .ok [x / |x|]
    | _ => .error .refused
  differences := Oracle.forwardDifferences (1 / 1000)

/-- A search that fails at its limit, and a minimizer that leads it into the cusp. -/
def intoCusp : Setting ℚ where
  oracle := cusp
  options :=
    { addFarPoints := true
      failOnIterationLimit := true
      tryGradientStep := false
      tryShortenedStep := false
      iterationLimit := 1 }
  rule := .never
  clock _ := 0
  minimizer _ _ := ⟨[3 / 4, 1 / 4], 0, 1, ""⟩

/-- The search begins at one half, with joint evaluation. -/
def besideCusp : SearchState ℚ where
  workspace :=
    { dimension := 1
      samples := #[{ position := [1 / 2] }]
      direction := [0]
      radii := ⟨1 / 10, 1⟩
      jointEvaluation := true
      startTime := 0
      timeLimit := 10000
      searchTime := 0 }
  engine := {}

/-- The start beside the cusp is well formed. -/
theorem wellFormed_besideCusp : besideCusp.workspace.WellFormed cusp where
  dimension_eq := rfl
  length_position id hid := by
    rw [Nat.lt_one_iff.mp hid]
    rfl
  faithful id hid := by
    rw [Nat.lt_one_iff.mp hid]
    exact ⟨.inl rfl, .inl rfl⟩
  current_lt := Nat.one_pos
  bundle_lt _ hid := absurd hid List.not_mem_nil

/-- The search ends at its limit in the cusp, where the objective is known and low enough.
The trial point does not count as evaluated, since the gradient failed. -/
theorem limit_in_cusp :
    ∃ s, Search.computeDirection intoCusp besideCusp = .ok .iterationLimit s ∧
      ∃ trial current, s.workspace.trialSample.objective.value? = some trial ∧
        s.workspace.currentSample.objective.value? = some current ∧
        trial < current - s.workspace.margin intoCusp.options 1 := by
  have hrun : (match Search.computeDirection intoCusp besideCusp with
      | .ok .iterationLimit s => decide
        (s.workspace.trialSample.objective.value? = some 0 ∧
          s.workspace.currentSample.objective.value? = some (1 / 2) ∧
          0 < 1 / 2 - s.workspace.margin intoCusp.options 1)
      | _ => false) = true := by
    decide +kernel
  split at hrun
  · rename_i s hresult
    exact ⟨s, hresult, 0, 1 / 2, of_decide_eq_true hrun⟩
  · cases hrun

/-- With the gradient step the search ends where that leads, and success means that the
trial point is lower. -/
theorem outcome_means_beside_cusp :
    ∃ s, Search.computeDirection { intoCusp with options := {} } besideCusp = .ok .success s ∧
      Outcome.success.Means {} s := by
  have hrun : (match Search.computeDirection { intoCusp with options := {} } besideCusp with
      | .ok .success _ => true
      | _ => false) = true := by
    decide +kernel
  have hw : besideCusp.workspace.WellFormed ({ intoCusp with options := {} } : Setting ℚ).oracle :=
    wellFormed_besideCusp
  split at hrun
  · rename_i s hresult
    exact ⟨s, hresult, (outcome_means hw Options.accepted_default).1 .success s hresult⟩
  · cases hrun

end NonsmoothDescent
