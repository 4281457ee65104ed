import NonsmoothDescent.Proofs.Search.Stationarity

/-!
# The budget of a search

The rounds of a search have no bound of their own. What bounds them is the count of inner
iterations: a round that gets past the limit check ends with a solve, so the count runs
ahead of the number of such rounds, and none of them begins above the limit. After the
limit there is at most the solve of the last such round and its fallback. Each of these
rounds samples at most two points, one at the full step and one at the shortened one.
-/

namespace NonsmoothDescent

variable {α : Type} [Scalar α]

/-- The most solves that a search may make. Without fallbacks there is one less. -/
def Options.solveBudget (o : Options α) : Nat :=
  if o.failOnSolverFailure then max (o.iterationLimit + 1) 2 else max (o.iterationLimit + 2) 3

/-- The number of rounds that began within the limit. -/
def roundsWithin (limit : Nat) (events : List (Event α)) : Nat :=
  (roundsOf events).countP fun m => decide (m.workspace.innerIterations ≤ (limit : Int))

/-- How the budget bears on two events in this order: after a round has begun there is no
solve unless the round began within the limit, and only the solve of a fallback, which
works on a cut of its own, takes the count further than one beyond the limit. -/
def Event.InBudget (limit : Nat) : Event α → Event α → Prop
  | .roundBegan m, .solved m' => m.workspace.innerIterations ≤ limit ∧
      (m'.workspace.innerIterations ≤ limit + 1 ∨ ∃ cut, m'.engine.active = .own [cut])
  | _, _ => True

namespace Stage

/-- The number of places in the bundle that a step to this stage may add. -/
def places : Stage α → Nat
  | .sampled _ _ | .chosen _ _ => 1
  | _ => 0

/-- By how much inner iterations are ahead of the rounds within the limit. -/
def lead : Stage α → Nat
  | .solved _ | .round _ => 1
  | _ => 0

/-- How many places the round at this stage may add to the bundle before its solve. -/
def reserve : Stage α → Nat
  | .begun _ _ | .tested _ _ | .rejected _ | .sampling _ _ => 2
  | .sampled _ _ | .shortTested _ _ _ _ => 1
  | _ => 0

/-- The search may make another solve. -/
def Going (limit : Nat) (k : Int) : Stage α → Prop
  | .begun _ _ | .tested _ _ => k ≤ limit
  | .ended _ => False
  | _ => True

end Stage

section Steps

variable {setting : Setting α} {a b : Stage α} {s s' start : SearchState α}

/-- The radius rule adds nothing to the bundle. -/
theorem Moment.asked_bundle (setting : Setting α) (m : Moment α) :
    (m.asked setting).workspace.bundle = m.workspace.bundle := rfl

/-- Sampling at a trial point adds at most one place to the bundle. -/
theorem bundle_size_trialCut {evaluated : Bool} {cuts : List (Cut α)}
    (hs : s.Sound setting.oracle) (hknown : s.TrialKnown evaluated)
    (hr : Search.trialCut setting evaluated s = .ok cuts s') :
    s'.workspace.bundle.size ≤ s.workspace.bundle.size + 1 := by
  obtain ⟨_, hsize, rfl | ⟨_, _, rfl, _⟩⟩ := (Search.trialCut_leads hs hknown).of_run hr
  · exact Nat.le_succ_of_le (Nat.le_of_eq hsize)
  · exact Nat.le_of_eq hsize

/-- Only the steps that sample add to the bundle, one place each. -/
theorem Step.bundle_size_le (hstep : Step setting a s b s') (h : Inv setting a s.toMoment) :
    s'.workspace.bundle.size ≤ s.workspace.bundle.size + b.places := by
  have hs := h.base.toSound
  have hholds := h.holds
  have hsame : s'.workspace.bundle = s.workspace.bundle →
      s'.workspace.bundle.size ≤ s.workspace.bundle.size + b.places :=
    fun heq => heq ▸ Nat.le_add_right _ _
  have hnote : ∀ {notices : List (Notice α)} {t t' : SearchState α},
      Search.note notices t = .ok () t' → t'.workspace.bundle = t.workspace.bundle :=
    fun hr => ((Search.note_leads _ _).of_run hr).bundle_eq
  have htry : ∀ {stepsize : α} {evaluated : Bool} {t : SearchState α}, s.Stepped →
      Search.tryStep setting stepsize s = .ok evaluated t →
        (t.asked setting).workspace.bundle = s.workspace.bundle := by
    intro stepsize evaluated t hstepped hr
    obtain ⟨_, _, hbundle, _⟩ := (Search.tryStep_leads hs _ hstepped.length_direction).of_run hr
    exact (Moment.asked_bundle setting t.toMoment).trans hbundle
  cases hstep with
  | solveFull hcollect hr hplanes =>
    obtain ⟨_, hbundle, _⟩ := (Search.collectCuts_leads hs).of_run hcollect
    exact hsame ((hnote hr).trans hbundle)
  | fallBack _ _ _ hr | solveSwitching _ _ hr | acceptGradient hr | restart hr | failTrial hr
  | acceptShort hr =>
    have hbundle := hnote hr
    exact hsame hbundle
  | testGradient hr | testShort _ _ hr => exact hsame (htry hholds.1.toStepped hr)
  | testFull => exact hsame (Moment.asked_bundle setting s.toMoment)
  | beginRound hflush hevaluate =>
    obtain ⟨_, _, hbundle, _⟩ := Search.begun_of_run hs hflush hevaluate
    exact hsame hbundle
  | runOut _ hr | goOn _ hr =>
    exact hsame ((Search.elapsed_leads _ _).of_run hr).bundle_eq
  | aggregate hon hr =>
    obtain ⟨_, s₁, _, hlogs, _, rfl⟩ := (h.aggregate_leads hon).of_run hr
    exact hsame hlogs.bundle_eq
  | sampleFull hnear hcut => exact bundle_size_trialCut hs hholds.2.2 hcut
  | sampleShort hcut => exact bundle_size_trialCut hs hholds.2.2.2 hcut
  | augment hr => exact hsame ((Search.reportRound_leads setting _).of_run hr).bundle_eq
  | _ => exact hsame rfl

/-- All other steps leave the bundle alone. -/
theorem Step.bundle_eq (hstep : Step setting a s b s') (h : Inv setting a s.toMoment)
    (hb : b.places = 0) : s'.workspace.bundle = s.workspace.bundle := by
  have hsize := hstep.bundle_size_le h
  rw [hb] at hsize
  exact (hstep.advances h).grows.bundle_eq_of_size_le hsize

end Steps

/-- What a search has spent at a stage. -/
structure Spent (limit : Nat) (b : Stage α) (start s : SearchState α) : Prop where
  rounds_le : roundsWithin limit s.journal.toList ≤ limit
  lead_le : (roundsWithin limit s.journal.toList : Int) + b.lead ≤ s.workspace.innerIterations
  size_le : s.workspace.bundle.size ≤
    start.workspace.bundle.size + 2 * roundsWithin limit s.journal.toList
  reserve_le : b.Going limit s.workspace.innerIterations →
    s.workspace.bundle.size + b.reserve ≤
      start.workspace.bundle.size + 2 * roundsWithin limit s.journal.toList

section Runs

variable {setting : Setting α} {a b : Stage α} {s s' start : SearchState α}

/-- A round that begins is counted if it begins within the limit. -/
theorem Step.roundsWithin_eq (hstep : Step setting a s b s') (h : Inv setting a s.toMoment)
    (limit : Nat) : roundsWithin limit s'.journal.toList = roundsWithin limit s.journal.toList +
      if b.begins = 1 ∧ s.workspace.innerIterations ≤ limit then 1 else 0 := by
  rw [roundsWithin, hstep.roundsOf_eq h, List.countP_append]
  by_cases hb : b.begins = 1 <;> simp [hb, roundsWithin, List.countP_cons]

/-- A round begins where one was to come. -/
theorem Step.of_begins (hstep : Step setting a s b s') (hb : b.begins ≠ 0) :
    ∃ first evaluated, a = .round first ∧ b = .begun first evaluated := by
  cases hstep with
  | beginRound => exact ⟨_, _, rfl, rfl⟩
  | _ => exact absurd rfl hb

/-- Only a solve gains a lead over the rounds. -/
theorem Step.lead_le (hstep : Step setting a s b s') (hb : b.begins = 0) :
    b.lead ≤ a.lead + b.gain := by
  cases hstep with
  | beginRound => cases hb
  | markSwitch | nextRound | restart => exact Nat.le_refl 1
  | _ => simp [Stage.lead, Stage.gain]

/-- What a round adds to the bundle was reserved before. -/
theorem Step.reserve_le (hstep : Step setting a s b s') (hb : b.begins = 0) :
    b.places + b.reserve ≤ a.reserve := by
  cases hstep with
  | beginRound => cases hb
  | _ => simp [Stage.places, Stage.reserve]

/-- A search that may make another solve could make one before. -/
theorem Step.going {limit : Nat} (hstep : Step setting a s b s') (hb : b.begins = 0)
    (hlimit : limit = setting.options.iterationLimit)
    (hk : s'.workspace.innerIterations = s.workspace.innerIterations + b.gain)
    (hgoing : b.Going limit s'.workspace.innerIterations) :
    a.Going limit s.workspace.innerIterations := by
  cases hstep with
  | beginRound => cases hb
  | testFull =>
    have hsame : _ = s.workspace.innerIterations := hk.trans (add_zero _)
    exact hsame ▸ hgoing
  | goOn hbelow => exact hlimit ▸ not_lt.mp hbelow
  | acceptGradient | failSolver | failTrial | acceptFull | reachLimit | runOut | acceptShort =>
    exact False.elim hgoing
  | _ => trivial

/-- Each step spends no more than it may. -/
theorem Spent.step (h : Spent setting.options.iterationLimit a start s)
    (hinv : Inv setting a s.toMoment) (hstep : Step setting a s b s') :
    Spent setting.options.iterationLimit b start s' := by
  obtain ⟨hrounds, hlead, hsize, hreserve⟩ := h
  have hrounds' := hstep.roundsWithin_eq hinv setting.options.iterationLimit
  have hk := (hstep.advances hinv).iterations_eq
  have hbundle := hstep.bundle_size_le hinv
  by_cases hb : b.begins = 0
  · have hleads := hstep.lead_le hb
    have hreserves := hstep.reserve_le hb
    have hgoing := hstep.going hb rfl hk
    have hplaces : b.places ≠ 0 → b.Going setting.options.iterationLimit
        s'.workspace.innerIterations := by
      intro hp
      cases b <;> trivial
    rw [if_neg (by omega), Nat.add_zero] at hrounds'
    refine ⟨by omega, by omega, ?_, fun hgo => ?_⟩
    · by_cases hp : b.places = 0
      · omega
      · have := hreserve (hgoing (hplaces hp))
        omega
    · have := hreserve (hgoing hgo)
      omega
  · obtain ⟨first, evaluated, rfl, rfl⟩ := hstep.of_begins hb
    simp only [Stage.begins, Stage.gain, Stage.places, Stage.lead, true_and] at *
    by_cases hbelow : s.workspace.innerIterations ≤ setting.options.iterationLimit
    · rw [if_pos hbelow] at hrounds'
      exact ⟨by omega, by simp only [Stage.lead]; omega, by omega, fun _ => by
        simp only [Stage.reserve]; omega⟩
    · rw [if_neg hbelow] at hrounds'
      refine ⟨by omega, by simp only [Stage.lead]; omega, by omega, fun hgo => ?_⟩
      have hwithin : s'.workspace.innerIterations ≤ setting.options.iterationLimit := hgo
      omega

/-- At each stage a search has spent no more than it may. -/
theorem Reached.spent (hinv : Inv setting .ready start.toMoment) (hempty : start.journal = #[])
    (h : Reached setting start b s) : Spent setting.options.iterationLimit b start s := by
  induction h with
  | start =>
    have hnone : roundsWithin setting.options.iterationLimit start.journal.toList = 0 := by
      rw [hempty]
      rfl
    have hzero : start.workspace.innerIterations = 0 := hinv.counts
    exact ⟨by omega, by simp [hnone, hzero, Stage.lead], by omega, fun _ => Nat.le_add_right _ _⟩
  | step hreached hstep ih => exact ih.step (hreached.inv hinv) hstep

/-- A solve stays within the budget. -/
theorem Step.solves_le (hstep : Step setting a s b s') (hb : b.gain = 1)
    (hcounts : b.Counts setting.options.iterationLimit s'.workspace.innerIterations) :
    s'.workspace.innerIterations ≤ setting.options.solveBudget := by
  unfold Options.solveBudget
  cases hstep with
  | @fallBack _ _ _ _ first _ _ hgo =>
    rw [if_neg (by simp [hgo])]
    cases first <;> simp only [Stage.Counts] at hcounts <;> omega
  | solveGradient | solveFull | solveAggregated | solveSwitching | solveWarm =>
    simp only [Stage.Counts] at hcounts
    split <;> omega
  | _ => cases hb

/-- A search makes no more solves than its budget, and counts each of them. -/
theorem Reached.solves_le (hinv : Inv setting .ready start.toMoment)
    (hnone : start.engine.solves = 0) (h : Reached setting start b s) :
    s.workspace.innerIterations = s.engine.solves ∧
      s.engine.solves ≤ setting.options.solveBudget := by
  induction h with
  | start =>
    have hzero : start.workspace.innerIterations = 0 := hinv.counts
    rw [hnone, hzero]
    exact ⟨rfl, Nat.zero_le _⟩
  | @step a b s s' hreached hstep ih =>
    obtain ⟨heq, hle⟩ := ih
    obtain ⟨_, hiterations, hsolves, _⟩ := hstep.advances (hreached.inv hinv)
    rcases b.gain_eq with hb | hb
    · rw [hb] at hiterations hsolves
      omega
    · have hbudget := hstep.solves_le hb ((hreached.step hstep).inv hinv).counts
      rw [hb] at hiterations hsolves
      omega

/-- While the search may go on, all its rounds have begun within the limit. -/
theorem Reached.begun_within (hinv : Inv setting .ready start.toMoment)
    (hempty : start.journal = #[]) (h : Reached setting start b s)
    (hgoing : b.Going setting.options.iterationLimit s.workspace.innerIterations) :
    ∀ m ∈ roundsOf s.journal.toList,
      m.workspace.innerIterations ≤ setting.options.iterationLimit := by
  induction h with
  | start =>
    rw [hempty]
    exact fun m hm => absurd hm List.not_mem_nil
  | @step a b s s' hreached hstep ih =>
    have hk := (hstep.advances (hreached.inv hinv)).iterations_eq
    rw [hstep.roundsOf_eq (hreached.inv hinv)]
    by_cases hb : b.begins = 0
    · rw [if_neg (by omega), List.append_nil]
      exact ih (hstep.going hb rfl hk hgoing)
    · obtain ⟨first, evaluated, rfl, rfl⟩ := hstep.of_begins hb
      have hsame : s'.workspace.innerIterations = s.workspace.innerIterations :=
        hk.trans (add_zero _)
      refine List.forall_mem_append.mpr ⟨ih trivial, fun m hm => ?_⟩
      rw [List.mem_singleton.mp hm, ← hsame]
      exact hgoing

/-- What the journal tells of is in the budget. -/
theorem Reached.pairwise_inBudget (hinv : Inv setting .ready start.toMoment)
    (hempty : start.journal = #[]) (h : Reached setting start b s) :
    s.journal.toList.Pairwise (Event.InBudget setting.options.iterationLimit) := by
  induction h with
  | start =>
    rw [hempty]
    exact .nil
  | @step a b s s' hreached hstep ih =>
    obtain ⟨new, hjournal, hfits, _⟩ := hstep.records (hreached.inv hinv)
    have hreached' := hreached.step hstep
    have hsolved : ∀ m m', Event.roundBegan m ∈ s'.journal.toList → Event.solved m' ∈ new →
        Event.InBudget setting.options.iterationLimit (.roundBegan m) (.solved m') := by
      intro m m' hm hm'
      obtain ⟨rfl, kind, rfl⟩ := hfits _ hm'
      obtain ⟨_, ⟨_, hactive⟩, hcounts⟩ := hreached'.inv hinv
      refine ⟨hreached'.begun_within hinv hempty trivial m (mem_roundsOf.mpr hm), ?_⟩
      cases kind with
      | gradient =>
        obtain ⟨plane, hown⟩ := hactive
        exact .inr ⟨_, hown⟩
      | full =>
        have hnone := hreached'.roundsOf_eq_nil hinv hempty trivial
        rw [← mem_roundsOf, hnone] at hm
        exact absurd hm List.not_mem_nil
      | fallback plane first => exact .inr ⟨_, hactive⟩
      | aggregated | switching | switched | warm => exact .inl hcounts
    rw [hjournal]
    refine List.pairwise_append.mpr ⟨ih, List.pairwise_of_forall_mem_list ?_, ?_⟩
    · intro e he e' he'
      cases e with
      | roundBegan m =>
        cases e' with
        | solved m' => exact hsolved m m' (hjournal ▸ List.mem_append_right _ he) he'
        | _ => trivial
      | _ => trivial
    · intro e he e' he'
      cases e with
      | roundBegan m =>
        cases e' with
        | solved m' => exact hsolved m m' (hjournal ▸ List.mem_append_left _ he) he'
        | _ => trivial
      | _ => trivial

end Runs

/-- What a call may spend, in solves, rounds and points of the bundle. -/
structure WithinBudget (options : Options α) (entry s : SearchState α) : Prop where
  iterations_eq : s.workspace.innerIterations = s.engine.solves
  length_solvesOf : (solvesOf s.journal.toList).length = s.engine.solves
  solves_le : s.engine.solves ≤ max (options.iterationLimit + 2) 3
  solves_le_of_fail : options.failOnSolverFailure = true →
    s.engine.solves ≤ max (options.iterationLimit + 1) 2
  rounds_le : roundsWithin options.iterationLimit s.journal.toList ≤ options.iterationLimit
  bundle_le : s.workspace.bundle.size ≤
    entry.workspace.bundle.size + 2 * options.iterationLimit
  pairwise : s.journal.toList.Pairwise (Event.InBudget options.iterationLimit)

section Call

variable {setting : Setting α} {entry start s s' : SearchState α} {b : Stage α}

/-- A search stays within its budget. -/
theorem Reached.withinBudget (hopens : Opens setting entry start)
    (h : Reached setting start b s) : WithinBudget setting.options entry s := by
  obtain ⟨hrounds, _, hsize, _⟩ := h.spent hopens.inv hopens.journal_eq
  obtain ⟨heq, hle⟩ := h.solves_le hopens.inv hopens.solves_eq
  unfold Options.solveBudget at hle
  rw [hopens.bundle_eq] at hsize
  refine ⟨heq, h.length_solvesOf hopens.inv hopens.journal_eq hopens.solves_eq, ?_, fun hfail => ?_,
    hrounds, by omega, h.pairwise_inBudget hopens.inv hopens.journal_eq⟩
  · split at hle <;> omega
  · rwa [if_pos hfail] at hle

/-- A search that has done nothing is within its budget. -/
theorem Fresh.withinBudget (h : Fresh entry s) (options : Options α) :
    WithinBudget options entry s := by
  have hjournal := h.journal_eq
  have hnone : roundsWithin options.iterationLimit s.journal.toList = 0 := by
    rw [hjournal]
    rfl
  refine ⟨?_, ?_, ?_, fun _ => ?_, ?_, ?_, ?_⟩
  · rw [h.innerIterations_eq, h.solves_eq]
    rfl
  · rw [hjournal, h.solves_eq]
    rfl
  · rw [h.solves_eq]
    exact Nat.zero_le _
  · rw [h.solves_eq]
    exact Nat.zero_le _
  · rw [hnone]
    exact Nat.zero_le _
  · rw [h.bundle_eq]
    exact Nat.le_add_right _ _
  · rw [hjournal]
    exact .nil

/-- Accounting for a search spends nothing. -/
theorem WithinBudget.closes {options : Options α} (h : WithinBudget options entry s)
    (hcloses : Closes s s') : WithinBudget options entry s' := by
  obtain ⟨_, _, _, _, _, _, rfl⟩ := hcloses
  exact ⟨h.iterations_eq, h.length_solvesOf, h.solves_le, h.solves_le_of_fail, h.rounds_le,
    h.bundle_le, h.pairwise⟩

/-- No call runs out of fuel. -/
theorem CallResult.settled {result : EStateM.Result (Fault α) (SearchState α) Outcome}
    (h : CallResult setting entry result) (s : SearchState α) : result ≠ .error .unsettled s := by
  rintro rfl
  cases h

/-- A call stays within its budget. -/
theorem CallResult.withinBudget {result : EStateM.Result (Fault α) (SearchState α) Outcome}
    (h : CallResult setting entry result) :
    WithinBudget setting.options entry (finalState result) := by
  cases h with
  | unevaluated hfresh hcloses => exact (hfresh.withinBudget _).closes hcloses
  | ended hopens hreached hcloses => exact (hreached.withinBudget hopens).closes hcloses
  | timeUp hopens hreached hcloses => exact (hreached.withinBudget hopens).closes hcloses
  | overflowed hopens hoverflows =>
    obtain ⟨_, _, _, hreached⟩ := hoverflows
    exact hreached.withinBudget hopens

/-- Every call comes to an end before its rounds run out, within the budget: the solves
exceed the limit by two at most, or are three; without fallbacks by one, or two; at most
as many rounds as the limit says begin within it, and no solve follows on any other; and
the bundle grows by at most two points for each of them. -/
theorem search_within_budget (hw : entry.workspace.WellFormed setting.oracle) :
    (∀ s, Search.computeDirection setting entry ≠ .error .unsettled s) ∧
      WithinBudget setting.options entry
        (finalState (Search.computeDirection setting entry)) :=
  ⟨(Search.computeDirection_cases hw).settled, (Search.computeDirection_cases hw).withinBudget⟩

end Call

/-- A search with no inner iterations to spare, and a minimizer that never answers. -/
def unanswered : Setting ℚ where
  oracle := valley
  options := { gradientStepsize := 1, iterationLimit := 0 }
  rule := .never
  clock _ := 0
  minimizer _ _ := ⟨[], 0, 1, ""⟩

/-- The gradient step, all near points and the fallback take up the whole budget. -/
theorem search_within_budget_unanswered :
    (finalState (Search.computeDirection unanswered acrossValley)).engine.solves = 3 ∧
      (∀ s, Search.computeDirection unanswered acrossValley ≠ .error .unsettled s) ∧
      WithinBudget unanswered.options acrossValley
        (finalState (Search.computeDirection unanswered acrossValley)) := by
  have hsolves :
      (finalState (Search.computeDirection unanswered acrossValley)).engine.solves = 3 := by
    decide +kernel
  have hw : acrossValley.workspace.WellFormed unanswered.oracle := wellFormed_acrossValley
  exact ⟨hsolves, search_within_budget hw⟩

end NonsmoothDescent
