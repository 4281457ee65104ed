import NonsmoothDescent.Proofs.Search.Course
import NonsmoothDescent.Proofs.Search.Ledger
import NonsmoothDescent.Proofs.Search.Notices

/-!
# Whole searches

A call prepares the engine, evaluates the current point, follows the transition system
to its end and accounts for the search. What the engine did before does not matter. A
call comes out in one of three ways: the current point could not be evaluated, the search
ended at a stage that ends it, or it stopped with the fault that a number of points is
too large. In the first two cases the search is accounted for, also when its time was up;
in the last one it is not.
-/

namespace NonsmoothDescent

variable {α : Type} [Scalar α]

/-- A state in which the search has not done anything yet. -/
structure Fresh (entry s : SearchState α) : Prop where
  grows : entry.workspace.Grows s.workspace
  bundle_eq : s.workspace.bundle = entry.workspace.bundle
  radii_eq : s.workspace.radii = entry.workspace.radii
  innerIterations_eq : s.workspace.innerIterations = 0
  ruleRecord_eq : s.engine.ruleRecord = entry.engine.ruleRecord
  fullCuts_eq : s.engine.fullCuts = []
  aggregatedCuts_eq : s.engine.aggregatedCuts = []
  active_eq : s.engine.active = .own []
  switched_eq : s.engine.switched = false
  solves_eq : s.engine.solves = 0
  journal_eq : s.journal = #[]
  drill_eq : s.solver.drill = entry.solver.drill
  consequences_eq : s.consequences = entry.consequences

/-- Nothing has been counted yet that the journal does not tell of, nothing been told, and
the solver still has its old planes. -/
structure Clear (entry s : SearchState α) : Prop where
  untold_eq : s.untold = 0
  speech_eq : s.speech = entry.speech
  cuts_eq : s.solver.cuts = entry.solver.cuts

/-- The state from which a call runs along the transition system. -/
structure Opens (setting : Setting α) (entry start : SearchState α) : Prop extends
    Fresh entry start where
  inv : Inv setting .ready start.toMoment
  bound_eq : start.solver.subproblem.bound = .ofRadius (some entry.workspace.radii.trust)
  inexactness_eq : start.solver.inexactness = Scalar.greater 0 entry.workspace.radii.stationarity

/-- Only outcome, report, totals, times and notices have changed, and the clock was read
once. -/
def Closes (s s' : SearchState α) : Prop :=
  ∃ inner minimizer time notices outcome report, s' = { s with
    workspace := { s.workspace with
      totalInnerIterations := inner
      totalMinimizerIterations := minimizer
      clockReadings := s.workspace.clockReadings + 1
      searchTime := time
      notices := notices }
    engine := { s.engine with outcome := outcome, report := report } }

/-- A search is accounted for: its outcome stands in the engine, its iterations in the
totals, the time from its first clock reading to its last one in the search time, and
the last line that was reported is the summary of its figures. -/
structure Accounted (setting : Setting α) (entry : SearchState α) (outcome : Outcome)
    (s : SearchState α) : Prop where
  outcome_eq : s.engine.outcome = outcome
  innerIterations_eq : s.workspace.totalInnerIterations =
    entry.workspace.totalInnerIterations + s.workspace.innerIterations
  minimizerIterations_eq : s.workspace.totalMinimizerIterations =
    entry.workspace.totalMinimizerIterations + s.workspace.minimizerIterations
  searchTime_eq : ∃ readings, s.workspace.clockReadings = readings + 1 ∧
    s.workspace.searchTime = entry.workspace.searchTime +
      (setting.clock readings - setting.clock entry.workspace.clockReadings)
  pending_eq : s.engine.report.pending = #[]
  summary : s.engine.report.lines.back? = some (.summary (Search.figures s.workspace s.engine))

/-- The last line of a report is the one that was buffered last before a flush. -/
theorem Report.back?_flush_add {ι : Type} (r : Report ι) (kind : LineKind) (line : ι) :
    (r.add kind line).flush.1.lines.back? = some line := by
  simp [add, flush, Array.back?_append]

/-- How a call comes out. -/
inductive CallResult (setting : Setting α) (entry : SearchState α) :
    EStateM.Result (Fault α) (SearchState α) Outcome → Prop where
  /-- The current point cannot be evaluated. -/
  | unevaluated {s s' : SearchState α} (hfresh : Fresh entry s) (hcloses : Closes s s')
      (hunknown : ¬ (s.workspace.currentSample.objective.isKnown = true ∧
        s.workspace.currentSample.gradient.isKnown = true))
      (haccounted : Accounted setting entry .evaluationFailure s')
      (haccount : Search.account setting (setting.clock entry.workspace.clockReadings)
        .evaluationFailure s = .ok () s')
      (hclear : Clear entry s) (hw : s.workspace.WellFormed setting.oracle) :
      CallResult setting entry (.ok .evaluationFailure s')
  | ended {start s s' : SearchState α} {outcome : Outcome} (hopens : Opens setting entry start)
      (hreached : Reached setting start (.ended outcome) s) (hcloses : Closes s s')
      (htime : outcome ≠ .timeLimit) (haccounted : Accounted setting entry outcome s')
      (haccount : Search.account setting (setting.clock entry.workspace.clockReadings)
        outcome s = .ok () s') (hclear : Clear entry start) :
      CallResult setting entry (.ok outcome s')
  | timeUp {start s s' : SearchState α} (hopens : Opens setting entry start)
      (hreached : Reached setting start (.ended .timeLimit) s) (hcloses : Closes s s')
      (haccounted : Accounted setting entry .timeLimit s')
      (haccount : Search.account setting (setting.clock entry.workspace.clockReadings)
        .timeLimit s = .ok () s') (hclear : Clear entry start) :
      CallResult setting entry (.error .timeLimitReached s')
  /-- The number of points at which aggregation ends cannot be formed. -/
  | overflowed {start s : SearchState α} (hopens : Opens setting entry start)
      (hoverflows : Overflows setting start s)
      (hledger : s.ledger = (entry.workspace.accounts, .unset)) (hclear : Clear entry start) :
      CallResult setting entry (.error .tooLarge s)

section Fresh

variable {setting : Setting α} {entry s s' : SearchState α}

/-- A quiet change that leaves the bundle and tells nothing of solves leaves a search fresh. -/
theorem Fresh.quiet {o : Oracle α} (h : Fresh entry s) (hq : Quiet o s s')
    (hb : s'.workspace.bundle = s.workspace.bundle) (hc : s'.consequences = s.consequences) :
    Fresh entry s' where
  grows := h.grows.trans hq.grows
  bundle_eq := hb.trans h.bundle_eq
  radii_eq := hq.radii_eq.trans h.radii_eq
  innerIterations_eq := hq.innerIterations_eq.trans h.innerIterations_eq
  ruleRecord_eq := hq.ruleRecord_eq.trans h.ruleRecord_eq
  fullCuts_eq := hq.fullCuts_eq.trans h.fullCuts_eq
  aggregatedCuts_eq := hq.aggregatedCuts_eq.trans h.aggregatedCuts_eq
  active_eq := hq.active_eq.trans h.active_eq
  switched_eq := hq.switched_eq.trans h.switched_eq
  solves_eq := hq.solves_eq.trans h.solves_eq
  journal_eq := hq.journal_eq.trans h.journal_eq
  drill_eq := (congrArg Solver.drill hq.solver_eq').trans h.drill_eq
  consequences_eq := hc.trans h.consequences_eq

/-- A quiet change that says nothing leaves a search clear. -/
theorem Clear.quiet {o : Oracle α} (h : Clear entry s) (hq : Quiet o s s')
    (hspeech : s'.speech = s.speech) : Clear entry s' where
  untold_eq := (Gains.of_quiet hq).untold_eq.trans h.untold_eq
  speech_eq := hspeech.trans h.speech_eq
  cuts_eq := (congrArg Solver.cuts hq.solver_eq').trans h.cuts_eq

/-- The solver of a state, configured for the radii. -/
def configured (s : SearchState α) (radii : Radii α) : Solver α :=
  (s.solver.setRadius (some radii.trust)).setInexactness radii.stationarity

/-- With the current point evaluated and the solver configured, a search may start. -/
theorem Fresh.opens (h : Fresh entry s) (hw : s.workspace.WellFormed setting.oracle)
    (ht : s.workspace.trial = s.workspace.current)
    (ho : s.workspace.currentSample.objective.isKnown = true)
    (hg : s.workspace.currentSample.gradient.isKnown = true) (solver : Solver α)
    (hsolver : solver.dimension = s.workspace.dimension)
    (hbound : solver.subproblem.bound = .ofRadius (some entry.workspace.radii.trust))
    (hinexactness : solver.inexactness = Scalar.greater 0 entry.workspace.radii.stationarity)
    (hdrill : solver.drill = s.solver.drill) :
    Opens setting entry (s.withEngine fun e => { e with solver := some solver }) := by
  have heq : (s.withEngine fun e => { e with solver := some solver }).solver = solver :=
    Engine.solverFor_of_some rfl hsolver
  refine ⟨⟨h.grows, h.bundle_eq, h.radii_eq, h.innerIterations_eq, h.ruleRecord_eq, h.fullCuts_eq,
    h.aggregatedCuts_eq, h.active_eq, h.switched_eq, h.solves_eq, h.journal_eq, ?_,
    h.consequences_eq⟩,
    ⟨⟨⟨hw, Workspace.isKnown_iff.mp ho, Workspace.isKnown_iff.mp hg, ?_⟩, ?_, ?_, ?_⟩, trivial,
      h.innerIterations_eq⟩, ?_, ?_⟩
  · rw [heq, hdrill, h.drill_eq]
  · change s.workspace.trial < s.workspace.samples.size
    rw [ht]
    exact hw.current_lt
  · rw [heq]
    rfl
  · change ∀ cut ∈ s.engine.fullCuts, cut.Valid s.workspace
    rw [h.fullCuts_eq]
    exact fun _ hcut => absurd hcut List.not_mem_nil
  · change ∀ cut ∈ s.engine.aggregatedCuts, cut.Valid s.workspace
    rw [h.aggregatedCuts_eq]
    exact fun _ hcut => absurd hcut List.not_mem_nil
  · rw [heq, hbound]
  · rw [heq, hinexactness]

end Fresh

namespace Search

variable {setting : Setting α} {entry s : SearchState α}

/-- Preparing a search succeeds and leaves it fresh. -/
theorem prepare_leads (hw : entry.workspace.WellFormed setting.oracle) :
    Leads prepare entry fun _ s => Fresh entry s ∧ Clear entry s ∧
      s.workspace.WellFormed setting.oracle ∧
      s.workspace.trial = s.workspace.current ∧
      s.ledger = (entry.workspace.accounts, .unset) ∧
      s.workspace.clockReadings = entry.workspace.clockReadings := by
  have hcleared : entry.solver.clearStep.dimension = entry.workspace.dimension :=
    entry.dimension_solver
  refine ⟨(), _, rfl, ⟨.of_eq rfl rfl rfl rfl, rfl, rfl, rfl, rfl, rfl, rfl, rfl, rfl, rfl, rfl, ?_,
      rfl⟩, ⟨rfl, rfl, ?_⟩,
    ⟨hw.dimension_eq, hw.length_position, hw.faithful, hw.current_lt, hw.bundle_lt⟩, rfl, rfl,
    rfl⟩
  · refine (congrArg Solver.drill (?_ : _ = entry.solver.clearStep)).trans rfl
    exact Engine.solverFor_of_some rfl hcleared
  · refine (congrArg Solver.cuts (?_ : _ = entry.solver.clearStep)).trans rfl
    exact Engine.solverFor_of_some rfl hcleared

/-- The search proper either fails to evaluate the current point or starts from there. -/
theorem seek_cases (hfresh : Fresh entry s) (hclear : Clear entry s)
    (hw : s.workspace.WellFormed setting.oracle) (ht : s.workspace.trial = s.workspace.current) :
    (∃ s', Fresh entry s' ∧ Clear entry s' ∧ s'.workspace.WellFormed setting.oracle ∧
        ¬ (s'.workspace.currentSample.objective.isKnown = true ∧
          s'.workspace.currentSample.gradient.isKnown = true) ∧
        seek setting s = .ok .evaluationFailure s') ∨
      ∃ start, Opens setting entry start ∧ Clear entry start ∧
        Concludes setting start (seek setting s) := by
  obtain ⟨known, w, hrun, he, hknown⟩ :=
    Workspace.evaluateBoth_leads (o := setting.oracle) hw.current_lt true
  have hquiet : Quiet setting.oracle s { s with workspace := w } := .of_evaluates he
  have hunheard : ({ s with workspace := w } : SearchState α).speech = s.speech :=
    ((along_onWorkspace ((Workspace.along_told _).evaluateBoth _)).of_ok
      (onWorkspace_ok hrun)).speech_eq
  have hfresh' := hfresh.quiet hquiet he.bundle_eq (SearchState.consequences_of_speech hunheard)
  have hclear' := hclear.quiet hquiet hunheard
  have hcurrent : w.current = s.workspace.current := he.grows.current_eq
  have hsample : w.currentSample = w.sampleAt s.workspace.current := by
    rw [Workspace.currentSample, hcurrent]
  rw [← hsample] at hknown
  unfold seek
  rw [bind_of_ok (workspace_run s), bind_of_ok (onWorkspace_ok hrun)]
  cases known with
  | false =>
    obtain ⟨s', hnote⟩ : ∃ s', note [.currentNotEvaluated]
      ({ s with workspace := w } : SearchState α) = .ok () s' := ⟨_, rfl⟩
    have hlogs := (note_leads _ _).of_run hnote
    have hnoted := speech_of_note (.singleton rfl) hnote
    have hq := hlogs.quiet setting.oracle
    refine .inl ⟨s', hfresh'.quiet hq hlogs.bundle_eq (SearchState.consequences_of_speech hnoted),
      hclear'.quiet hq hnoted, hq.wellFormed (he.wellFormed hw), ?_, ?_⟩
    · obtain ⟨_, _, _, rfl⟩ := hlogs
      exact fun hboth => Bool.noConfusion (hknown.mpr hboth)
    · rw [if_pos (by simp), bind_of_ok hnote]
      rfl
  | true =>
    let s₁ : SearchState α := { s with workspace := w }
    have hopens := hfresh'.opens (he.wellFormed hw) (by rw [he.trial_eq, ht, hcurrent])
      (hknown.mp rfl).1 (hknown.mp rfl).2 (configured s₁ s.workspace.radii) s₁.dimension_solver
      (congrArg (fun r : Radii α => StepBound.ofRadius (some r.trust)) hfresh.radii_eq)
      (congrArg (fun r : Radii α => Scalar.greater 0 r.stationarity) hfresh.radii_eq) rfl
    have hstart : Clear entry (s₁.withEngine fun e =>
        { e with solver := some (configured s₁ s.workspace.radii) }) := by
      refine ⟨hclear'.untold_eq, hclear'.speech_eq, Eq.trans ?_ hclear'.cuts_eq⟩
      refine (congrArg Solver.cuts (?_ : _ = configured s₁ s.workspace.radii)).trans rfl
      exact Engine.solverFor_of_some rfl s₁.dimension_solver
    exact .inr ⟨_, hopens, hstart, ready_concludes hopens.inv .start⟩

/-- Accounting for a search succeeds and closes it. -/
theorem account_leads (setting : Setting α) {before : Outcome} (outcome : Outcome)
    (h : s.ledger = (entry.workspace.accounts, before)) :
    Leads (account setting (setting.clock entry.workspace.clockReadings) outcome) s
      fun _ s' => Closes s s' ∧ Accounted setting entry outcome s' := by
  have haccounts : s.workspace.accounts = entry.workspace.accounts := congrArg Prod.fst h
  have hinner : s.workspace.totalInnerIterations = entry.workspace.totalInnerIterations :=
    congrArg Accounts.innerIterations haccounts
  have hminimizer :
      s.workspace.totalMinimizerIterations = entry.workspace.totalMinimizerIterations :=
    congrArg Accounts.minimizerIterations haccounts
  have htime : s.workspace.searchTime = entry.workspace.searchTime :=
    congrArg Accounts.searchTime haccounts
  refine ⟨(), _, rfl, ⟨_, _, _, _, _, _, rfl⟩, rfl, ?_, ?_, ⟨_, rfl, ?_⟩, rfl, ?_⟩
  · rw [← hinner]
  · rw [← hminimizer]
  · rw [← htime]
  · exact Report.back?_flush_add s.engine.report .iteration _

/-- What is left of a call when the clock has been read: the search proper and its account. -/
def remainder (setting : Setting α) (start : α) : SearchM α Outcome := do
  let outcome ← seek setting
  account setting start outcome
  return outcome

/-- A call prepares the engine and reads the clock, and the remainder follows. -/
theorem conclude_eq (hw : entry.workspace.WellFormed setting.oracle) :
    ∃ s, Fresh entry s ∧ Clear entry s ∧ s.workspace.WellFormed setting.oracle ∧
      s.workspace.trial = s.workspace.current ∧ s.ledger = (entry.workspace.accounts, .unset) ∧
      conclude setting entry =
        remainder setting (setting.clock entry.workspace.clockReadings) s := by
  obtain ⟨_, s₁, hprepare, hfresh, hclear, hw₁, ht, hledger, hreadings⟩ := prepare_leads hw
  obtain ⟨s₂, hclock, hlogs⟩ : ∃ s₂, onWorkspace (Workspace.readClock setting.clock) s₁ =
      .ok (setting.clock entry.workspace.clockReadings) s₂ ∧ Logs s₁ s₂ :=
    ⟨_, by rw [← hreadings]; rfl, _, _, _, rfl⟩
  have hsilent : Along (SamePart Workspace.told) (Workspace.readClock setting.clock) :=
    fun _ => rfl
  have hread := ((along_onWorkspace hsilent).of_ok hclock).speech_eq
  have hq := hlogs.quiet setting.oracle
  obtain ⟨hb, ht₂, hledger₂⟩ : s₂.workspace.bundle = s₁.workspace.bundle ∧
      s₂.workspace.trial = s₂.workspace.current ∧ s₂.ledger = s₁.ledger := by
    obtain ⟨_, _, _, rfl⟩ := hlogs
    exact ⟨rfl, ht, rfl⟩
  refine ⟨s₂, hfresh.quiet hq hb (SearchState.consequences_of_speech hread),
    hclear.quiet hq hread, hq.wellFormed hw₁, ht₂, hledger₂.trans hledger, ?_⟩
  unfold conclude
  rw [bind_of_ok hprepare, bind_of_ok hclock]
  rfl

/-- A search that comes to an end is accounted for. -/
theorem account_of_seek {s' : SearchState α} {outcome : Outcome}
    (hledger : s.ledger = (entry.workspace.accounts, .unset))
    (hseek : seek setting s = .ok outcome s') :
    ∃ s'', Closes s' s'' ∧ Accounted setting entry outcome s'' ∧
      account setting (setting.clock entry.workspace.clockReadings) outcome s' = .ok () s'' ∧
      remainder setting (setting.clock entry.workspace.clockReadings) s = .ok outcome s'' := by
  have hledger' := (ledger_seek setting s).trans hledger
  rw [hseek] at hledger'
  obtain ⟨_, s'', haccount, hcloses, haccounted⟩ := account_leads (s := s') setting outcome hledger'
  refine ⟨s'', hcloses, haccounted, haccount, ?_⟩
  unfold remainder
  rw [bind_of_ok hseek, bind_of_ok haccount]
  rfl

/-- The search of a call and its account come to an end, possibly at the time limit, or the
number of points at which aggregation ends is too large. -/
theorem conclude_cases (hw : entry.workspace.WellFormed setting.oracle) :
    (∃ outcome s', conclude setting entry = .ok outcome s' ∧ CallResult setting entry
      (if outcome = .timeLimit then .error .timeLimitReached s' else .ok outcome s')) ∨
    ∃ s', conclude setting entry = .error .tooLarge s' ∧
      CallResult setting entry (.error .tooLarge s') := by
  obtain ⟨s, hfresh, hclear, hws, ht, hledger, hconclude⟩ := conclude_eq hw
  rw [hconclude]
  rcases seek_cases hfresh hclear hws ht with
    ⟨s', hfresh', hclear', hw', hunknown, hseek⟩ | ⟨start, hopens, hclear', hconcludes⟩
  · obtain ⟨s'', hcloses, haccounted, haccount, hresult⟩ := account_of_seek hledger hseek
    exact .inl ⟨_, s'', hresult,
      .unevaluated hfresh' hcloses hunknown haccounted haccount hclear' hw'⟩
  · cases hseek : seek setting s with
    | ok outcome s' =>
      rw [hseek] at hconcludes
      obtain ⟨s'', hcloses, haccounted, haccount, hresult⟩ := account_of_seek hledger hseek
      refine .inl ⟨outcome, s'', hresult, ?_⟩
      by_cases htime : outcome = .timeLimit
      · subst htime
        exact .timeUp hopens hconcludes hcloses haccounted haccount hclear'
      · rw [if_neg htime]
        exact .ended hopens hconcludes hcloses htime haccounted haccount hclear'
    | error fault s' =>
      rw [hseek] at hconcludes
      obtain ⟨rfl, hoverflows⟩ := hconcludes
      have hledger' := (ledger_seek setting s).trans hledger
      rw [hseek] at hledger'
      exact .inr ⟨s', bind_of_error hseek, .overflowed hopens hoverflows hledger' hclear'⟩

/-- Every call on a well-formed workspace comes out in one of the ways described. -/
theorem computeDirection_cases (hw : entry.workspace.WellFormed setting.oracle) :
    CallResult setting entry (computeDirection setting entry) := by
  unfold computeDirection
  rcases conclude_cases hw with ⟨outcome, s', hconclude, hcall⟩ | ⟨s', hconclude, hcall⟩
  · rw [bind_of_ok hconclude]
    split at hcall
    · rename_i htime
      rw [if_pos htime]
      exact hcall
    · rename_i htime
      rw [if_neg htime]
      exact hcall
  · rw [bind_of_error hconclude]
    exact hcall

end Search

end NonsmoothDescent
