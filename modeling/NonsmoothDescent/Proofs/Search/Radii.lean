import NonsmoothDescent.Proofs.Search.Order
import NonsmoothDescent.Proofs.Search.Setup
import NonsmoothDescent.Proofs.Search.Stationarity
import NonsmoothDescent.Proofs.Search.Trial

/-!
# The radii of a call

A shrinking rule changes the radii as a side effect of an acceptance test, before it is
known whether the trial is accepted. But where the rule fires the trial is accepted, and
the search ends. So the radii shrink at most once in a call, at its last event, and all
solves and tests before see the radii at entry. A shortened step is tested only after the
rule has refused to fire for the full step; it is then asked about the same solve at the
same radii and refuses again.
-/

namespace NonsmoothDescent

variable {α : Type} [Scalar α]

section Asking

variable {setting : Setting α} {rule : ShrinkRule α}

/-- What comes of asking a shrinking rule about a solver's result at given radii. -/
structure Moment.Judged (rule : ShrinkRule α) (radii : Radii α) (m : Moment α) : Prop where
  fired_iff : m.engine.ruleRecord.fired = true ↔
    m.solver.status = .success ∧ m.solver.combinationNormInf ≤ rule.tolerance * radii.stationarity
  radii_eq : m.workspace.radii =
    if m.engine.ruleRecord.fired = true then rule.shrink radii else radii

/-- A shrinking rule that is asked judges by the radii of that moment. -/
theorem Moment.judged_asked (hrule : setting.rule = rule.toRule) (m : Moment α) :
    (m.asked setting).Judged rule m.workspace.radii where
  fired_iff := by
    rw [(keeps_asked setting m).solver_eq']
    change (setting.rule.ask m.engine.ruleRecord m.workspace.radii m.solver.status
      m.solver.combinationNormInf).1.fired = true ↔ _
    rw [hrule]
    exact ShrinkRule.fires_iff
  radii_eq := by
    change (setting.rule.ask m.engine.ruleRecord m.workspace.radii m.solver.status
      m.solver.combinationNormInf).2 =
        if (setting.rule.ask m.engine.ruleRecord m.workspace.radii m.solver.status
          m.solver.combinationNormInf).1.fired = true then _ else _
    rw [hrule]
    exact ShrinkRule.radii_verdict

/-- Every test asks about the radii at the start. -/
theorem Reached.judged {start s : SearchState α} {b : Stage α} {evaluated : Bool}
    (hrule : setting.rule = rule.toRule) (hinv : Inv setting .ready start.toMoment)
    (h : Reached setting start b s) (hb : b.TestedAt evaluated) :
    s.toMoment.Judged rule start.workspace.radii := by
  obtain ⟨m, hm, hradii⟩ := h.asked hinv hb
  rw [hm, ← hradii (hrule ▸ rule.steady)]
  exact Moment.judged_asked hrule m

end Asking

section Steps

variable {setting : Setting α} {a b : Stage α} {s s' start : SearchState α} {m : Moment α}

/-- What the last test tells of a stage. While the search goes on, the rule has not fired
and the solver is still the one that was tested. -/
def Stage.AfterTest (m : Moment α) : Stage α → SearchState α → Prop
  | .gradientTested accepted, s | .tested _ accepted, s | .shortTested _ _ _ accepted, s =>
    s.toMoment = m ∧ (m.engine.ruleRecord.fired = true → accepted = true)
  | .ended outcome, s => (m.engine.ruleRecord.fired = true → outcome = .success) ∧
    s.workspace.radii = m.workspace.radii ∧ s.workspace.bundle = m.workspace.bundle ∧
    s.engine.ruleRecord = m.engine.ruleRecord
  | .ready, _ | .solved _, _ | .round _, _ | .begun _ _, _ => False
  | _, s => m.engine.ruleRecord.fired = false ∧ s.solver = m.solver

/-- A test of a shortened step, after that of the full step of the same round. -/
structure Moment.Retests (options : Options α) (radius : α) (m m' : Moment α) : Prop where
  refused : m.engine.ruleRecord.fired = false
  solver_eq : m'.solver = m.solver
  trial : m'.TrialAt (shortStepsize options radius m'.solver.stepNormInf)

/-- After a test the search goes on only if the rule did not fire, and the next test is
that of the shortened step. -/
def Event.MayPrecede (options : Options α) (radius : α) : Event α → Event α → Prop
  | .tested m _, .tested m' _ => m.Retests options radius m'
  | .tested m _, _ => m.engine.ruleRecord.fired = false
  | _, _ => True

/-- What the last event tells of a stage, if it is a test. -/
def Event.TellsTest : Event α → Stage α → SearchState α → Prop
  | .tested m _, b, s => b.AfterTest m s
  | _, _, _ => True

/-- Where a step was rejected the rule did not fire. -/
theorem not_fired_of_rejected {accepted : Bool}
    (h : m.engine.ruleRecord.fired = true → accepted = true) (hrejected : accepted = false) :
    m.engine.ruleRecord.fired = false := by
  rw [hrejected] at h
  exact Bool.eq_false_iff.mpr fun hfired => Bool.false_ne_true (h hfired)

/-- A test that the rule makes fire is passed. -/
theorem passes_of_fired {evaluated : Bool} {stepsize : α}
    (h : (s.tested setting evaluated).engine.ruleRecord.fired = true) :
    s.passes setting evaluated stepsize = true := by
  have hfired : (s.asked setting).engine.ruleRecord.fired = true := h
  unfold SearchState.passes Moment.accepting
  rw [hfired, Bool.or_true]

/-- Until something else is written a stage comes after the last test. -/
theorem Stage.AfterTest.step (h : a.AfterTest m s) (hinv : Inv setting a s.toMoment)
    (hstep : Step setting a s b s') (hb : ¬ b.Tells) : b.AfterTest m s' := by
  have hquiet := hstep.quiet hinv
  have hsame := hstep.solver_eq hinv (Stage.gain_of_not_tells hb)
  cases hstep with
  | acceptGradient hr | acceptShort hr =>
    obtain ⟨rfl, _⟩ := h
    have hq := hquiet trivial
    exact ⟨fun _ => rfl, hq.radii_eq, ((Search.note_leads _ _).of_run hr).bundle_eq,
      hq.ruleRecord_eq⟩
  | acceptFull =>
    obtain ⟨rfl, _⟩ := h
    exact ⟨fun _ => rfl, rfl, rfl, rfl⟩
  | reachLimit =>
    obtain ⟨rfl, hfired⟩ := h
    exact ⟨fun hf => Bool.noConfusion (hfired hf), rfl, rfl, rfl⟩
  | runOut _ hr =>
    obtain ⟨rfl, hfired⟩ := h
    have hq := hquiet trivial
    exact ⟨fun hf => Bool.noConfusion (hfired hf), hq.radii_eq,
      ((Search.elapsed_leads _ _).of_run hr).bundle_eq, hq.ruleRecord_eq⟩
  | rejectGradient | goOn | sampleShort =>
    obtain ⟨rfl, hfired⟩ := h
    exact ⟨not_fired_of_rejected hfired rfl, hsame⟩
  | omitGradient | enterLoop | markSwitch | nextRound | failSolver | restart | failTrial =>
    exact h.elim
  | solveGradient | testGradient | solveFull | fallBack | beginRound | testFull | testShort
  | solveAggregated | solveSwitching | solveWarm => exact absurd trivial hb
  | _ => exact ⟨h.1, hsame.trans h.2⟩

/-- A step that writes something after a test starts where the rule has not fired. -/
theorem Stage.AfterTest.refused (h : a.AfterTest m s) (hstep : Step setting a s b s')
    (hb : b.Tells) : m.engine.ruleRecord.fired = false ∧ s.solver = m.solver := by
  cases hstep with
  | solveFull | testShort | solveAggregated | solveSwitching | solveWarm => exact h
  | solveGradient | testGradient | fallBack | markSwitch | beginRound | testFull => exact h.elim
  | _ => exact hb.elim

/-- After a test that was refused anything may be written, but a test of the shortened step
alone of all tests. -/
theorem Event.TellsTest.mayPrecede {options : Options α} {radius : α} {event event' : Event α}
    (h : event.TellsTest a s) (hstep : Step setting a s b s') (hb : b.Tells)
    (hnot : ∀ m evaluated, event' ≠ .tested m evaluated) :
    event.MayPrecede options radius event' := by
  cases event with
  | tested m evaluated =>
    have hrefused := (Stage.AfterTest.refused h hstep hb).1
    cases event' with
    | tested m' evaluated' => exact absurd rfl (hnot m' evaluated')
    | consulted | solved | roundBegan => exact hrefused
  | consulted | solved | roundBegan => trivial

/-- The only test that follows another is that of the shortened step. -/
theorem Stage.AfterTest.retests {radius : α} {evaluated : Bool} (hsteady : setting.rule.Steady)
    (h : a.AfterTest m s) (hstep : Step setting a s b s') (hb : b.TestedAt evaluated)
    (hsame : s'.solver = s.solver) (hplaced : b.Placed setting radius s'.toMoment) :
    m.Retests setting.options radius s'.toMoment := by
  cases hb with
  | gradient | full =>
    exfalso
    cases hstep
    exact h.elim
  | short =>
    obtain ⟨hrefused, hsolver⟩ := h.refused hstep trivial
    obtain ⟨_, r, hr, hat⟩ := hplaced
    exact ⟨hrefused, hsame.trans hsolver, hr hsteady ▸ hat⟩

/-- With a steady rule a test may be written where the last event allows it. -/
theorem Event.TellsTest.mayPrecede_tested {event : Event α} {evaluated : Bool}
    (hsteady : setting.rule.Steady) (h : event.TellsTest a s)
    (hinv : Inv setting .ready start.toMoment)
    (hreached : Reached setting start a s) (hstep : Step setting a s b s')
    (hb : b.TestedAt evaluated) :
    event.MayPrecede setting.options start.workspace.radii.stationarity
      (.tested s'.toMoment evaluated) := by
  have hsame : b.gain = 0 → s'.solver = s.solver := hstep.solver_eq (hreached.inv hinv)
  have hzero : b.gain = 0 := by cases hb <;> rfl
  cases event with
  | tested m known =>
    exact Stage.AfterTest.retests hsteady h hstep hb (hsame hzero)
      ((hreached.step hstep).placed hinv)
  | consulted | solved | roundBegan => trivial

/-- The tests of a search with a steady rule obey this order. -/
theorem testLaw (hsteady : setting.rule.Steady) (hinv : Inv setting .ready start.toMoment) :
    OrderLaw setting start Event.TellsTest
      (Event.MayPrecede setting.options start.workspace.radii.stationarity) where
  kept {a b s s' event} hreached hstep hb h := by
    cases event with
    | tested m evaluated => exact Stage.AfterTest.step h (hreached.inv hinv) hstep hb
    | consulted | solved | roundBegan => trivial
  written {a b s s' new} hreached hstep hwrites event hevent := by
    cases hwrites with
    | nothing => cases hevent
    | solved =>
      rw [List.getLast?_append_of_ne_nil _ (List.cons_ne_nil _ _)] at hevent
      cases hevent
      trivial
    | began =>
      cases hevent
      trivial
    | tested hb =>
      cases hevent
      cases hstep with
      | testGradient | testFull | testShort => exact ⟨rfl, passes_of_fired⟩
      | _ => cases hb
  follows {a b s s' new} hreached hstep hwrites := by
    have hgain := hwrites.of_gain
    cases hwrites with
    | nothing => exact ⟨.nil, fun _ _ _ h => by cases h⟩
    | solved hkind =>
      have htells := Stage.tells_of_gain hkind
      rcases hgain hkind with hnew | ⟨c, hnew⟩ <;> rw [hnew]
      · refine ⟨.singleton _, fun event h event' hevent' => ?_⟩
        cases hevent'
        exact Event.TellsTest.mayPrecede h hstep htells (by simp)
      · refine ⟨.cons_cons trivial (.singleton _), fun event h event' hevent' => ?_⟩
        cases hevent'
        exact Event.TellsTest.mayPrecede h hstep htells (by simp)
    | tested hb =>
      refine ⟨.singleton _, fun event h event' hevent' => ?_⟩
      cases hevent'
      exact Event.TellsTest.mayPrecede_tested hsteady h hinv hreached hstep hb
    | began =>
      refine ⟨.singleton _, fun event h event' hevent' => ?_⟩
      cases hevent'
      exact Event.TellsTest.mayPrecede h hstep trivial (by simp)

/-- A test is the last event when it has been made. -/
theorem Reached.getLast?_of_testedAt {evaluated : Bool} (hinv : Inv setting .ready start.toMoment)
    (h : Reached setting start b s) (hb : b.TestedAt evaluated) :
    ∃ known, s.journal.toList.getLast? = some (.tested s.toMoment known) := by
  obtain _ | ⟨hreached, hstep⟩ := h
  · cases hb
  · obtain ⟨new, hjournal, hwrites⟩ := hstep.writes (hreached.inv hinv)
    rw [hjournal]
    cases hwrites with
    | nothing hsilent => cases hb <;> exact absurd trivial hsilent
    | solved => cases hb
    | @tested _ _ _ _ known => exact ⟨known, List.getLast?_concat⟩
    | began => cases hb

/-- When a search has ended its radii are those at the start, or those of its last test. -/
theorem Reached.radii_of_ended {outcome : Outcome} (hsteady : setting.rule.Steady)
    (hinv : Inv setting .ready start.toMoment)
    (h : Reached setting start (.ended outcome) s) :
    s.workspace.radii = start.workspace.radii ∨ ∃ m evaluated,
      s.journal.toList.getLast? = some (.tested m evaluated) ∧
        s.workspace.radii = m.workspace.radii := by
  obtain _ | @⟨a, _, t, _, hreached, hstep⟩ := h
  have hquiet := hstep.quiet (hreached.inv hinv) trivial
  have htested : ∀ evaluated, a.TestedAt evaluated → ∃ m known,
      s.journal.toList.getLast? = some (.tested m known) ∧
        s.workspace.radii = m.workspace.radii := by
    intro evaluated hb
    obtain ⟨known, hlast⟩ := hreached.getLast?_of_testedAt hinv hb
    exact ⟨_, known, hquiet.journal_eq ▸ hlast, hquiet.radii_eq⟩
  cases hstep with
  | acceptGradient => exact .inr (htested true (.gradient _))
  | @acceptFull _ evaluated => exact .inr (htested evaluated (.full _))
  | @acceptShort _ _ aggregating evaluated cuts => exact .inr (htested evaluated (.short _ _ _))
  | failSolver | failTrial =>
    exact .inl (hquiet.radii_eq.trans (hreached.radii_eq hinv hsteady trivial))
  | reachLimit | runOut =>
    exact .inl (hquiet.radii_eq.trans (hreached.radii_eq hinv hsteady rfl))

/-- A test that is not the last event has not seen the rule fire. -/
theorem refused_of_mem_before {options : Options α} {radius : α} {before : List (Event α)}
    {last : Event α} {evaluated : Bool}
    (h : (before ++ [last]).IsChain (Event.MayPrecede options radius))
    (hm : Event.tested m evaluated ∈ before) : m.engine.ruleRecord.fired = false := by
  obtain ⟨event, hnext⟩ := exists_next h hm
  cases event with
  | tested => exact hnext.refused
  | consulted | solved | roundBegan => exact hnext

end Steps

/-- A call has ended by a test at which the rule fired: both radii were shrunk once, after
a solve that was a success with a small combination of slopes, and nothing followed. -/
structure Shrunk (rule : ShrinkRule α) (radii : Radii α) (m : Moment α) (s : SearchState α) :
    Prop where
  fired : m.engine.ruleRecord.fired = true
  status_eq : m.solver.status = .success
  combination_eq : m.solver.combination = m.solver.subproblem.combination m.solver.weights
  combination_le : Vec.normInf m.solver.combination ≤ rule.tolerance * radii.stationarity
  radii_eq : s.workspace.radii = rule.shrink radii
  bundle_eq : s.workspace.bundle = m.workspace.bundle
  ruleRecord_eq : s.engine.ruleRecord = m.engine.ruleRecord

section Call

variable {setting : Setting α} {entry : SearchState α}
  {result : EStateM.Result (Fault α) (SearchState α) Outcome}

/-- After a call the radii are those at entry, or those of its last test. -/
theorem CallResult.radii_cases (hsteady : setting.rule.Steady)
    (h : CallResult setting entry result) :
    (finalState result).workspace.radii = entry.workspace.radii ∨ ∃ m evaluated,
      (finalState result).journal.toList.getLast? = some (.tested m evaluated) ∧
        (finalState result).workspace.radii = m.workspace.radii := by
  have hended : ∀ {start s s' : SearchState α} {outcome : Outcome}, Opens setting entry start →
      Reached setting start (.ended outcome) s → Closes s s' →
        s'.workspace.radii = entry.workspace.radii ∨ ∃ m evaluated,
          s'.journal.toList.getLast? = some (.tested m evaluated) ∧
            s'.workspace.radii = m.workspace.radii := by
    intro start s s' outcome hopens hreached hcloses
    have hquiet := hcloses.quiet setting.oracle
    rw [hquiet.journal_eq, hquiet.radii_eq, ← hopens.radii_eq]
    exact hreached.radii_of_ended hsteady hopens.inv
  cases h with
  | unevaluated hfresh hcloses =>
    exact .inl ((hcloses.quiet setting.oracle).radii_eq.trans hfresh.radii_eq)
  | ended hopens hreached hcloses => exact hended hopens hreached hcloses
  | timeUp hopens hreached hcloses => exact hended hopens hreached hcloses
  | overflowed hopens hoverflows =>
    obtain ⟨_, _, _, hreached⟩ := hoverflows
    exact .inl ((hreached.radii_eq hopens.inv hsteady trivial).trans hopens.radii_eq)

/-- If the rule has fired at the last event, the call succeeds and nothing has changed since. -/
theorem CallResult.success_of_fired (hsteady : setting.rule.Steady)
    (h : CallResult setting entry result) {m : Moment α} {evaluated : Bool}
    (hlast : (finalState result).journal.toList.getLast? = some (.tested m evaluated))
    (hfired : m.engine.ruleRecord.fired = true) :
    ∃ s, result = .ok .success s ∧ s.workspace.radii = m.workspace.radii ∧
      s.workspace.bundle = m.workspace.bundle ∧ s.engine.ruleRecord = m.engine.ruleRecord := by
  have hlaw := fun start (hopens : Opens setting entry start) => testLaw hsteady hopens.inv
  cases h with
  | unevaluated hfresh hcloses =>
    rw [finalState_ok, (hcloses.quiet setting.oracle).journal_eq, hfresh.journal_eq] at hlast
    cases hlast
  | @ended start s s' outcome hopens hreached hcloses =>
    have hquiet := hcloses.quiet setting.oracle
    obtain ⟨houtcome, hradii, hbundle, hrecord⟩ :=
      (hlaw _ hopens).told_last hopens hreached hquiet hlast
    have hsame : s'.workspace.bundle = s.workspace.bundle := by
      obtain ⟨_, _, _, _, _, _, rfl⟩ := hcloses
      rfl
    exact ⟨s', by rw [houtcome hfired], hquiet.radii_eq.trans hradii, hsame.trans hbundle,
      hquiet.ruleRecord_eq.trans hrecord⟩
  | timeUp hopens hreached hcloses =>
    obtain ⟨houtcome, _⟩ :=
      (hlaw _ hopens).told_last hopens hreached (hcloses.quiet setting.oracle) hlast
    cases houtcome hfired
  | overflowed hopens hoverflows =>
    obtain ⟨_, _, _, hreached⟩ := hoverflows
    obtain ⟨hrefused, _⟩ :=
      (hlaw _ hopens).told_last hopens hreached (.refl setting.oracle _) hlast
    cases hrefused.symm.trans hfired

/-- Every test asks about the radii at entry. -/
theorem CallResult.judged {rule : ShrinkRule α} (h : CallResult setting entry result)
    (hrule : setting.rule = rule.toRule) {m : Moment α} {evaluated : Bool}
    (hm : Event.tested m evaluated ∈ (finalState result).journal.toList) :
    m.Judged rule entry.workspace.radii := by
  obtain ⟨start, hopens, stage, journal, htested, hreached⟩ := h.cases_of_event hm
  rw [← hopens.radii_eq]
  exact hreached.judged hrule hopens.inv htested

/-- The combination that a test is about belongs to the weights of the last solve. -/
theorem CallResult.combination_eq (h : CallResult setting entry result) {m : Moment α}
    {evaluated : Bool} (hm : Event.tested m evaluated ∈ (finalState result).journal.toList)
    (hsuccess : m.solver.status = .success) :
    m.solver.combination = m.solver.subproblem.combination m.solver.weights := by
  obtain ⟨start, hopens, stage, journal, htested, hreached⟩ := h.cases_of_event hm
  refine hreached.of_solves (P := fun s => s.status = .success →
    s.combination = s.subproblem.combination s.weights) ?_ hopens.inv ?_ hsuccess
  · intro solver warm ask hs
    rw [Solver.combination_of_success solver warm ask hs, Solver.solveBy_subproblem]
  · cases htested <;> exact id

/-- The tests of a call obey the order of tests. -/
theorem CallResult.isChain_mayPrecede (hsteady : setting.rule.Steady)
    (h : CallResult setting entry result) :
    (finalState result).journal.toList.IsChain
      (Event.MayPrecede setting.options entry.workspace.radii.stationarity) :=
  h.isChain fun _ hopens => hopens.radii_eq ▸ testLaw hsteady hopens.inv

/-- If the rule has not fired at the last event, it has not fired at all. -/
theorem CallResult.refused (hsteady : setting.rule.Steady) (h : CallResult setting entry result)
    (hend : ∀ m evaluated,
      (finalState result).journal.toList.getLast? = some (.tested m evaluated) →
        m.engine.ruleRecord.fired = false) {m : Moment α} {evaluated : Bool}
    (hm : Event.tested m evaluated ∈ (finalState result).journal.toList) :
    m.engine.ruleRecord.fired = false := by
  have hchain := h.isChain_mayPrecede hsteady
  obtain ⟨before, last, hjournal⟩ := (List.eq_nil_or_concat _).resolve_left (List.ne_nil_of_mem hm)
  rw [List.concat_eq_append] at hjournal
  rw [hjournal] at hm hchain hend
  rcases List.mem_append.mp hm with hbefore | hlast
  · exact refused_of_mem_before hchain hbefore
  · obtain rfl := List.mem_singleton.mp hlast
    exact hend m evaluated List.getLast?_concat

/-- The test of a shortened step is refused like the one before it. -/
theorem CallResult.refused_again {rule : ShrinkRule α} (h : CallResult setting entry result)
    (hrule : setting.rule = rule.toRule) {m m' : Moment α} {evaluated evaluated' : Bool}
    (hm : Event.tested m evaluated ∈ (finalState result).journal.toList)
    (hm' : Event.tested m' evaluated' ∈ (finalState result).journal.toList)
    (hretests : m.Retests setting.options entry.workspace.radii.stationarity m') :
    m'.engine.ruleRecord.fired = false := by
  refine Bool.eq_false_iff.mpr fun hfired => ?_
  have hsame := (h.judged hrule hm').fired_iff.mp hfired
  rw [hretests.solver_eq] at hsame
  exact Bool.eq_false_iff.mp hretests.refused ((h.judged hrule hm).fired_iff.mpr hsame)

/-- If the rule has fired at the last event, this has ended the call. -/
theorem CallResult.shrunk {rule : ShrinkRule α} (h : CallResult setting entry result)
    (hrule : setting.rule = rule.toRule) {m : Moment α} {evaluated : Bool}
    (hlast : (finalState result).journal.toList.getLast? = some (.tested m evaluated))
    (hfired : m.engine.ruleRecord.fired = true) :
    ∃ s before, result = .ok .success s ∧ s.journal.toList = before ++ [.tested m evaluated] ∧
      (∀ m' evaluated', Event.tested m' evaluated' ∈ before →
        m'.engine.ruleRecord.fired = false) ∧
      Shrunk rule entry.workspace.radii m s := by
  have hm := List.mem_of_getLast? hlast
  have hjudged := h.judged hrule hm
  obtain ⟨hstatus, hsmall⟩ := hjudged.fired_iff.mp hfired
  have hshrunk := hjudged.radii_eq
  rw [if_pos hfired] at hshrunk
  have hsteady : setting.rule.Steady := hrule ▸ rule.steady
  obtain ⟨s, rfl, hradii, hbundle, hrecord⟩ := h.success_of_fired hsteady hlast hfired
  obtain ⟨before, hjournal⟩ := List.getLast?_eq_some_iff.mp hlast
  have hchain := h.isChain_mayPrecede hsteady
  rw [hjournal] at hchain
  exact ⟨s, before, rfl, hjournal, fun m' evaluated' => refused_of_mem_before hchain, hfired,
    hstatus, h.combination_eq hm hstatus, hsmall, hradii.trans hshrunk, hbundle, hrecord⟩

/-- If the rule has not fired at all, the radii are unchanged. -/
theorem CallResult.radii_eq {rule : ShrinkRule α} (h : CallResult setting entry result)
    (hrule : setting.rule = rule.toRule)
    (hrefused : ∀ m evaluated, Event.tested m evaluated ∈ (finalState result).journal.toList →
      m.engine.ruleRecord.fired = false) :
    (finalState result).workspace.radii = entry.workspace.radii := by
  rcases h.radii_cases (hrule ▸ rule.steady) with hradii | ⟨m, evaluated, hlast, hradii⟩
  · exact hradii
  · have hm := List.mem_of_getLast? hlast
    rw [hradii, (h.judged hrule hm).radii_eq, hrefused m evaluated hm]
    rfl

end Call

/-- In a call with a shrinking rule, no test sees the rule fire and the radii are
unchanged at exit; or the last event of the journal is the first test that sees it fire,
the radii are shrunk once, and the call succeeds. The test of a shortened step is about
the same solve as the test before it, and the rule fires at neither. Every solve uses the
radii at entry. -/
theorem radii_shrink_once {setting : Setting α} {entry : SearchState α}
    (hw : entry.workspace.WellFormed setting.oracle) {rule : ShrinkRule α}
    (hrule : setting.rule = rule.toRule) :
    ((finalState (Search.computeDirection setting entry)).workspace.radii =
        entry.workspace.radii ∧
      (∀ m evaluated, Event.tested m evaluated ∈
          (finalState (Search.computeDirection setting entry)).journal.toList →
        m.engine.ruleRecord.fired = false) ∨
      ∃ s before m evaluated, Search.computeDirection setting entry = .ok .success s ∧
        s.journal.toList = before ++ [.tested m evaluated] ∧
        (∀ m' evaluated', Event.tested m' evaluated' ∈ before →
          m'.engine.ruleRecord.fired = false) ∧
        Shrunk rule entry.workspace.radii m s) ∧
    (∀ m evaluated m' evaluated', [Event.tested m evaluated, Event.tested m' evaluated'] <:+:
        (finalState (Search.computeDirection setting entry)).journal.toList →
      m.Retests setting.options entry.workspace.radii.stationarity m' ∧
        m'.engine.ruleRecord.fired = false) ∧
    ∀ m, Event.solved m ∈
        (finalState (Search.computeDirection setting entry)).journal.toList →
      m.workspace.radii = entry.workspace.radii ∧
        m.solver.subproblem.bound = .ofRadius (some entry.workspace.radii.trust) ∧
        m.solver.inexactness = Scalar.greater 0 entry.workspace.radii.stationarity := by
  have hcall := Search.computeDirection_cases hw
  have hsteady : setting.rule.Steady := hrule ▸ rule.steady
  generalize Search.computeDirection setting entry = result at hcall ⊢
  refine ⟨?_, fun m evaluated m' evaluated' hpair => ?_, fun m hm => ?_⟩
  · by_cases hend : ∃ m evaluated,
        (finalState result).journal.toList.getLast? = some (.tested m evaluated) ∧
          m.engine.ruleRecord.fired = true
    · obtain ⟨m, evaluated, hlast, hfired⟩ := hend
      obtain ⟨s, before, hshrunk⟩ := hcall.shrunk hrule hlast hfired
      exact .inr ⟨s, before, m, evaluated, hshrunk⟩
    · have hrefused : ∀ m evaluated, Event.tested m evaluated ∈
          (finalState result).journal.toList → m.engine.ruleRecord.fired = false :=
        fun m evaluated => hcall.refused hsteady fun m evaluated hlast =>
          Bool.eq_false_iff.mpr fun hfired => hend ⟨m, evaluated, hlast, hfired⟩
      exact .inl ⟨hcall.radii_eq hrule hrefused, hrefused⟩
  · have hretests := next_of_pair (hcall.isChain_mayPrecede hsteady) hpair
    have hm := hpair.subset List.mem_cons_self
    have hm' := hpair.subset (List.mem_cons_of_mem _ List.mem_cons_self)
    exact ⟨hretests, hcall.refused_again hrule hm hm' hretests⟩
  · obtain ⟨start, hopens, kind, journal, hreached⟩ := hcall.cases_of_event hm
    have halike := hreached.alike hopens.inv
    exact ⟨(hreached.radii_eq hopens.inv hsteady trivial).trans hopens.radii_eq,
      halike.bound_eq.trans hopens.bound_eq, halike.inexactness_eq.trans hopens.inexactness_eq⟩

/-- Where the gradients on both sides of the valley cancel, both radii shrink to a tenth. -/
theorem radii_shrink_in_valley : ∃ s before m evaluated,
    Search.computeDirection balanced acrossValley = .ok .success s ∧
      s.journal.toList = before ++ [.tested m evaluated] ∧
      Shrunk .standard acrossValley.workspace.radii m s ∧
      s.workspace.radii = ⟨1 / 100, 1 / 10⟩ := by
  have hfires : ((finalState (Search.computeDirection balanced acrossValley)).journal.toList.any
      fun
        | .tested m _ => m.engine.ruleRecord.fired
        | _ => false) = true := by
    decide +kernel
  obtain ⟨event, hevent, hfired⟩ := List.any_eq_true.mp hfires
  have hrule : balanced.rule = ShrinkRule.standard.toRule := rfl
  obtain ⟨⟨_, hrefused⟩ | ⟨s, before, m, evaluated, hresult, hjournal, _, hshrunk⟩, _⟩ :=
    radii_shrink_once wellFormed_acrossValley hrule
  · cases event with
    | tested m evaluated => cases (hrefused m evaluated hevent).symm.trans hfired
    | consulted | solved | roundBegan => cases hfired
  · refine ⟨s, before, m, evaluated, hresult, hjournal, hshrunk, ?_⟩
    rw [hshrunk.radii_eq]
    norm_num [ShrinkRule.shrink, ShrinkRule.standard, acrossValley]

end NonsmoothDescent
