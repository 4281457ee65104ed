import NonsmoothDescent.Proofs.Search.Coherence
import NonsmoothDescent.Proofs.Search.Split

/-!
# What a call reports

Lines are buffered when a round is given up for another solve and at the end of a call,
and emitted when the next round begins and at the end. So every line of a call is emitted
once and in order: for each round whose step was rejected its figures and the text of the
rule, if that has one, and then the summary. The figures of a round are those of the solve
whose step was rejected. The summary counts the solves of the call, the iterations of the
minimizer and the planes of the solver. These are the active cuts as soon as the call has
made a solve; before that the planes may be left over from an earlier call.
-/

namespace NonsmoothDescent

variable {α : Type}

/-- The notice tells that a report line was emitted. -/
def Notice.isReported : Notice α → Bool
  | .reported _ _ => true
  | _ => false

/-- A report line is a search's own notice. -/
theorem Notice.isOwn_of_isReported (n : Notice α) (h : n.isReported = true) : n.isOwn = true := by
  cases n <;> first | rfl | cases h

/-- Report lines are all reported. -/
theorem filter_isReported_ofLine (entries : List (LineKind × ProgressLine α)) :
    (entries.map Notice.ofLine).filter Notice.isReported = entries.map Notice.ofLine := by
  refine List.filter_eq_self.mpr fun n hn => ?_
  obtain ⟨_, _, rfl⟩ := List.mem_map.mp hn
  rfl

/-- What is reported is part of what is told. -/
theorem Workspace.heard_isReported (w : Workspace α) :
    w.heard Notice.isReported = w.told.filter Notice.isReported :=
  heard_eq Notice.isOwn_of_isReported w

variable [Scalar α]

/-- The rounds that a solve has followed: those whose step was rejected. -/
def resolvedRounds : List (Event α) → List (Moment α)
  | [] => []
  | .roundBegan m :: events =>
    if (solvesOf events).isEmpty then resolvedRounds events else m :: resolvedRounds events
  | _ :: events => resolvedRounds events

section Rounds

variable {events new : List (Event α)}

/-- As long as no solve follows, no more rounds are resolved. -/
theorem resolvedRounds_append_of_unsolved (h : solvesOf new = []) :
    resolvedRounds (events ++ new) = resolvedRounds events := by
  have hnone : ∀ {more : List (Event α)}, solvesOf more = [] → resolvedRounds more = [] := by
    intro more hmore
    induction more with
    | nil => rfl
    | cons event more ih =>
      cases event with
      | solved m => cases hmore
      | roundBegan m =>
        have hmore : solvesOf more = [] := hmore
        rw [resolvedRounds, if_pos (List.isEmpty_iff.mpr hmore), ih hmore]
      | consulted | tested => exact ih hmore
  induction events with
  | nil => exact hnone h
  | cons event events ih =>
    cases event with
    | roundBegan m =>
      rw [List.cons_append, resolvedRounds, resolvedRounds, ih, solvesOf_append, h,
        List.append_nil]
    | consulted | solved | tested => exact ih

/-- A solve resolves all rounds before it. -/
theorem resolvedRounds_append_of_solved (hrounds : roundsOf new = []) (h : solvesOf new ≠ []) :
    resolvedRounds (events ++ new) = roundsOf events := by
  have hnone : ∀ {more : List (Event α)}, roundsOf more = [] → resolvedRounds more = [] := by
    intro more hmore
    induction more with
    | nil => rfl
    | cons event more ih =>
      cases event with
      | roundBegan m => cases hmore
      | consulted | solved | tested => exact ih hmore
  induction events with
  | nil => exact hnone hrounds
  | cons event events ih =>
    cases event with
    | roundBegan m =>
      have hsolved : ¬ (solvesOf (events ++ new)).isEmpty = true := by
        rw [solvesOf_append, List.isEmpty_iff]
        exact List.append_ne_nil_of_right_ne_nil _ h
      rw [List.cons_append, resolvedRounds, if_neg hsolved, ih]
      rfl
    | consulted | solved | tested => exact ih

end Rounds

/-- A round is under way: it has begun and its solve has not been made yet. -/
def Stage.Underway : Stage α → Prop
  | .begun _ _ | .tested _ _ | .rejected _ | .sampling _ _ | .sampled _ _ | .shortTested _ _ _ _
  | .chosen _ _ | .augmented _ _ => True
  | _ => False

/-- Which rounds are resolved at a stage: all but the one under way, whose figures are still
those at its beginning. -/
def Stage.Rounds (b : Stage α) (s : SearchState α) : Prop :=
  (b.Underway → ∃ m, roundsOf s.journal.toList = resolvedRounds s.journal.toList ++ [m] ∧
    m.figures = s.figures) ∧
  (¬ b.Underway → (∀ outcome, b ≠ .ended outcome) →
    resolvedRounds s.journal.toList = roundsOf s.journal.toList)

section Steps

variable {setting : Setting α} {a b : Stage α} {s s' start : SearchState α}

/-- A solve resolves all rounds that have begun. -/
theorem Step.resolvedRounds_eq (hstep : Step setting a s b s') (h : Inv setting a s.toMoment) :
    resolvedRounds s'.journal.toList =
      if b.gain = 1 then roundsOf s.journal.toList else resolvedRounds s.journal.toList := by
  obtain ⟨new, hjournal, hfits, hsolves⟩ := hstep.records h
  rw [hjournal]
  by_cases hb : b.gain = 1
  · rw [if_pos hb] at hsolves ⊢
    refine resolvedRounds_append_of_solved ?_ (by rw [hsolves]; exact List.cons_ne_nil _ _)
    refine List.eq_nil_iff_forall_not_mem.mpr fun m hm => ?_
    obtain ⟨_, first, rfl⟩ := hfits _ (mem_roundsOf.mp hm)
    cases hstep
    cases hb
  · rw [if_neg hb] at hsolves ⊢
    exact resolvedRounds_append_of_unsolved hsolves

/-- The figures are those of the solver and of two counters. -/
theorem Moment.figures_congr {m m' : Moment α} (hsolver : m'.solver = m.solver)
    (hinner : m'.workspace.innerIterations = m.workspace.innerIterations)
    (hminimizer : m'.workspace.minimizerIterations = m.workspace.minimizerIterations) :
    m'.figures = m.figures := by
  change Figures.mk _ m'.solver.cuts _ m'.solver.status m'.solver.optimalityError
    m'.solver.stepNormInf m'.solver.quadraticValue = _
  rw [hsolver, hinner, hminimizer]
  rfl

/-- Figures stay while solver and counters do. -/
theorem Moment.Keeps.figures_eq {o : Oracle α} {m m' : Moment α} (h : Keeps o m m') :
    m'.figures = m.figures :=
  figures_congr h.solver_eq' h.innerIterations_eq h.minimizerIterations_eq

/-- A step that makes no solve leaves the figures alone. -/
theorem Step.figures_eq (hstep : Step setting a s b s') (h : Inv setting a s.toMoment)
    (hb : b.gain = 0) : s'.figures = s.figures := by
  have hinner := (hstep.advances h).iterations_eq
  rw [hb] at hinner
  exact Moment.figures_congr (hstep.solver_eq h hb) (hinner.trans (add_zero _))
    (hstep.minimizerIterations_eq h hb)

/-- Which rounds are resolved is known at every stage. -/
theorem Stage.Rounds.step (hr : a.Rounds s) (h : Inv setting a s.toMoment)
    (hstep : Step setting a s b s') : b.Rounds s' := by
  have hresolved := hstep.resolvedRounds_eq h
  have hrounds := hstep.roundsOf_eq h
  have hfigures := hstep.figures_eq h
  have hsolved : b.gain = 1 → ¬ b.Underway → b.begins = 0 → b.Rounds s' := by
    intro hgain hover hbegins
    rw [if_pos hgain] at hresolved
    rw [if_neg (by omega), List.append_nil] at hrounds
    exact ⟨fun hunder => absurd hunder hover, fun _ _ => hresolved.trans hrounds.symm⟩
  have hgoes : a.Underway → b.gain = 0 → b.begins = 0 → b.Underway → b.Rounds s' := by
    intro ha hgain hbegins hb
    rw [if_neg (by omega)] at hresolved
    rw [if_neg (by omega), List.append_nil] at hrounds
    obtain ⟨m, hm, hsame⟩ := hr.1 ha
    exact ⟨fun _ => ⟨m, by rw [hrounds, hresolved, hm], hsame.trans (hfigures hgain).symm⟩,
      fun hover => absurd hb hover⟩
  have hrests : ¬ a.Underway → (∀ outcome, a ≠ .ended outcome) → b.gain = 0 → b.begins = 0 →
      ¬ b.Underway → b.Rounds s' := by
    intro ha hgoing hgain hbegins hb
    rw [if_neg (by omega)] at hresolved
    rw [if_neg (by omega), List.append_nil] at hrounds
    exact ⟨fun hunder => absurd hunder hb, fun _ _ => by rw [hresolved, hrounds, hr.2 ha hgoing]⟩
  cases hstep with
  | solveGradient | solveFull | fallBack | solveAggregated | solveSwitching | solveWarm =>
    exact hsolved rfl id rfl
  | beginRound =>
    have hresolved : _ = resolvedRounds s.journal.toList := hresolved
    have hrounds : _ = roundsOf s.journal.toList ++ [s.toMoment] := hrounds
    rw [← hr.2 id nofun, ← hresolved] at hrounds
    exact ⟨fun _ => ⟨_, hrounds, (hfigures rfl).symm⟩, fun hover => absurd trivial hover⟩
  | testFull | goOn | aggregate | omitAggregation | sampleFull | omitFull | testShort | omitShort
  | sampleShort | augment => exact hgoes trivial rfl rfl trivial
  | testGradient | rejectGradient | omitGradient | enterLoop | markSwitch | restart =>
    exact hrests id nofun rfl rfl id
  | nextRound => exact hrests id nofun rfl rfl id
  | _ => exact ⟨False.elim, fun _ hgoing => absurd rfl (hgoing _)⟩

/-- At each stage the journal tells of the rounds that the stage stands for. -/
theorem Reached.rounds (hinv : Inv setting .ready start.toMoment) (hempty : start.journal = #[])
    (h : Reached setting start b s) : b.Rounds s := by
  induction h with
  | start =>
    refine ⟨False.elim, fun _ _ => ?_⟩
    rw [hempty]
    rfl
  | step hreached hstep ih => exact ih.step (hreached.inv hinv) hstep

end Steps

/-! ## Lines -/

/-- Everything that a report has been given, in order. -/
def Report.everything {ι : Type} (r : Report ι) : List ι :=
  r.lines.toList ++ r.pending.toList.map Prod.snd

/-- The size of a report is the number of lines that it has been given. -/
theorem Report.length_everything {ι : Type} (r : Report ι) : r.everything.length = r.size := by
  unfold everything size
  rw [List.length_append, List.length_map, Array.length_toList, Array.length_toList]

/-- The lines of rounds whose steps were rejected, one after another, in a report with so many
lines before. -/
def Setting.linesOf (setting : Setting α) :
    Nat → List (Moment α) → List (LineKind × ProgressLine α)
  | _, [] => []
  | lines, m :: rounds =>
    setting.roundLines lines m ++
      setting.linesOf (lines + (setting.roundLines lines m).length) rounds

/-- The lines of more rounds follow those of the first ones. -/
theorem Setting.linesOf_append (setting : Setting α) (lines : Nat) (rounds more : List (Moment α)) :
    setting.linesOf lines (rounds ++ more) = setting.linesOf lines rounds ++
      setting.linesOf (lines + (setting.linesOf lines rounds).length) more := by
  induction rounds generalizing lines with
  | nil => rfl
  | cons m rounds ih =>
    rw [List.cons_append, linesOf, linesOf, ih, List.length_append, ← Nat.add_assoc,
      List.append_assoc]

/-- Only the figures of a round show in its lines. -/
theorem Setting.roundLines_congr (setting : Setting α) (lines : Nat) {m m' : Moment α}
    (h : m'.figures = m.figures) : setting.roundLines lines m' = setting.roundLines lines m := by
  unfold roundLines
  rw [h]

/-- All lines of rounds are lines of inner iterations. -/
theorem Setting.kind_of_mem_linesOf {setting : Setting α} {lines : Nat}
    {rounds : List (Moment α)} :
    ∀ line ∈ setting.linesOf lines rounds, line.1 = .innerIteration := by
  induction rounds generalizing lines with
  | nil => exact fun line hline => absurd hline List.not_mem_nil
  | cons m rounds ih =>
    refine List.forall_mem_append.mpr ⟨List.forall_mem_cons.mpr ⟨rfl, ?_⟩, ih⟩
    split
    · exact fun line hline => absurd hline List.not_mem_nil
    · exact List.forall_mem_singleton.mpr rfl

/-- The notices of report lines, those that are still to come at the end. -/
def SearchState.announced (s : SearchState α) : List (Notice α) :=
  s.workspace.heard Notice.isReported ++ s.engine.report.pending.toList.map Notice.ofLine

/-- These lines and no others have been given to the report. -/
structure Prints (s s' : SearchState α) (lines : List (LineKind × ProgressLine α)) : Prop where
  everything_eq : s'.engine.report.everything = s.engine.report.everything ++ lines.map Prod.snd
  announced_eq : s'.announced = s.announced ++ lines.map Notice.ofLine

namespace Prints

variable {s s' s'' : SearchState α} {lines more : List (LineKind × ProgressLine α)}

/-- So the report has grown by as many lines. -/
theorem size_eq (h : Prints s s' lines) :
    s'.engine.report.size = s.engine.report.size + lines.length := by
  rw [← Report.length_everything, h.everything_eq, List.length_append, List.length_map,
    Report.length_everything]

/-- What is printed follows what was printed before. -/
theorem trans (h : Prints s s' lines) (h' : Prints s' s'' more) : Prints s s'' (lines ++ more) where
  everything_eq := by
    rw [h'.everything_eq, h.everything_eq, List.map_append, List.append_assoc]
  announced_eq := by rw [h'.announced_eq, h.announced_eq, List.map_append, List.append_assoc]

/-- Lines are added to those that wait. -/
theorem of_added (hlines : s'.engine.report.lines = s.engine.report.lines)
    (hpending : s'.engine.report.pending.toList = s.engine.report.pending.toList ++ lines)
    (htold : s'.workspace.heard Notice.isReported = s.workspace.heard Notice.isReported) :
    Prints s s' lines := by
  constructor
  · rw [Report.everything, Report.everything, hlines, hpending, List.map_append,
      List.append_assoc]
  · rw [SearchState.announced, SearchState.announced, htold, hpending, List.map_append,
      List.append_assoc]

/-- Lines that wait are emitted. -/
theorem of_flushed (hreport : s'.engine.report = s.engine.report.flush.1)
    (htold : s'.workspace.heard Notice.isReported = s.workspace.heard Notice.isReported ++
      s.engine.report.pending.toList.map Notice.ofLine) : Prints s s' [] := by
  constructor
  · rw [hreport]
    simp [Report.everything, Report.flush]
  · simp [SearchState.announced, htold, hreport, Report.flush]

end Prints

/-- The lines that a step to this stage buffers. -/
def Stage.lines (setting : Setting α) (s : SearchState α) : Stage α →
    List (LineKind × ProgressLine α)
  | .augmented _ _ => setting.roundLines s.engine.report.size s.toMoment
  | _ => []

/-- The rounds that have been reported at a stage. -/
def Stage.reportedRounds (events : List (Event α)) : Stage α → List (Moment α)
  | .augmented _ _ => roundsOf events
  | _ => resolvedRounds events

section Lines

variable {setting : Setting α} {a b : Stage α} {s s' start : SearchState α}

/-- What a round reports waits for the next flush. -/
theorem prints_reportRound (hr : Search.reportRound setting s = .ok () s') :
    Prints s s' (setting.roundLines s.engine.report.size s.toMoment) := by
  rw [Search.reportRound_run] at hr
  cases hr
  exact .of_added rfl Array.toList_appendList rfl

/-- What every step prints. -/
theorem Step.prints (hstep : Step setting a s b s') : Prints s s' (b.lines setting s) := by
  have hspeaks := hstep.speaks
  by_cases hb : b.Reports
  · cases hstep with
    | @beginRound _ _ _ first evaluated hflush hevaluate =>
      have hbegun : Step setting (.round first) s (.begun first evaluated) s' :=
        .beginRound hflush hevaluate
      have hspeech := speech_begun hbegun
      refine .of_flushed (congrArg Prod.fst hspeech) ?_
      have htold : s'.workspace.told = _ := congrArg Prod.snd hspeech
      rw [Workspace.heard_isReported, Workspace.heard_isReported, htold, List.filter_append,
        filter_isReported_ofLine]
    | @augment _ _ aggregating added hr =>
      have hfigures : (s.withEngine (·.augmented aggregating added)).figures = s.figures :=
        Moment.figures_congr (solver_withEngine _ rfl) rfl rfl
      have hprints := prints_reportRound hr
      rw [setting.roundLines_congr _ hfigures] at hprints
      exact ⟨hprints.everything_eq, hprints.announced_eq⟩
    | _ => exact hb.elim
  · obtain ⟨new, htold, hsaid⟩ := hspeaks.told
    have hreport := hspeaks.report_eq hb
    have hlines : b.lines setting s = [] := by
      cases b <;> first | rfl | exact absurd trivial hb
    have hnone : new.filter Notice.isReported = [] := by
      refine List.filter_eq_nil_iff.mpr fun n hn hreported => hb ?_
      have hn := hsaid n hn
      cases n with
      | reported =>
        obtain ⟨first, rfl⟩ := hn
        cases hstep
        trivial
      | _ => cases hreported
    rw [hlines]
    refine .of_added (by rw [hreport]) (by rw [hreport, List.append_nil]) ?_
    rw [Workspace.heard_isReported, Workspace.heard_isReported, htold, List.filter_append, hnone,
      List.append_nil]

/-- The rounds that a step reports are those that are reported afterwards and were not so
before. -/
theorem Step.linesOf_reportedRounds (hstep : Step setting a s b s') (hr : a.Rounds s)
    (h : Inv setting a s.toMoment) {lines : Nat} (hlines : s.engine.report.size =
      lines + (setting.linesOf lines (a.reportedRounds s.journal.toList)).length) :
    setting.linesOf lines (b.reportedRounds s'.journal.toList) =
      setting.linesOf lines (a.reportedRounds s.journal.toList) ++ b.lines setting s := by
  have hresolved := hstep.resolvedRounds_eq h
  have hrounds := hstep.roundsOf_eq h
  have hsilent : b.reportedRounds s'.journal.toList = a.reportedRounds s.journal.toList →
      b.lines setting s = [] → setting.linesOf lines (b.reportedRounds s'.journal.toList) =
        setting.linesOf lines (a.reportedRounds s.journal.toList) ++ b.lines setting s :=
    fun hsame hnone => by rw [hsame, hnone, List.append_nil]
  cases hstep with
  | augment =>
    obtain ⟨m, hm, hfigures⟩ := hr.1 trivial
    have hrounds : roundsOf s'.journal.toList = roundsOf s.journal.toList ++ [] := hrounds
    have hlines : s.engine.report.size =
      lines + (setting.linesOf lines (resolvedRounds s.journal.toList)).length := hlines
    change setting.linesOf lines (roundsOf s'.journal.toList) =
      setting.linesOf lines (resolvedRounds s.journal.toList) ++
        setting.roundLines s.engine.report.size s.toMoment
    rw [hrounds, List.append_nil, hm, setting.linesOf_append, ← hlines, Setting.linesOf,
      Setting.linesOf, List.append_nil, setting.roundLines_congr _ hfigures]
  | solveGradient | solveFull | fallBack =>
    rw [← hr.2 id nofun] at hresolved
    exact hsilent hresolved rfl
  | _ => exact hsilent hresolved rfl

/-- So a search has printed the lines of the rounds that are reported, in order. -/
theorem Reached.prints (hinv : Inv setting .ready start.toMoment) (hempty : start.journal = #[])
    (h : Reached setting start b s) :
    Prints start s (setting.linesOf start.engine.report.size
      (b.reportedRounds s.journal.toList)) := by
  induction h with
  | start =>
    rw [hempty]
    exact .of_added rfl (List.append_nil _).symm rfl
  | step hreached hstep ih =>
    rw [hstep.linesOf_reportedRounds (hreached.rounds hinv hempty) (hreached.inv hinv) ih.size_eq]
    exact ih.trans hstep.prints

/-- A round that the journal tells of began in a state with the journal up to there. -/
theorem Reached.round_of_split (hinv : Inv setting .ready start.toMoment)
    (hempty : start.journal = #[]) (h : Reached setting start b s) {before after : List (Event α)}
    {m : Moment α} (hsplit : s.journal.toList = before ++ .roundBegan m :: after) :
    ∃ first t, Reached setting start (.round first) t ∧ t.toMoment = m ∧
      t.journal.toList = before := by
  obtain ⟨a, c, t, u, hwriting, _⟩ := h.of_split hinv hempty rfl hsplit
  obtain ⟨ht, first, _, rfl, _⟩ := hwriting.of_roundBegan
  exact ⟨first, t, hwriting.reached, ht, hwriting.journal_eq_before (fun _ h => by cases h)⟩

end Lines

/-! ## Calls -/

/-- The lines of a call: those of the rounds whose step was rejected, and the summary. -/
def callLines (setting : Setting α) (entry s : SearchState α) :
    List (LineKind × ProgressLine α) :=
  setting.linesOf entry.engine.report.size (resolvedRounds s.journal.toList) ++
    [(.iteration, .summary s.figures)]

/-- The figures of a round show how many solves there were and of how many planes the last
of them was. -/
structure Moment.ShowsLast (m : Moment α) (events : List (Event α)) : Prop where
  innerIterations_eq : m.figures.innerIterations = (solvesOf events).length
  cuts_eq : ∃ last, (solvesOf events).getLast? = some last ∧ m.figures.cuts = last.solver.cuts

/-- The report describes the call that has led from one state to another. -/
structure Reported (setting : Setting α) (entry s : SearchState α) : Prop where
  pending_eq : s.engine.report.pending = #[]
  lines_eq : s.engine.report.lines.toList = entry.engine.report.lines.toList ++
    (entry.engine.report.pending.toList ++ callLines setting entry s).map Prod.snd
  /-- Each line is told of once, with its kind. -/
  told_eq : s.workspace.heard Notice.isReported = entry.workspace.heard Notice.isReported ++
    (entry.engine.report.pending.toList ++ callLines setting entry s).map Notice.ofLine
  rounds : ∀ before m after, s.journal.toList = before ++ .roundBegan m :: after →
    m.ShowsLast before
  innerIterations_eq : s.figures.innerIterations = (solvesOf s.journal.toList).length
  minimizerIterations_eq : s.figures.minimizerIterations = Search.minimizerWork s.journal
  cuts_eq : solvesOf s.journal.toList ≠ [] ∨ entry.engine.solver = none →
    s.figures.cuts = s.engine.activeCuts.length
  /-- Without a solve the summary shows the planes that the solver had at entry. -/
  unsolved : solvesOf s.journal.toList = [] →
    s.engine.activeCuts = [] ∧ s.figures.cuts = entry.solver.cuts

section Call

variable {setting : Setting α} {entry start s s' : SearchState α} {outcome : Outcome}
  {clockStart : α}

/-- The account prints the summary and lets nothing wait. -/
theorem prints_account (h : Search.account setting clockStart outcome s = .ok () s') :
    Prints s s' [(.iteration, .summary s.figures)] ∧ s'.engine.report.pending = #[] := by
  have htold := Search.told_account h
  have hreport : s'.engine.report =
      (s.engine.report.add .iteration (.summary s.figures)).flush.1 := by
    cases h
    rfl
  refine ⟨⟨?_, ?_⟩, by rw [hreport]; rfl⟩
  · simp [hreport, Report.everything, Report.flush, Report.add]
  · have hend : ([.finished outcome s.workspace.innerIterations s.workspace.minimizerIterations
        s.engine.solves s.workspace.bundle.size] : List (Notice α)).filter Notice.isReported =
        [] := rfl
    rw [SearchState.announced, Workspace.heard_isReported, htold, List.filter_append,
      List.filter_append, filter_isReported_ofLine, hend, hreport]
    simp [SearchState.announced, Workspace.heard_isReported, Report.flush, Moment.figures]

/-- What was printed before the account, and the summary, are the lines of the call. -/
theorem prints_callLines (h : Prints entry s (setting.linesOf entry.engine.report.size
    (resolvedRounds s.journal.toList))) (hcloses : Closes s s')
    (haccount : Search.account setting clockStart outcome s = .ok () s') :
    Prints entry s' (callLines setting entry s') ∧ s'.engine.report.pending = #[] := by
  obtain ⟨hsummary, hpending⟩ := prints_account haccount
  have hquiet := hcloses.quiet setting.oracle
  unfold callLines
  rw [hquiet.journal_eq, hquiet.toKeeps.figures_eq]
  exact ⟨h.trans hsummary, hpending⟩

/-- If nothing waits, all lines have been emitted. -/
theorem Prints.emitted {lines : List (LineKind × ProgressLine α)} (h : Prints entry s lines)
    (hpending : s.engine.report.pending = #[]) :
    s.engine.report.lines.toList = entry.engine.report.lines.toList ++
        (entry.engine.report.pending.toList ++ lines).map Prod.snd ∧
      s.workspace.heard Notice.isReported = entry.workspace.heard Notice.isReported ++
        (entry.engine.report.pending.toList ++ lines).map Notice.ofLine := by
  obtain ⟨heverything, hannounced⟩ := h
  unfold Report.everything at heverything
  unfold SearchState.announced at hannounced
  rw [hpending] at heverything hannounced
  simpa using And.intro heverything hannounced

/-- Before the first solve the report is as at entry. -/
theorem Clear.prints (h : Clear entry s) : Prints entry s [] := by
  have hreport : s.engine.report = entry.engine.report := congrArg Prod.fst h.speech_eq
  have htold : s.workspace.told = entry.workspace.told := congrArg Prod.snd h.speech_eq
  refine .of_added (by rw [hreport]) (by rw [hreport, List.append_nil]) ?_
  rw [Workspace.heard_isReported, Workspace.heard_isReported, htold]

/-- A round shows the last solve before it. -/
theorem Opens.showsLast (hopens : Opens setting entry start) {b : Stage α}
    (h : Reached setting start b s) {before after : List (Event α)} {m : Moment α}
    (hsplit : s.journal.toList = before ++ .roundBegan m :: after) : m.ShowsLast before := by
  obtain ⟨first, t, hreached, rfl, rfl⟩ := h.round_of_split hopens.inv hopens.journal_eq hsplit
  obtain ⟨last, hlast, hsolver⟩ := hreached.solver_of_last hopens.inv id
  have hcount := (hreached.solves_le hopens.inv hopens.solves_eq).1
  have hlength := hreached.length_solvesOf hopens.inv hopens.journal_eq hopens.solves_eq
  refine ⟨?_, last, hlast, congrArg Solver.cuts hsolver.symm⟩
  rw [hlength]
  exact hcount

/-- A search that has ended and was accounted for is reported. -/
theorem Opens.reported (hopens : Opens setting entry start) (hclear : Clear entry start)
    (h : Reached setting start (.ended outcome) s) (hcloses : Closes s s')
    (haccount : Search.account setting clockStart outcome s = .ok () s') :
    Reported setting entry s' := by
  have hquiet := hcloses.quiet setting.oracle
  have hsize : start.engine.report.size = entry.engine.report.size := hclear.prints.size_eq
  have hsearch : Prints entry s (setting.linesOf entry.engine.report.size
      (resolvedRounds s.journal.toList)) :=
    hsize ▸ hclear.prints.trans (h.prints hopens.inv hopens.journal_eq)
  obtain ⟨hprints, hpending⟩ := prints_callLines hsearch hcloses haccount
  obtain ⟨hlines, htold⟩ := hprints.emitted hpending
  obtain ⟨last, hlast, _⟩ := h.solver_of_last hopens.inv id
  have hbudget := (h.withinBudget hopens).closes hcloses
  have hcall : Search.minimizerWork s'.journal = s'.workspace.minimizerIterations := by
    have huntold : s'.untold = 0 :=
      (Gains.of_quiet hquiet).untold_eq.trans ((h.untold_eq hopens.inv).trans hclear.untold_eq)
    exact (sub_eq_zero.mp huntold).symm
  have haligned : s.Aligned := (h.inv hopens.inv).holds
  have hsolved : solvesOf s'.journal.toList ≠ [] := by
    rw [hquiet.journal_eq]
    rintro hnone
    rw [hnone] at hlast
    cases hlast
  refine ⟨hpending, hlines, htold, fun before m after hsplit => ?_, ?_, hcall.symm, fun _ => ?_,
    fun hnone => absurd hnone hsolved⟩
  · rw [hquiet.journal_eq] at hsplit
    exact hopens.showsLast h hsplit
  · rw [hbudget.length_solvesOf]
    exact hbudget.iterations_eq
  · change s'.solver.cuts = _
    rw [hquiet.toKeeps.activeCuts_eq, hquiet.toKeeps.solver_eq']
    exact haligned.denote.length_eq.symm

/-- A call that could not evaluate the current point is reported too. -/
theorem Fresh.reported (hfresh : Fresh entry s) (hclear : Clear entry s) (hcloses : Closes s s')
    (haccount : Search.account setting clockStart outcome s = .ok () s') :
    Reported setting entry s' := by
  have hquiet := hcloses.quiet setting.oracle
  have hjournal : s'.journal = #[] := hquiet.journal_eq.trans hfresh.journal_eq
  have hprinted : Prints entry s (setting.linesOf entry.engine.report.size
      (resolvedRounds s.journal.toList)) := by
    rw [hfresh.journal_eq]
    exact hclear.prints
  obtain ⟨hprints, hpending⟩ := prints_callLines hprinted hcloses haccount
  obtain ⟨hlines, htold⟩ := hprints.emitted hpending
  have hactive : s'.engine.activeCuts = [] := by
    rw [hquiet.toKeeps.activeCuts_eq, Engine.activeCuts, hfresh.active_eq]
  have hcuts : s'.solver.cuts = entry.solver.cuts :=
    (congrArg Solver.cuts hquiet.toKeeps.solver_eq').trans hclear.cuts_eq
  refine ⟨hpending, hlines, htold, fun before m after hsplit => ?_, ?_, ?_, fun hcase => ?_,
    fun _ => ⟨hactive, hcuts⟩⟩
  · rw [hjournal] at hsplit
    exact absurd hsplit.symm (List.append_ne_nil_of_right_ne_nil _ (List.cons_ne_nil _ _))
  · rw [hjournal]
    exact hquiet.innerIterations_eq.trans hfresh.innerIterations_eq
  · have huntold : s'.untold = 0 := (Gains.of_quiet hquiet).untold_eq.trans hclear.untold_eq
    exact sub_eq_zero.mp huntold
  · rcases hcase with hsolved | hnone
    · rw [hjournal] at hsolved
      exact absurd rfl hsolved
    · rw [hactive]
      refine hcuts.trans ?_
      unfold Moment.solver Engine.solverFor
      rw [hnone]
      rfl

/-- Every call that comes to its end, possibly at the time limit, is reported: nothing waits;
the lines that waited before, those of the rounds whose step was rejected and the summary
were emitted in this order, each once; a round shows how many solves there were and the
size of the last; the summary shows the number of solves, the iterations of the minimizer
and, if there was a solve or the engine was new, the number of active cuts. A call without a
solve on an engine with a solver shows the planes that were left there, and has no active
cuts. -/
theorem report_describes_call {c : Call α} (hw : c.entry.workspace.WellFormed c.setting.oracle)
    (hcompleted : c.Completed) : Reported c.setting c.entry c.final := by
  have hcall := Call.cases hw
  unfold Call.final
  unfold Call.Completed at hcompleted
  generalize c.result = result at hcall hcompleted ⊢
  cases hcall with
  | unevaluated hfresh hcloses _ _ haccount hclear =>
    exact hfresh.reported hclear hcloses haccount
  | ended hopens hreached hcloses _ _ haccount hclear =>
    exact hopens.reported hclear hreached hcloses haccount
  | timeUp hopens hreached hcloses _ haccount hclear =>
    exact hopens.reported hclear hreached hcloses haccount
  | overflowed => cases hcompleted _ _ rfl

end Call

/-! ## The log

Over the doubles a line has a text, and what is told of it goes to the log with its level.
-/

/-- What goes to the log for a notice. -/
def Notice.logEntry (n : Notice Float) : Level × String := (n.level, n.message)

/-- What goes to the log for a line of a kind. -/
def LineKind.logEntry (line : LineKind × ProgressLine Float) : Level × String :=
  (line.1.level, line.2.render)

/-- A count is shown by its digits, filled up from the left to the width of its column. -/
theorem Template.showWhole_natCast (width n : Nat) :
    Template.showWhole { width } (n : Int) =
      "".pushn ' ' (width - (toString n).length) ++ toString n := by
  have hnone : "".pushn '0' 0 = "" := rfl
  simp [showWhole, layOutNumber, Decimal.digitsPadded, pad, hnone,
    Int.not_lt.mpr (Int.natCast_nonneg n)]

/-- What a reported call leaves in the log. -/
structure Logged (setting : Setting Float) (entry s : SearchState Float) : Prop where
  /-- The lines that waited before and then those of the call, each once and in order, with its
  text and the level of its kind. -/
  entries_eq : (s.workspace.heard Notice.isReported).map Notice.logEntry =
    (entry.workspace.heard Notice.isReported).map Notice.logEntry ++
      (entry.engine.report.pending.toList ++ callLines setting entry s).map LineKind.logEntry
  /-- The lines of rounds are details. -/
  rounds_level : ∀ line ∈
    setting.linesOf entry.engine.report.size (resolvedRounds s.journal.toList),
      (LineKind.logEntry line).1 = .debug
  /-- The line that comes last tells of progress. -/
  last_eq : ((s.workspace.heard Notice.isReported).map Notice.logEntry).getLast? =
    some (.info, s.figures.render)
  /-- Its first three columns are the numbers of solves and of active cuts and the iterations
  of the minimizer. -/
  columns_eq : solvesOf s.journal.toList ≠ [] ∨ entry.engine.solver = none →
    s.figures.columns.take 3 =
      [((solvesOf s.journal.toList).length : Int), (s.engine.activeCuts.length : Int),
        Search.minimizerWork s.journal].map (Template.showWhole { width := 8 })

/-- The log describes the call as the report does. -/
theorem Reported.logged {setting : Setting Float} {entry s : SearchState Float}
    (h : Reported setting entry s) : Logged setting entry s where
  entries_eq := by
    rw [h.told_eq, List.map_append, List.map_map]
    rfl
  rounds_level line hline := congrArg LineKind.level (Setting.kind_of_mem_linesOf line hline)
  last_eq := by
    rw [h.told_eq, callLines, ← List.append_assoc, List.map_append (f := Notice.ofLine),
      ← List.append_assoc, List.map_append]
    exact List.getLast?_concat
  columns_eq hsolved := by
    rw [← h.innerIterations_eq, ← h.minimizerIterations_eq, ← h.cuts_eq hsolved]
    rfl

/-- The valley with a cliff: beyond one there is no value. -/
def cliff : Oracle ℚ where
  dimension := 1
  positive := Nat.one_pos
  value
    | [x] => if x ≤ 1 then .ok |x| else .error .refused
    | _ => .error .refused
  gradient := valley.gradient
  differences := valley.differences

/-- A call that rejects the step of its first round and ends at the limit in the second. -/
def rejectingCall : Call ℚ where
  setting :=
    { oracle := cliff
      options := { iterationLimit := 1, addFarPoints := true, tryGradientStep := false,
                   tryShortenedStep := false }
      rule := { RadiusRule.never with blank := "-" }
      clock n := n
      minimizer _ _ := ⟨[1 / 2, 1 / 2], 0, 3, ""⟩ }
  entry := { workspace := onSlope, engine := {} }

/-- The next one, for which the current point was moved beyond the cliff. -/
def cliffCall : Call ℚ where
  setting := rejectingCall.setting
  entry :=
    let w := rejectingCall.final.workspace
    { rejectingCall.final with workspace :=
      { w.withSamples [{ position := [2] }] false with current := w.samples.size } }

/-- The call that is rejected starts well formed. -/
theorem wellFormed_rejectingCall :
    rejectingCall.entry.workspace.WellFormed rejectingCall.setting.oracle :=
  Workspace.wellFormed_create create_onSlope

/-- The call at the cliff starts well formed. -/
theorem wellFormed_cliffCall : cliffCall.entry.workspace.WellFormed cliffCall.setting.oracle := by
  have hfinal : rejectingCall.final.workspace.WellFormed cliff :=
    Call.wellFormed_final wellFormed_rejectingCall
  have hmoved : (rejectingCall.final.workspace.withSamples [{ position := [2] }] false).WellFormed
      cliff := by
    refine hfinal.withSamples (fun s hs => ?_) false
    obtain rfl := List.mem_singleton.mp hs
    exact ⟨hfinal.dimension_eq, .inl rfl, .inl rfl⟩
  exact { hmoved with current_lt := by simp [cliffCall, Workspace.withSamples] }

/-- The first call prints the figures of a round, a blank line and a summary. The summary of
the second, which makes no solve, shows the planes of the first. -/
theorem report_describes_call_beyond_cliff :
    (Reported rejectingCall.setting rejectingCall.entry rejectingCall.final ∧
      Reported cliffCall.setting cliffCall.entry cliffCall.final) ∧
      rejectingCall.final.engine.report.lines.size = 3 ∧
      rejectingCall.final.figures.cuts = 2 ∧ rejectingCall.final.engine.activeCuts.length = 2 ∧
      cliffCall.final.engine.report.lines.size = 4 ∧ cliffCall.solves.length = 0 ∧
      cliffCall.final.figures.cuts = 2 ∧ cliffCall.final.engine.activeCuts.length = 0 := by
  have hcompleted : ∀ call ∈ [rejectingCall, cliffCall], call.Completed := by
    refine Call.completed_of_all ?_
    decide +kernel
  obtain ⟨hrejecting, hcliff⟩ := List.forall_mem_cons.mp hcompleted
  refine ⟨⟨report_describes_call wellFormed_rejectingCall hrejecting,
    report_describes_call wellFormed_cliffCall (List.forall_mem_singleton.mp hcliff)⟩, ?_⟩
  decide +kernel

end NonsmoothDescent
