import NonsmoothDescent.Proofs.Search.Advance
import NonsmoothDescent.Proofs.Search.Frame

/-!
# What a search tells

Most notices come of evaluations and of solves. The others a search makes itself, each at
a step of its own: that the cuts were collected, that cuts were aggregated and with which
weights, that the cut at the current point takes the place of a solve that failed, that
this solve failed too, that aggregation ends, that the radii were updated, that the
gradient step or the shortened step is acceptable, and the report lines that are emitted
when a round begins. The report itself changes only there and where a round is reported.
-/

namespace NonsmoothDescent

/-- The notice tells what was made of a solve. -/
def Notice.isConsequence {α : Type} : Notice α → Bool
  | .aggregated _ _ _ | .fallingBack _ | .fallbackFailed _ => true
  | _ => false

/-- The notice tells what a search does, not what comes of an evaluation or of a solve. -/
def Notice.isOwn {α : Type} : Notice α → Bool
  | .objectiveFault _ | .objectiveNotFinite _ | .gradientFault _ | .gradientInvalid _
  | .currentNotEvaluated | .firstTrialNotEvaluated
  | .unsolvable _ _ | .minimizerFailed _ | .pointAccepted _ _ => false
  | _ => true

variable {α : Type}

/-- The notice that a report line was emitted. -/
def Notice.ofLine (entry : LineKind × ProgressLine α) : Notice α := .reported entry.1 entry.2

/-- None of the notices is a search's own. -/
def Foreign (notices : List (Notice α)) : Prop := ∀ n ∈ notices, n.isOwn = false

/-- What the notices tell of the use of solves, in order. -/
def Workspace.consequences (w : Workspace α) : List (Notice α) :=
  w.notices.toList.filter Notice.isConsequence

/-- The notices of some kinds, in order. -/
def Workspace.heard (p : Notice α → Bool) (w : Workspace α) : List (Notice α) :=
  w.notices.toList.filter p

/-- What searches have told, in order. -/
def Workspace.told (w : Workspace α) : List (Notice α) := w.heard Notice.isOwn

/-- What tells of the use of a solve is a search's own. -/
theorem Notice.isOwn_of_isConsequence (n : Notice α) (h : n.isConsequence = true) :
    n.isOwn = true := by
  cases n <;> first | rfl | cases h

/-- No notice is a search's own where there are none. -/
theorem Foreign.nil : Foreign ([] : List (Notice α)) := fun _ hn => absurd hn List.not_mem_nil

/-- A notice that is not a search's own is foreign by itself. -/
theorem Foreign.singleton {n : Notice α} (h : n.isOwn = false) : Foreign [n] :=
  List.forall_mem_singleton.mpr h

namespace Workspace

/-- The notices of kinds that are a search's own are among what searches have told. -/
theorem heard_eq {p : Notice α → Bool} (hp : ∀ n, p n = true → n.isOwn = true)
    (w : Workspace α) : w.heard p = w.told.filter p := by
  rw [told, heard, heard, List.filter_filter]
  refine List.filter_congr fun n _ => ?_
  cases h : p n with
  | false => rfl
  | true => exact (hp n h).symm

/-- What is made of solves is told by searches. -/
theorem consequences_eq (w : Workspace α) :
    w.consequences = w.told.filter Notice.isConsequence :=
  heard_eq Notice.isOwn_of_isConsequence w

/-- What is told grows by the new notices that are a search's own. -/
theorem told_of_notices {w w' : Workspace α} {new : List (Notice α)}
    (h : w'.notices = w.notices ++ new) : w'.told = w.told ++ new.filter Notice.isOwn := by
  rw [told, heard, h, Array.toList_appendList, List.filter_append]
  rfl

/-- A notice that is a search's own is told. -/
theorem told_of_own {w w' : Workspace α} {n : Notice α} (h : w'.notices = w.notices ++ [n])
    (hown : n.isOwn = true) : w'.told = w.told ++ [n] := by
  rw [told_of_notices h, List.filter_singleton, hown, cond_true]

/-- Report lines are told as they are emitted. -/
theorem told_of_lines {w w' : Workspace α} {entries : List (LineKind × ProgressLine α)}
    (h : w'.notices = w.notices ++ entries.map Notice.ofLine) :
    w'.told = w.told ++ entries.map Notice.ofLine := by
  have hown : (entries.map Notice.ofLine).filter Notice.isOwn = entries.map Notice.ofLine := by
    refine List.filter_eq_self.mpr fun n hn => ?_
    obtain ⟨_, _, rfl⟩ := List.mem_map.mp hn
    rfl
  rw [told_of_notices h, hown]

/-- Foreign notices tell nothing. -/
theorem told_of_foreign {w w' : Workspace α} {new : List (Notice α)}
    (h : w'.notices = w.notices ++ new) (hnew : Foreign new) : w'.told = w.told := by
  have hnone : new.filter Notice.isOwn = [] :=
    List.filter_eq_nil_iff.mpr fun n hn => by simp [hnew n hn]
  rw [told_of_notices h, hnone, List.append_nil]

variable [Scalar α]

/-- The notices of an objective are foreign. -/
theorem foreign_evaluateObjective (o : Oracle α) (s : Sample α) :
    Foreign (s.evaluateObjective o).2 := by
  unfold Sample.evaluateObjective Oracle.evaluateObjective
  split
  · dsimp only
    split
    · exact .singleton rfl
    · split
      · exact .nil
      · exact .singleton rfl
  · exact .nil

/-- The notices of a gradient are foreign. -/
theorem foreign_evaluateGradient (o : Oracle α) (s : Sample α) :
    Foreign (s.evaluateGradient o).2 := by
  unfold Sample.evaluateGradient Oracle.evaluateGradient
  split
  · dsimp only
    split
    · exact .singleton rfl
    · split
      · exact .nil
      · exact .singleton rfl
  · exact .nil

/-- Searches tell nothing while they sample. -/
theorem along_told (o : Oracle α) : AlongSampling o (SamePart told) where
  objective id w := told_of_foreign rfl (foreign_evaluateObjective o (w.sampleAt id))
  gradient id w := told_of_foreign rfl (foreign_evaluateGradient o (w.sampleAt id))
  sample _ _ _ _ := rfl
  trial _ _ := rfl
  bundle _ _ := rfl

end Workspace

/-- What the notices of a state tell of the use of solves. -/
def SearchState.consequences [Scalar α] (s : SearchState α) : List (Notice α) :=
  s.workspace.consequences

/-- The report and what has been told. -/
def SearchState.speech [Scalar α] (s : SearchState α) :
    Report (ProgressLine α) × List (Notice α) :=
  (s.engine.report, s.workspace.told)

/-- With the same speech the same is told of the use of solves. -/
theorem SearchState.consequences_of_speech [Scalar α] {s s' : SearchState α}
    (h : s'.speech = s.speech) : s'.consequences = s.consequences := by
  have htold : s'.workspace.told = s.workspace.told := congrArg Prod.snd h
  unfold consequences
  rw [Workspace.consequences_eq, Workspace.consequences_eq, htold]

/-- The same has been told, and the report is the same. -/
theorem Linked.speech_eq [Scalar α] {s s' : SearchState α}
    (h : Linked (SamePart Workspace.told) Engine.report s s') : s'.speech = s.speech :=
  Prod.ext h.engine h.workspace

/-- Notices that are not a search's own tell nothing. -/
theorem Search.speech_of_note [Scalar α] {notices : List (Notice α)} {s s' : SearchState α}
    (h : Foreign notices) (hr : note notices s = .ok () s') : s'.speech = s.speech := by
  cases hr
  exact congrArg (s.engine.report, ·) (Workspace.told_of_foreign rfl h)

/-- Searches tell nothing while they try a step. -/
theorem Search.speech_of_tryStep [Scalar α] {setting : Setting α} {stepsize : α}
    {evaluated : Bool} {s s' : SearchState α}
    (hr : tryStep setting stepsize s = .ok evaluated s') : s'.speech = s.speech :=
  have htold := Workspace.along_told setting.oracle
  (Along.of_ok ((along_onWorkspace (htold.makeTrial _)).bind fun _ =>
    along_onWorkspace htold.evaluateTrial) hr).speech_eq

section Solves

variable [Scalar α]

/-- What the solver notes comes of the solve. -/
theorem Solver.foreign_solveBy (s : Solver α) (warm : Bool) (ask : Request α → Answer α) :
    Foreign (s.solveBy warm ask).notices := by
  have hrun : (s.solveBy warm ask).notices = (s.solveFrom ask (s.startOf warm)).notices := by
    cases warm <;> rfl
  have hjudge : ∀ answer : Answer α, Foreign (s.judge answer).2.2 := by
    intro answer
    have hfailure : Foreign (if claimed answer.exitCode = .numericalFailure then
        [.minimizerFailed answer.message] else [] : List (Notice α)) := by
      split
      · exact .singleton rfl
      · exact .nil
    unfold judge
    dsimp only
    split
    · exact hfailure
    · split
      · exact hfailure
      · split
        · exact List.forall_mem_append.mpr ⟨hfailure, Foreign.singleton rfl⟩
        · exact hfailure
  rw [hrun]
  unfold solveFrom
  split
  · exact .singleton rfl
  · split
    · exact .singleton rfl
    · split
      · exact .nil
      · exact hjudge _

variable (setting : Setting α) (s : SearchState α)

/-- A solve tells nothing by itself. -/
theorem SearchState.speech_solved (warm : Bool) : (s.solved setting warm).speech = s.speech :=
  congrArg (s.engine.report, ·)
    (Workspace.told_of_foreign rfl (Solver.foreign_solveBy _ warm _))

/-- A cold solve on new planes tells nothing by itself. -/
theorem SearchState.speech_resolved (planes : List (Plane α)) (active : ActiveCuts α) :
    (s.resolved setting planes active).speech = s.speech :=
  speech_solved setting (s.on (s.loaded planes active)) false

/-- A warm solve on more planes tells nothing by itself. -/
theorem SearchState.speech_continued (planes : List (Plane α)) :
    (s.continued setting planes).speech = s.speech :=
  speech_solved setting (s.on (s.extended planes)) true

/-- Aggregation notes the cuts and weights that it combines. -/
theorem Cut.notices_of_aggregate {points : PointLookup α} {current : Sample α} {weights : List α}
    {cuts : List (Cut α)} {made : List (Cut α) × List (Notice α)}
    (h : Cut.aggregate points current weights cuts = .ok made) :
    ∃ slope, made.2 = [.aggregated cuts.length weights slope] := by
  unfold aggregate at h
  split at h
  · cases h
  · cases hcombination : combination points current.position.length (weights.zip cuts) with
    | error fault => simp [hcombination, bind, Except.bind] at h
    | ok combined =>
      cases hfirst : atCurrent current with
      | error fault => simp [hcombination, hfirst, bind, Except.bind] at h
      | ok first =>
        simp only [hcombination, hfirst, bind, Except.bind, pure, Except.pure] at h
        cases h
        exact ⟨combined.1, rfl⟩

end Solves

/-- The notice tells what is made of the solve at a stage from which a step goes on. -/
def Notice.Drawn [Scalar α] (setting : Setting α) (a : Stage α) (s : SearchState α) :
    Notice α → Prop
  | .fallingBack status => status = s.solver.status ∧ status ≠ .success ∧
    setting.options.failOnSolverFailure = false
  | .fallbackFailed status => status = s.solver.status ∧ status ≠ .success ∧
    ∃ plane first, a = .solved (.fallback plane first)
  | .aggregated cuts weights _ => cuts = s.engine.aggregatedCuts.length ∧
    weights = s.solver.weights ∧ s.engine.aggregating setting.options = true ∧
    ∃ evaluated, a = .rejected evaluated
  | _ => False

/-- A search may tell this at a step from a stage. -/
def Notice.Said [Scalar α] (setting : Setting α) (a : Stage α) (s : SearchState α)
    (n : Notice α) : Prop :=
  match n with
  | .gradientStepAccepted => a = .gradientTested true
  | .shortenedStepAccepted _ => ∃ aggregating cuts evaluated,
    a = .shortTested aggregating cuts evaluated true
  | .cutSetBuilt _ _ => a = .opened
  | .switchedToFull _ _ => ∃ added, a = .augmented true added
  | .radiiUpdated _ _ => True
  | .reported _ _ => ∃ first, a = .round first
  | n => n.Drawn setting a s

/-- The report is the same, and what has been told since is as described. -/
structure Remarks [Scalar α] (said : Notice α → Prop) (s s' : SearchState α) : Prop where
  report_eq : s'.engine.report = s.engine.report
  told : ∃ new, s'.workspace.told = s.workspace.told ++ new ∧ ∀ n ∈ new, said n

namespace Remarks

variable [Scalar α] {said : Notice α → Prop} {s s' s'' : SearchState α}

/-- With the same speech nothing has been remarked. -/
theorem of_speech (h : s'.speech = s.speech) : Remarks said s s' where
  report_eq := congrArg Prod.fst h
  told := ⟨[], (congrArg Prod.snd h).trans (List.append_nil _).symm,
    fun _ hn => absurd hn List.not_mem_nil⟩

/-- Remarks follow one another. -/
theorem trans (h : Remarks said s s') (h' : Remarks said s' s'') : Remarks said s s'' where
  report_eq := h'.report_eq.trans h.report_eq
  told := by
    obtain ⟨new, hnew, hsaid⟩ := h.told
    obtain ⟨new', hnew', hsaid'⟩ := h'.told
    exact ⟨new ++ new', by rw [hnew', hnew, List.append_assoc],
      List.forall_mem_append.mpr ⟨hsaid, hsaid'⟩⟩

/-- Notices are remarked if they are as described. -/
theorem of_note {notices : List (Notice α)} (hr : Search.note notices s = .ok () s')
    (h : ∀ n ∈ notices, n.isOwn = true → said n) : Remarks said s s' := by
  cases hr
  refine ⟨rfl, _, Workspace.told_of_notices rfl, fun n hn => ?_⟩
  obtain ⟨hmem, hown⟩ := List.mem_filter.mp hn
  exact h n hmem hown

/-- One notice is remarked if it is as described. -/
theorem of_note_single {notice : Notice α} (hr : Search.note [notice] s = .ok () s')
    (h : said notice) : Remarks said s s' :=
  of_note hr fun _ hn _ => List.mem_singleton.mp hn ▸ h

/-- The rule tells only that the radii were updated. -/
theorem of_tested (setting : Setting α) (evaluated : Bool) (s : SearchState α)
    (h : ∀ norm radius, said (.radiiUpdated norm radius)) :
    Remarks said s (s.tested setting evaluated) := by
  by_cases hfired : (s.asked setting).engine.ruleRecord.fired = true
  · have hnotices : (s.asked setting).workspace.notices = s.workspace.notices ++ [_] :=
      if_pos hfired
    exact ⟨rfl, _, Workspace.told_of_own hnotices rfl, List.forall_mem_singleton.mpr (h _ _)⟩
  · have hnotices : (s.asked setting).workspace.notices = s.workspace.notices := if_neg hfired
    have htold : (s.asked setting).workspace.told = s.workspace.told :=
      congrArg (fun notices => notices.toList.filter Notice.isOwn) hnotices
    exact of_speech (congrArg (s.engine.report, ·) htold)

end Remarks

/-- Aggregation tells of the weights and leaves the report alone. -/
theorem Search.remarks_of_aggregate [Scalar α] {s s' : SearchState α}
    (h : aggregate s = .ok () s') : Remarks (fun n => ∃ slope,
      n = .aggregated s.engine.aggregatedCuts.length s.solver.weights slope) s s' := by
  unfold aggregate at h
  rw [bind_of_ok (workspace_run s), bind_of_ok (engine_run s), bind_of_ok (solver_run s)] at h
  cases hmade : Cut.aggregate s.workspace.pointAt s.workspace.currentSample s.solver.weights
      s.engine.aggregatedCuts with
  | error fault =>
    rw [bind_of_error (orFault_error hmade)] at h
    cases h
  | ok made =>
    obtain ⟨slope, hslope⟩ := Cut.notices_of_aggregate hmade
    rw [bind_of_ok (orFault_ok hmade)] at h
    obtain ⟨cuts, notices⟩ := made
    cases h
    obtain rfl : notices = _ := hslope
    exact ⟨rfl, _, Workspace.told_of_own rfl rfl, List.forall_mem_singleton.mpr ⟨slope, rfl⟩⟩

/-- A step to such a stage changes the report. -/
def Stage.Reports : Stage α → Prop
  | .begun _ _ | .augmented _ _ => True
  | _ => False

/-- What a step tells, and that it leaves the report alone unless it is one of two. -/
structure Speaks [Scalar α] (setting : Setting α) (a : Stage α) (s : SearchState α) (b : Stage α)
    (s' : SearchState α) : Prop where
  told : ∃ new, s'.workspace.told = s.workspace.told ++ new ∧ ∀ n ∈ new, n.Said setting a s
  report_eq : ¬ b.Reports → s'.engine.report = s.engine.report

section Steps

variable [Scalar α] {setting : Setting α} {a b : Stage α} {s s' s₁ start : SearchState α}

/-- A step that remarks what may be said there speaks as it should. -/
theorem Remarks.speaks (h : Remarks (Notice.Said setting a s) s s') : Speaks setting a s b s' :=
  ⟨h.told, fun _ => h.report_eq⟩

/-- A change of the engine that keeps the report adds no remarks. -/
theorem Remarks.withEngine {said : Notice α → Prop} {f : Engine α → Engine α}
    (h : Remarks said s s₁) (hf : (f s₁.engine).report = s₁.engine.report) :
    Remarks said s (s₁.withEngine f) :=
  h.trans (.of_speech (congrArg (·, s₁.workspace.told) hf))

/-- A solve adds no remarks. -/
theorem Remarks.resolved {said : Notice α → Prop} (h : Remarks said s s₁)
    (planes : List (Plane α)) (active : ActiveCuts α) :
    Remarks said s (s₁.resolved setting planes active) :=
  h.trans (.of_speech (SearchState.speech_resolved setting s₁ planes active))

/-- The line of a round waits in the report, and nothing is told. -/
theorem Search.told_reportRound (h : reportRound setting s = .ok () s') :
    s'.workspace.told = s.workspace.told := by
  rw [reportRound_run] at h
  cases h
  rfl

/-- The restart tells of a fallback that failed too. -/
theorem Search.remarks_of_restart {plane : Plane α} {first : Bool}
    (h : note (if s.solver.status = .success then [] else [.fallbackFailed s.solver.status]) s =
      .ok () s₁) :
    Remarks (Notice.Said setting (.solved (.fallback plane first)) s) s s₁ := by
  split at h
  · exact .of_speech (speech_of_note .nil h)
  · rename_i hstatus
    exact .of_note_single h ⟨rfl, hstatus, _, _, rfl⟩

/-- When a round begins all waiting lines are emitted. -/
theorem speech_begun {first evaluated : Bool}
    (hstep : Step setting (.round first) s (.begun first evaluated) s') :
    s'.speech = (s.engine.report.flush.1,
      s.workspace.told ++ s.engine.report.pending.toList.map Notice.ofLine) := by
  cases hstep with
  | beginRound hflush hevaluate =>
    rw [((Search.along_onWorkspace (Workspace.along_told _).evaluateTrial).of_ok
      hevaluate).speech_eq]
    cases hflush
    exact congrArg (s.engine.report.flush.1, ·) (Workspace.told_of_lines rfl)

/-- What every step tells. -/
theorem Step.speaks (hstep : Step setting a s b s') : Speaks setting a s b s' := by
  have hsame : s'.speech = s.speech → Speaks setting a s b s' :=
    fun h => (Remarks.of_speech h).speaks
  have hforeign : ∀ {notice : Notice α}, notice.isOwn = false →
      Search.note [notice] s = .ok () s' → Speaks setting a s b s' :=
    fun hn hr => hsame (Search.speech_of_note (.singleton hn) hr)
  have hradii : ∀ norm radius, Notice.Said setting a s (.radiiUpdated norm radius) :=
    fun _ _ => trivial
  have htold := Workspace.along_told setting.oracle
  cases hstep with
  | fallBack hkind hstatus hgo hr =>
    exact ((Remarks.of_note_single hr ⟨rfl, hstatus, hgo⟩).resolved _ _).speaks
  | restart hr => exact ((Search.remarks_of_restart hr).withEngine rfl).speaks
  | aggregate hon hr =>
    obtain ⟨hreport, new, hnew, hsaid⟩ := Search.remarks_of_aggregate hr
    refine ⟨⟨new, hnew, fun n hn => ?_⟩, fun _ => hreport⟩
    obtain ⟨slope, rfl⟩ := hsaid n hn
    exact ⟨rfl, rfl, hon, _, rfl⟩
  | solveGradient | solveAggregated => exact hsame (SearchState.speech_resolved setting s _ _)
  | solveFull hcollect hr =>
    have hcollected : Remarks (Notice.Said setting .opened s) s _ :=
      (Remarks.of_speech (htold.collectCuts.of_ok hcollect).speech_eq).trans
        (.of_note_single hr rfl)
    exact ((hcollected.withEngine rfl).resolved _ _).speaks
  | solveSwitching _ _ hr => exact ((Remarks.of_note_single hr ⟨_, rfl⟩).resolved _ _).speaks
  | solveWarm => exact hsame (SearchState.speech_continued setting s _)
  | testGradient hr | testShort _ _ hr =>
    exact ((Remarks.of_speech (Search.speech_of_tryStep hr)).trans
      (.of_tested setting _ _ hradii)).speaks
  | testFull => exact (Remarks.of_tested setting _ s hradii).speaks
  | @beginRound _ _ _ first evaluated hflush hevaluate =>
    have hbegun : Step setting (.round first) s (.begun first evaluated) s' :=
      .beginRound hflush hevaluate
    have hspeech := speech_begun hbegun
    refine ⟨⟨_, congrArg Prod.snd hspeech, fun n hn => ?_⟩, fun h => absurd trivial h⟩
    obtain ⟨_, _, rfl⟩ := List.mem_map.mp hn
    exact ⟨first, rfl⟩
  | sampleFull _ hcut | sampleShort hcut =>
    exact hsame ((htold.trialCut _).of_ok hcut).speech_eq
  | augment hr =>
    exact ⟨⟨[], (Search.told_reportRound hr).trans (List.append_nil _).symm, nofun⟩,
      fun h => absurd trivial h⟩
  | acceptGradient hr =>
    have hremarks : Remarks (Notice.Said setting (.gradientTested true) s) s s' :=
      .of_note_single hr rfl
    exact hremarks.speaks
  | acceptShort hr => exact (Remarks.of_note_single hr ⟨_, _, _, rfl⟩).speaks
  | failTrial hr => exact hforeign rfl hr
  | runOut _ hr | goOn _ hr =>
    cases hr
    exact hsame rfl
  | _ => exact hsame rfl

/-- Each step notes what it makes of the last solve. -/
theorem Step.consequences (hstep : Step setting a s b s') :
    ∃ new, s'.consequences = s.consequences ++ new ∧ ∀ n ∈ new, n.Drawn setting a s := by
  obtain ⟨new, htold, hsaid⟩ := hstep.speaks.told
  refine ⟨new.filter Notice.isConsequence, ?_, fun n hn => ?_⟩
  · unfold SearchState.consequences
    rw [Workspace.consequences_eq, Workspace.consequences_eq, htold, List.filter_append]
  · obtain ⟨hmem, hconsequence⟩ := List.mem_filter.mp hn
    have hn := hsaid n hmem
    cases n <;> first | exact hn | cases hconsequence

/-- So a search notes only what it makes of its solves. -/
theorem Reached.consequences (h : Reached setting start b s) :
    ∃ new, s.consequences = start.consequences ++ new ∧
      ∀ n ∈ new, ∃ a t, Reached setting start a t ∧ n.Drawn setting a t := by
  induction h with
  | start => exact ⟨[], (List.append_nil _).symm, fun _ hn => absurd hn List.not_mem_nil⟩
  | step hreached hstep ih =>
    obtain ⟨old, hold, hdrawn⟩ := ih
    obtain ⟨new, hnew, hdrawn'⟩ := hstep.consequences
    refine ⟨old ++ new, by rw [hnew, hold, List.append_assoc], ?_⟩
    exact List.forall_mem_append.mpr ⟨hdrawn, fun n hn => ⟨_, _, hreached, hdrawn' n hn⟩⟩

end Steps

section Account

variable [Scalar α] {setting : Setting α} {start : α} {outcome : Outcome} {s s' : SearchState α}

/-- The account emits what waits and the summary, and tells that the search is finished. -/
theorem Search.told_account (h : account setting start outcome s = .ok () s') :
    s'.workspace.told = s.workspace.told ++
      (s.engine.report.pending.toList ++
        [(LineKind.iteration, ProgressLine.summary (figures s.workspace s.engine))]).map
          Notice.ofLine ++
      [.finished outcome s.workspace.innerIterations s.workspace.minimizerIterations
        s.engine.solves s.workspace.bundle.size] := by
  let report := s.engine.report.add .iteration (.summary (figures s.workspace s.engine))
  let emitted : Workspace α := { s.workspace with
    notices := s.workspace.notices ++ report.flush.2.map Notice.ofLine }
  have htold : emitted.told = s.workspace.told ++ report.flush.2.map Notice.ofLine :=
    Workspace.told_of_lines rfl
  have hpushed : report.flush.2 = s.engine.report.pending.toList ++
      [(LineKind.iteration, ProgressLine.summary (figures s.workspace s.engine))] :=
    Array.toList_push
  have hnotices : s'.workspace.notices = emitted.notices ++
      ([.finished outcome s.workspace.innerIterations s.workspace.minimizerIterations
        s.engine.solves s.workspace.bundle.size] : List (Notice α)) := by
    cases h
    rfl
  rw [Workspace.told_of_notices hnotices, htold, hpushed]
  rfl

/-- The account emits report lines and tells of the end, but nothing else. -/
theorem Search.heard_account {p : Notice α → Bool} (hp : ∀ n, p n = true → n.isOwn = true)
    (hline : ∀ entry, p (.ofLine entry) = false)
    (hend : ∀ outcome inner minimizer solves points,
      p (.finished outcome inner minimizer solves points) = false)
    (h : account setting start outcome s = .ok () s') :
    s'.workspace.heard p = s.workspace.heard p := by
  have hlines : ∀ entries : List (LineKind × ProgressLine α),
      (entries.map Notice.ofLine).filter p = [] := by
    refine fun entries => List.filter_eq_nil_iff.mpr fun n hn => ?_
    obtain ⟨entry, _, rfl⟩ := List.mem_map.mp hn
    exact Bool.eq_false_iff.mp (hline entry)
  rw [Workspace.heard_eq hp, Workspace.heard_eq hp, told_account h, List.filter_append,
    List.filter_append, hlines, List.append_nil, List.filter_singleton, hend]
  exact List.append_nil _

/-- The account makes nothing of a solve. -/
theorem Search.consequences_account (h : account setting start outcome s = .ok () s') :
    s'.consequences = s.consequences :=
  heard_account Notice.isOwn_of_isConsequence (fun _ => rfl) (fun _ _ _ _ _ => rfl) h

end Account

end NonsmoothDescent
