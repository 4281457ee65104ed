import NonsmoothDescent.Proofs.Scalar
import NonsmoothDescent.Proofs.Search.Frame
import NonsmoothDescent.Proofs.Workspace.Memory

/-!
# What searches remember

A search evaluates samples, makes trial points and appends to the bundle, through the
operations of the workspace only. So whatever it does and however it ends, with an outcome
or with a fault, the workspace remembers what had been evaluated, and its counters grow by
the first evaluations that the search made.

A session with one objective takes such operations in any order, whole searches among
them. From samples of which nothing is known it comes to samples that are evaluated at most
once each, and to counters that say how many are.
-/

namespace NonsmoothDescent

variable {α : Type} [Scalar α]

/-- A later state, whose workspace remembers that of the earlier one. -/
def SearchState.Remembers (o : Oracle α) (s s' : SearchState α) : Prop :=
  s.workspace.Remembers o s'.workspace

namespace Search

section Calls

variable {o : Oracle α}

/-- What remembers on the workspace remembers in a search. -/
theorem remembers_onWorkspace {β : Type} {act : WorkspaceM α β}
    (h : Along (Workspace.Remembers o) act) (s : SearchState α) :
    s.Remembers o (finalState (onWorkspace act s)) := by
  have hlinked : Along (Linked (Workspace.Remembers o) fun _ => ()) (onWorkspace act) :=
    along_onWorkspace h
  exact (hlinked s).workspace

/-- To prepare a search is to set slots, counters and the engine. -/
theorem along_prepare :
    Along (Linked (Workspace.Remembers o) fun _ => ()) (prepare (α := α)) := by
  refine Along.bind (along_modifyEngine fun _ => rfl) fun _ => along_solver.bind fun _ => ?_
  refine Along.bind (along_modifyEngine fun _ => rfl) fun _ => ?_
  refine Along.bind (along_onWorkspace fun _ => .of_eq rfl rfl rfl) fun _ => ?_
  refine Along.bind (along_onWorkspace fun _ => .of_eq rfl rfl rfl) fun _ => ?_
  exact Along.bind (along_modifyEngine fun _ => rfl) fun _ _ => ⟨.of_eq rfl rfl rfl, rfl⟩

/-- To account for one is to set outcome, totals and the report. -/
theorem along_account (setting : Setting α) (start : α) (outcome : Outcome) :
    Along (Linked (Workspace.Remembers o) fun _ => ()) (account setting start outcome) := by
  have hnote : ∀ notices : List (Notice α),
      Along (Linked (Workspace.Remembers o) fun _ => ()) (note notices) :=
    fun _ => along_onWorkspace fun _ => .of_eq rfl rfl rfl
  refine Along.bind (along_modifyEngine fun _ => rfl) fun _ => along_workspace.bind fun _ => ?_
  refine along_engine.bind fun _ => Along.bind (along_modifyEngine fun _ => rfl) fun _ => ?_
  refine Along.bind (along_engine.bind fun _ =>
    Along.bind (along_modifyEngine fun _ => rfl) fun _ => hnote _) fun _ => ?_
  refine Along.bind (along_onWorkspace fun _ => .of_eq rfl rfl rfl) fun _ => ?_
  refine Along.bind (along_onWorkspace fun _ => .of_eq rfl rfl rfl) fun _ => ?_
  refine Along.bind (along_onWorkspace fun _ => .of_eq rfl rfl rfl) fun _ => ?_
  exact along_workspace.bind fun _ => along_engine.bind fun _ => hnote _

/-- A whole search remembers, and counts what it adds. -/
theorem remembers_computeDirection (setting : Setting α) (s : SearchState α) :
    s.Remembers setting.oracle (finalState (computeDirection setting s)) := by
  have hseek : Along (Linked (Workspace.Remembers setting.oracle) fun _ => ()) (seek setting) :=
    (Workspace.along_remembers setting.oracle).seek.mono fun _ _ h => ⟨h.workspace, rfl⟩
  have hconclude :
      Along (Linked (Workspace.Remembers setting.oracle) fun _ => ()) (conclude setting) := by
    refine along_prepare.bind fun _ => ?_
    refine Along.bind (along_onWorkspace fun _ => .of_eq rfl rfl rfl) fun _ => ?_
    exact hseek.bind fun _ => (along_account setting _ _).bind fun _ => .of_pure _
  exact (hconclude.bind (fun _ => .ite (.of_throw _) (.of_pure _)) s).workspace

end Calls

end Search

/-! ## Sessions -/

/-- What may be done in a session: evaluations and trials, samples that are made, put into
the bundle or given a part to play, and whole searches. -/
inductive Deed (α : Type) [Scalar α] where
  /-- Evaluating the objective of a sample. -/
  | evaluateObjective (id : SampleId)
  /-- Evaluating the gradient of a sample. -/
  | evaluateGradient (id : SampleId)
  /-- Evaluating a sample jointly. -/
  | evaluateBoth (id : SampleId)
  /-- Evaluating the trial point. -/
  | evaluateTrial
  /-- Making a trial point. -/
  | makeTrial (stepsize : α)
  /-- Making a sample. -/
  | makeSample (numbers : Nested α)
  /-- Putting a sample into the bundle. -/
  | addToBundle (id : SampleId)
  /-- Giving samples the parts of current and trial point, and setting direction, radii and
  the way in which trial points are evaluated. -/
  | assign (current trial : SampleId) (direction : List α) (radii : Radii α) (joint : Bool)
  /-- Searching for a direction. -/
  | search (setting : Setting α)

/-- The state in which a deed ends, done with an objective. -/
def Deed.after (o : Oracle α) (s : SearchState α) : Deed α → SearchState α
  | .evaluateObjective id =>
    finalState (Search.onWorkspace (Workspace.evaluateObjective o id true) s)
  | .evaluateGradient id =>
    finalState (Search.onWorkspace (Workspace.evaluateGradient o id true) s)
  | .evaluateBoth id => finalState (Search.onWorkspace (Workspace.evaluateBoth o id true) s)
  | .evaluateTrial => finalState (Search.onWorkspace (Workspace.evaluateTrial o) s)
  | .makeTrial stepsize => finalState (Search.onWorkspace (Workspace.makeTrial stepsize) s)
  | .makeSample numbers => finalState (Search.onWorkspace (Workspace.makeSample numbers) s)
  | .addToBundle id => finalState (Search.onWorkspace (Workspace.addToBundle id) s)
  | .assign current trial direction radii joint =>
    { s with workspace :=
      { s.workspace with current, trial, direction, radii, jointEvaluation := joint } }
  | .search setting => finalState (Search.computeDirection { setting with oracle := o } s)

/-- The state in which a session ends. -/
def SearchState.after (o : Oracle α) (s : SearchState α) (deeds : List (Deed α)) :
    SearchState α := deeds.foldl (Deed.after o) s

section Sessions

variable {o : Oracle α} {s : SearchState α}

/-- What was evaluated is remembered through each deed. -/
theorem Deed.remembers (d : Deed α) : s.Remembers o (d.after o s) := by
  have h := Workspace.along_remembers o
  cases d with
  | evaluateObjective id =>
    exact Search.remembers_onWorkspace (h.objective id) s
  | evaluateGradient id =>
    exact Search.remembers_onWorkspace (h.gradient id) s
  | evaluateBoth id => exact Search.remembers_onWorkspace (h.evaluateBoth id) s
  | evaluateTrial => exact Search.remembers_onWorkspace h.evaluateTrial s
  | makeTrial stepsize => exact Search.remembers_onWorkspace (h.makeTrial stepsize) s
  | makeSample numbers => exact Search.remembers_onWorkspace (h.makeSample numbers) s
  | addToBundle id => exact Search.remembers_onWorkspace (h.addToBundle id) s
  | assign => exact .of_eq rfl rfl rfl
  | search setting => exact Search.remembers_computeDirection { setting with oracle := o } s

/-- What was evaluated is remembered through all deeds. -/
theorem SearchState.remembers_after (deeds : List (Deed α)) : s.Remembers o (s.after o deeds) := by
  induction deeds generalizing s with
  | nil => exact .of_eq rfl rfl rfl
  | cons d deeds ih => exact Workspace.Remembers.trans d.remembers ih

/-- Nothing is known of any sample, and nothing has been counted. -/
structure Workspace.Untouched (w : Workspace α) : Prop where
  pending : ∀ s ∈ w.samples, s.objective = .pending ∧ s.gradient = .pending
  objectives_eq : w.objectiveEvaluations = 0
  gradients_eq : w.gradientEvaluations = 0

namespace Workspace.Untouched

variable {w : Workspace α}

omit [Scalar α] in
/-- In an untouched workspace nothing has been evaluated. -/
theorem sampleAt_pending (h : w.Untouched) {id : SampleId} (hid : id < w.samples.size) :
    (w.sampleAt id).objective = .pending ∧ (w.sampleAt id).gradient = .pending := by
  rw [sampleAt_eq_getElem hid]
  exact h.pending _ (Array.getElem_mem hid)

omit [Scalar α] in
/-- In an untouched workspace no evaluation counts. -/
theorem valued_eq_zero (h : w.Untouched) : w.valued = 0 ∧ w.sloped = 0 := by
  refine ⟨Array.countP_eq_zero.mpr fun s hs => ?_, Array.countP_eq_zero.mpr fun s hs => ?_⟩
  · rw [Sample.isValued, (h.pending s hs).1]
    exact Bool.false_ne_true
  · rw [Sample.isSloped, (h.pending s hs).2]
    exact Bool.false_ne_true

/-- What is remembered since is faithful, and the counters are numbers of samples. -/
theorem remembers (h : w.Untouched) {w' : Workspace α} (hw : w.Remembers o w') :
    (∀ id < w'.samples.size, (w'.sampleAt id).Faithful o) ∧
      w'.objectiveEvaluations = w'.valued ∧ w'.gradientEvaluations = w'.sloped := by
  obtain ⟨hvalued, hsloped⟩ := h.valued_eq_zero
  have hobjectives := hw.objectives
  have hgradients := hw.gradients
  rw [hvalued, h.objectives_eq] at hobjectives
  rw [hsloped, h.gradients_eq] at hgradients
  refine ⟨fun id hid => hw.faithful id hid fun hold => ?_, by omega, by omega⟩
  exact ⟨.inl (h.sampleAt_pending hold).1, .inl (h.sampleAt_pending hold).2⟩

end Workspace.Untouched

/-- What holds of the evaluations of a session at a moment and at any later one. -/
structure Workspace.EvaluatedOnce (o : Oracle α) (w w' : Workspace α) : Prop where
  /-- No sample is lost, and what came of its evaluations stays. -/
  stays : ∀ id < w.samples.size, id < w'.samples.size ∧ (w.sampleAt id).Refines (w'.sampleAt id)
  /-- What is known is what the functions gave there. -/
  reads : ∀ id < w.samples.size, (w.sampleAt id).Reads o
  /-- An objective that was evaluated is not evaluated again: the answer is at hand, without
  asking any oracle, and nothing changes. -/
  objective_once : ∀ id < w.samples.size, (w.sampleAt id).isValued = true →
    ∀ other : Oracle α, evaluateObjective other id true w' =
      .ok (w.sampleAt id).objective.isKnown w'
  /-- So it is with a gradient. -/
  gradient_once : ∀ id < w.samples.size, (w.sampleAt id).isSloped = true →
    ∀ other : Oracle α, evaluateGradient other id true w' =
      .ok (w.sampleAt id).gradient.isKnown w'
  /-- And with both, where the gradient is asked for only if the objective is known. -/
  both_once : ∀ id < w.samples.size, (w.sampleAt id).isValued = true →
    ((w.sampleAt id).objective.isKnown = true → (w.sampleAt id).isSloped = true) →
    ∀ other : Oracle α, evaluateBoth other id true w' =
      .ok ((w.sampleAt id).objective.isKnown && (w.sampleAt id).gradient.isKnown) w'
  /-- A joint evaluation leaves gradients and their counter alone if the objective failed. -/
  spared : ∀ id, ((finalState (evaluateBoth o id true w)).sampleAt id).objective.isKnown = false →
    (∀ i, ((finalState (evaluateBoth o id true w)).sampleAt i).gradient =
      (w.sampleAt i).gradient) ∧
    (finalState (evaluateBoth o id true w)).gradientEvaluations = w.gradientEvaluations
  /-- The counters are the numbers of samples that have been evaluated. -/
  objectives_eq : w.objectiveEvaluations = w.valued
  gradients_eq : w.gradientEvaluations = w.sloped

/-- In any session that begins with samples of which nothing is known, whatever objective
it is about, samples are evaluated once. -/
theorem session_evaluates_once (o : Oracle α) {first : SearchState α}
    (hfirst : first.workspace.Untouched) (early late : List (Deed α)) :
    (first.after o early).workspace.EvaluatedOnce o
      (first.after o (early ++ late)).workspace := by
  have happend : first.after o (early ++ late) = (first.after o early).after o late :=
    List.foldl_append
  obtain ⟨hfaithful, hobjectives, hgradients⟩ :=
    hfirst.remembers (SearchState.remembers_after (o := o) early)
  have hlater : (first.after o early).Remembers o (first.after o (early ++ late)) := by
    rw [happend]
    exact SearchState.remembers_after late
  constructor
  case stays => exact fun id hid => ⟨hid.trans_le hlater.size_le, hlater.refines id hid⟩
  case reads => exact fun id hid => (hfaithful id hid).reads
  case objective_once =>
    intro id hid hvalued other
    obtain ⟨hsame, hvalued'⟩ := (hlater.refines id hid).of_isValued hvalued
    rw [← hsame, Workspace.evaluateObjective_of_isValued other hvalued']
  case gradient_once =>
    intro id hid hsloped other
    obtain ⟨hsame, hsloped'⟩ := (hlater.refines id hid).of_isSloped hsloped
    rw [← hsame, Workspace.evaluateGradient_of_isSloped other hsloped']
  case both_once =>
    intro id hid hvalued hsloped other
    obtain ⟨hobjective, hvalued'⟩ := (hlater.refines id hid).of_isValued hvalued
    have hsloped' := fun h => (hlater.refines id hid).of_isSloped (hsloped (hobjective ▸ h))
    rw [Workspace.evaluateBoth_of_isSloped other hvalued' fun h => (hsloped' h).2, hobjective]
    cases hknown : ((first.after o early).workspace.sampleAt id).objective.isKnown with
    | false => rfl
    | true => rw [(hsloped' (hobjective ▸ hknown)).1]
  case spared => exact fun id h => Workspace.evaluateBoth_spares o id _ h
  case objectives_eq => exact hobjectives
  case gradients_eq => exact hgradients

end Sessions

/-! ## A session at the edge of a domain -/

/-- The square of one variable where it is not negative. -/
def halfLine : Oracle ℚ where
  dimension := 1
  positive := Nat.one_pos
  value
    | [x] => if x < 0 then .error .refused else .ok (x * x)
    | _ => .error .refused
  gradient := some fun
    | [x] => .ok [2 * x]
    | _ => .error .refused
  differences := Oracle.forwardDifferences (1 / 1000)

/-- A search on it whose minimizer stays where it starts. -/
def standing : Setting ℚ where
  oracle := halfLine
  options := { tryGradientStep := false, iterationLimit := 1 }
  rule := ShrinkRule.standard.toRule
  clock _ := 0
  minimizer _ request := ⟨request.start, 0, 1, ""⟩

/-- One sample on either side of the edge. -/
def atEdge : SearchState ℚ where
  workspace :=
    { dimension := 1
      samples := #[{ position := [1] }, { position := [-1] }]
      direction := [0]
      radii := ⟨2, 1⟩
      startTime := 0
      timeLimit := 10000
      searchTime := 0 }
  engine := {}

/-- The sample beyond the edge is evaluated twice and put into the bundle with the other. -/
def approaching : List (Deed ℚ) :=
  [.evaluateBoth 1, .evaluateBoth 1, .addToBundle 1, .addToBundle 0]

/-- A search meets both, and evaluates one of them and its own trial point; the gradient
beyond the edge is asked for apart. -/
theorem failure_kept_at_edge :
    let w := (atEdge.after halfLine approaching).workspace
    let w' := (atEdge.after halfLine
      (approaching ++ [.search standing, .evaluateGradient 1])).workspace
    w.EvaluatedOnce halfLine w' ∧ w.objectiveEvaluations = 1 ∧ w.gradientEvaluations = 0 ∧
      w'.objectiveEvaluations = 3 ∧ w'.gradientEvaluations = 2 ∧
      (w'.sampleAt 1).objective = .failed ∧ (w'.sampleAt 1).gradient = .known [-2] := by
  have huntouched : atEdge.workspace.Untouched := by
    refine ⟨fun s hs => ?_, rfl, rfl⟩
    obtain rfl | rfl : s = { position := [1] } ∨ s = { position := [-1] } := by
      simpa [atEdge] using hs
    · exact ⟨rfl, rfl⟩
    · exact ⟨rfl, rfl⟩
  exact ⟨session_evaluates_once halfLine huntouched approaching
    [.search standing, .evaluateGradient 1], by decide +kernel⟩

end NonsmoothDescent
