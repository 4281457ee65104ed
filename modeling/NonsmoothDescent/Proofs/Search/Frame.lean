import NonsmoothDescent.Proofs.Workspace.Frame
import NonsmoothDescent.Search.Direction

/-!
# Relations along a search

A relation that holds along the simple operations on the workspace holds along a whole
search. Of the engine a part may be followed along with the workspace. Collecting the near
cuts and making a cut at the trial point only sample: for these the relation has to hold
along sampling, and the engine is not touched at all. A search leaves the outcome alone,
however its operations come out.
-/

namespace NonsmoothDescent

variable {α : Type} [Scalar α]

/-- The workspaces of two states stand in a relation, and the engines agree in a part. -/
structure Linked {π : Type} (rel : Workspace α → Workspace α → Prop) (part : Engine α → π)
    (s s' : SearchState α) : Prop where
  workspace : rel s.workspace s'.workspace
  engine : part s'.engine = part s.engine

section Linked

variable {π β : Type} {rel : Workspace α → Workspace α → Prop} {part : Engine α → π}

instance [Std.Refl rel] : Std.Refl (Linked rel part) := ⟨fun _ => ⟨Std.Refl.refl _, rfl⟩⟩

instance [Trans rel rel rel] : Trans (Linked rel part) (Linked rel part) (Linked rel part) :=
  ⟨fun h h' => ⟨Trans.trans h.workspace h'.workspace, h'.engine.trans h.engine⟩⟩

namespace Search

/-- Operations on the workspace leave the engine alone. -/
theorem along_onWorkspace {act : WorkspaceM α β} (h : Along rel act) :
    Along (Linked rel part) (onWorkspace act) := by
  intro s
  have hs := h s.workspace
  unfold onWorkspace
  cases hr : act s.workspace with
  | ok b w | error fault w =>
    rw [hr] at hs
    exact ⟨hs, rfl⟩

variable [Std.Refl rel]

/-- Changes of the engine leave the workspace alone. -/
theorem along_modifyEngine {f : Engine α → Engine α} (h : ∀ e, part (f e) = part e) :
    Along (Linked rel part) (modifyEngine f) := fun s => ⟨Std.Refl.refl _, h s.engine⟩

/-- The journal plays no part. -/
theorem along_record (event : Moment α → Event α) : Along (Linked rel part) (record event) :=
  fun _ => ⟨Std.Refl.refl _, rfl⟩

section Reading

variable {srel : SearchState α → SearchState α → Prop} [Std.Refl srel]

/-- Reading the workspace changes nothing. -/
theorem along_workspace : Along srel (workspace (α := α)) := .of_same fun _ => rfl

/-- Reading the engine changes nothing. -/
theorem along_engine : Along srel (engine (α := α)) := .of_same fun _ => rfl

/-- Reading the solver changes nothing. -/
theorem along_solver : Along srel (solver (α := α)) := .of_same fun _ => rfl

/-- A fault stops the search where it is. -/
theorem along_orFault (result : Except (Fault α) β) : Along srel (orFault result) := by
  cases result
  · exact .of_same fun _ => rfl
  · exact .of_same fun _ => rfl

end Reading

variable [Trans rel rel rel]

omit [Trans rel rel rel] in
/-- A solver is put into the engine. -/
theorem along_setSolver (s : Solver α) : Along (Linked rel Engine.outcome) (setSolver s) :=
  along_modifyEngine fun _ => rfl

/-- Cuts are loaded into the solver. -/
theorem along_load (cuts : List (Cut α)) (active : ActiveCuts α) :
    Along (Linked rel Engine.outcome) (load cuts active) := by
  refine along_workspace.bind fun _ => (along_orFault _).bind fun _ => ?_
  refine along_solver.bind fun _ => (along_orFault _).bind fun _ => ?_
  exact (along_setSolver _).bind fun _ => along_modifyEngine fun _ => rfl

omit [Trans rel rel rel] in
/-- A line waits in the report. -/
theorem along_report (kind : LineKind) (line : ProgressLine α) :
    Along (Linked rel Engine.outcome) (report kind line) := along_modifyEngine fun _ => rfl

/-- The lines of a round wait in the report. -/
theorem along_reportRound (setting : Setting α) :
    Along (Linked rel Engine.outcome) (reportRound setting) :=
  along_workspace.bind fun _ => along_engine.bind fun _ => (along_report _ _).bind fun _ =>
    along_engine.bind fun _ => .ite (along_report _ _) (.of_pure _)

end Search

end Linked

/-! ## Sampling -/

namespace AlongSampling

variable {π : Type} {rel : Workspace α → Workspace α → Prop} [Std.Refl rel]
  [Trans rel rel rel] {setting : Setting α} {part : Engine α → π}

/-- The cut at the trial point. -/
theorem trialCut (h : AlongSampling setting.oracle rel) (evaluated : Bool) :
    Along (Linked rel part) (Search.trialCut setting evaluated) := by
  refine .ite (.of_pure _) <| Search.along_workspace.bind fun _ => ?_
  refine (Search.along_onWorkspace (h.gradient _)).bind fun _ => ?_
  refine .ite (.of_pure _) <| (Search.along_onWorkspace (h.addToBundle _)).bind fun _ => ?_
  exact Search.along_workspace.bind fun _ => (Search.along_orFault _).bind fun _ => .of_pure _

/-- The cut at a place of the bundle. -/
theorem nearCut (h : AlongSampling setting.oracle rel) (place : Nat) :
    Along (Linked rel part) (Search.nearCut setting place) := by
  refine Search.along_workspace.bind fun w => ?_
  split
  · exact .of_pure _
  · refine (Search.along_onWorkspace (h.evaluateBoth _)).bind fun _ => .ite ?_ (.of_pure _)
    exact Search.along_workspace.bind fun _ => (Search.along_orFault _).bind fun _ => .of_pure _

/-- The cuts at any places, one after another. -/
theorem nearCuts (h : AlongSampling setting.oracle rel) (places : List Nat)
    (cuts : List (Cut α)) :
    Along (Linked rel part)
      (places.foldlM (fun cuts place => do return cuts ++ (← Search.nearCut setting place))
        cuts) := by
  induction places generalizing cuts with
  | nil => exact .of_pure _
  | cons place places ih =>
    rw [List.foldlM_cons]
    exact ((h.nearCut place).bind fun _ => .of_pure _).bind fun _ => ih _

/-- The cut at the current point and those near it. -/
theorem collectCuts (h : AlongSampling setting.oracle rel) :
    Along (Linked rel part) (Search.collectCuts setting) :=
  Search.along_workspace.bind fun _ => (Search.along_orFault _).bind fun _ =>
    (Search.along_orFault _).bind fun _ => h.nearCuts _ _

end AlongSampling

/-! ## Searching -/

namespace AlongSearch

variable {rel : Workspace α → Workspace α → Prop} [Std.Refl rel] [Trans rel rel rel]
  {setting : Setting α}

omit [Std.Refl rel] [Trans rel rel rel] in
/-- Notices do not touch the engine. -/
theorem noted (h : AlongSearch setting.oracle rel) (new : List (Notice α)) :
    Along (Linked rel Engine.outcome) (Search.note new) :=
  Search.along_onWorkspace (h.note new)

/-- A step is counted, set as direction and tried in full. -/
theorem takeStep (h : AlongSearch setting.oracle rel) (s : Solver α) :
    Along rel (Search.takeStep s) :=
  Along.bind (fun w => h.counters w w.innerIterations _) fun _ =>
    Along.bind (fun w => h.counters w _ w.minimizerIterations) fun _ =>
      (h.setDirection _).bind fun _ => h.makeTrial 1

/-- A solve is made and its step taken. -/
theorem solve (h : AlongSearch setting.oracle rel) (warm : Bool) :
    Along (Linked rel Engine.outcome) (Search.solve setting warm) := by
  refine Search.along_solver.bind fun _ => Search.along_engine.bind fun _ => ?_
  refine (Search.along_setSolver _).bind fun _ => (h.noted _).bind fun _ => ?_
  have hrest : ∀ solved : Solver.Solved α, Along (Linked rel Engine.outcome) (do
      Search.modifyEngine fun e => { e with solves := e.solves + 1 }
      Search.onWorkspace (Search.takeStep solved.solver)
      Search.record .solved
      return solved.solver.status) := fun solved =>
    Along.bind (Search.along_modifyEngine fun _ => rfl) fun _ =>
      (Search.along_onWorkspace (h.takeStep _)).bind fun _ =>
        (Search.along_record _).bind fun _ => .of_pure _
  dsimp only
  split
  · exact Along.bind (Search.along_modifyEngine fun _ => rfl) fun _ =>
      (Search.along_record _).bind fun _ => hrest _
  · exact hrest _

/-- The solve with the cut at the current point alone. -/
theorem fallBack (h : AlongSearch setting.oracle rel) :
    Along (Linked rel Engine.outcome) (Search.fallBack setting) := by
  refine Search.along_solver.bind fun _ => (h.noted _).bind fun _ => ?_
  refine Search.along_workspace.bind fun _ => (Search.along_orFault _).bind fun _ => ?_
  refine (Search.along_load _ _).bind fun _ => (h.solve false).bind fun _ => ?_
  split
  · exact (h.noted _).bind fun _ => .of_pure _
  · exact .of_pure _

/-- The rule is asked. -/
theorem askRule (h : AlongSearch setting.oracle rel) :
    Along (Linked rel Engine.outcome) (Search.askRule setting) := by
  refine Search.along_solver.bind fun _ => Search.along_engine.bind fun _ => ?_
  refine Search.along_workspace.bind fun _ => ?_
  dsimp only
  refine Along.bind (Search.along_modifyEngine fun _ => rfl) fun _ => ?_
  refine Along.bind (Search.along_onWorkspace fun w => h.radii w _) fun _ => ?_
  split
  · exact (h.noted _).bind fun _ => .of_pure _
  · exact .of_pure _

/-- A trial is tested. -/
theorem accepts (h : AlongSearch setting.oracle rel) (evaluated : Bool) (stepsize : α) :
    Along (Linked rel Engine.outcome) (Search.accepts setting evaluated stepsize) :=
  h.askRule.bind fun _ => (Search.along_record _).bind fun _ =>
    Search.along_workspace.bind fun _ => Search.along_solver.bind fun _ => .of_pure _

/-- A solve is settled. -/
theorem settle (h : AlongSearch setting.oracle rel) (status : SolveStatus)
    (resetAggregated : Bool) :
    Along (Linked rel Engine.outcome) (Search.settle setting status resetAggregated) := by
  refine .ite (.of_pure _) (.ite (.of_pure _) ?_)
  exact h.fallBack.bind fun _ => Along.bind (Search.along_modifyEngine fun _ => rfl) fun _ =>
    .of_pure _

/-- The gradient step. -/
theorem gradientStep (h : AlongSearch setting.oracle rel) :
    Along (Linked rel Engine.outcome) (Search.gradientStep setting) := by
  refine Search.along_workspace.bind fun _ => (Search.along_orFault _).bind fun _ => ?_
  refine (Search.along_load _ _).bind fun _ => (h.solve false).bind fun _ => ?_
  refine (Search.along_onWorkspace (h.makeTrial _)).bind fun _ => ?_
  refine (Search.along_onWorkspace h.evaluateTrial).bind fun _ => ?_
  exact (h.accepts _ _).bind fun _ => .ite ((h.noted _).bind fun _ => .of_pure _) (.of_pure _)

/-- The solve with the cuts of all near points. -/
theorem solveFull (h : AlongSearch setting.oracle rel) :
    Along (Linked rel Engine.outcome) (Search.solveFull setting) := by
  refine h.collectCuts.bind fun _ => Search.along_workspace.bind fun _ => ?_
  refine (h.noted _).bind fun _ => ?_
  refine Along.bind (Search.along_modifyEngine fun _ => rfl) fun _ => ?_
  exact (Search.along_load _ _).bind fun _ => (h.solve false).bind fun _ => h.settle _ false

/-- The test of the full step, and the limits. -/
theorem acceptanceAndLimits (h : AlongSearch setting.oracle rel) (evaluated : Bool) :
    Along (Linked rel Engine.outcome) (Search.acceptanceAndLimits setting evaluated) := by
  refine (h.accepts _ _).bind fun _ => .ite (.of_pure _) ?_
  refine Search.along_workspace.bind fun _ => .ite (.of_pure _) ?_
  exact (Search.along_onWorkspace (h.elapsed _)).bind fun _ => .ite (.of_pure _) (.of_pure _)

/-- Aggregation, where it goes on. -/
theorem aggregateIf (h : AlongSearch setting.oracle rel) (aggregating : Bool) :
    Along (Linked rel Engine.outcome) (Search.aggregateIf (α := α) aggregating) := by
  refine .ite ?_ (.of_pure _)
  refine Search.along_workspace.bind fun _ => Search.along_engine.bind fun _ => ?_
  refine Search.along_solver.bind fun _ => (Search.along_orFault _).bind fun _ => ?_
  exact (h.noted _).bind fun _ => Search.along_modifyEngine fun _ => rfl

/-- The cut at the full step. -/
theorem fullStep (h : AlongSearch setting.oracle rel) (evaluated : Bool) :
    Along (Linked rel Engine.outcome) (Search.fullStep setting evaluated) :=
  Search.along_solver.bind fun _ => Search.along_workspace.bind fun _ =>
    .ite (h.trialCut evaluated) (.of_pure _)

/-- The shortened step, with its cut. -/
theorem shortenedStep (h : AlongSearch setting.oracle rel) :
    Along (Linked rel Engine.outcome) (Search.shortenedStep setting) := by
  refine .ite (.of_pure _) <| Search.along_solver.bind fun _ => .ite (.of_pure _) ?_
  refine Search.along_workspace.bind fun _ => ?_
  refine (Search.along_onWorkspace (h.makeTrial _)).bind fun _ => ?_
  refine (Search.along_onWorkspace h.evaluateTrial).bind fun _ => ?_
  refine (h.accepts _ _).bind fun _ => .ite ?_ ?_
  · exact (h.noted _).bind fun _ => .of_pure _
  · exact (h.trialCut _).bind fun _ => .of_pure _

/-- The solve of a round, in each of its three ways. -/
theorem solveAgain (h : AlongSearch setting.oracle rel) (added : List (Cut α))
    (aggregating : Bool) :
    Along (Linked rel Engine.outcome) (Search.solveAgain setting added aggregating) := by
  refine Search.along_workspace.bind fun _ => (Search.along_orFault _).bind fun _ => ?_
  refine .ite ?_ (.ite ?_ ?_)
  · exact Search.along_engine.bind fun _ => (Search.along_load _ _).bind fun _ =>
      (h.solve false).bind fun _ => h.settle _ true
  · exact (h.noted _).bind fun _ => Search.along_engine.bind fun _ =>
      (Search.along_load _ _).bind fun _ => (h.solve false).bind fun _ =>
        Along.bind (Search.along_modifyEngine fun _ => rfl) fun _ => h.settle _ true
  · exact (Search.along_orFault _).bind fun _ => Search.along_solver.bind fun _ =>
      (Search.along_orFault _).bind fun _ => (Search.along_setSolver _).bind fun _ =>
        Along.bind (Search.along_modifyEngine fun _ => rfl) fun _ => (h.solve true).bind fun _ =>
          h.settle _ true

/-- The lines of the report are emitted. -/
theorem flushReport (h : AlongSearch setting.oracle rel) :
    Along (Linked rel Engine.outcome) (Search.flushReport (α := α)) :=
  Search.along_engine.bind fun _ => Along.bind (Search.along_modifyEngine fun _ => rfl) fun _ =>
    h.noted _

/-- The part of a round after its step was rejected. -/
theorem improve (h : AlongSearch setting.oracle rel) (evaluated : Bool) :
    Along (Linked rel Engine.outcome) (Search.improve setting evaluated) := by
  refine Search.along_engine.bind fun _ => (h.aggregateIf _).bind fun _ => ?_
  refine (h.fullStep evaluated).bind fun _ => h.shortenedStep.bind fun _ => ?_
  refine .ite (.of_pure _) (Along.bind (Search.along_modifyEngine fun _ => rfl) fun _ => ?_)
  exact (Search.along_reportRound setting).bind fun _ => h.solveAgain _ _

/-- One round. -/
theorem round (h : AlongSearch setting.oracle rel) (first : Bool) :
    Along (Linked rel Engine.outcome) (Search.round setting first) := by
  refine (Search.along_record _).bind fun _ => h.flushReport.bind fun _ => ?_
  refine (Search.along_onWorkspace h.evaluateTrial).bind fun _ => .ite ?_ ?_
  · exact (h.noted _).bind fun _ => .of_pure _
  · refine (h.acceptanceAndLimits _).bind fun ended => ?_
    cases ended with
    | some outcome => exact .of_pure _
    | none => exact h.improve _

/-- Any number of rounds. -/
theorem rounds (h : AlongSearch setting.oracle rel) (fuel : Nat) (first : Bool) :
    Along (Linked rel Engine.outcome) (Search.rounds setting fuel first) := by
  induction fuel generalizing first with
  | zero => exact .of_throw _
  | succ fuel ih =>
    refine (h.round first).bind fun ended => ?_
    cases ended with
    | some outcome => exact .of_pure _
    | none => exact ih false

/-- The relation holds along the search proper, and so the outcome is not touched. -/
theorem seek (h : AlongSearch setting.oracle rel) :
    Along (Linked rel Engine.outcome) (Search.seek setting) := by
  have hloop : Along (Linked rel Engine.outcome) (do
      Search.modifyEngine fun e => { e with aggregatedCuts := e.fullCuts }
      Search.rounds setting (setting.options.iterationLimit + 2) true) :=
    Along.bind (Search.along_modifyEngine fun _ => rfl) fun _ => h.rounds _ true
  have hfull {rest : Option Outcome → SearchM α Outcome}
      (hended : ∀ outcome, rest (some outcome) = pure outcome)
      (hgo : Along (Linked rel Engine.outcome) (rest none)) :
      Along (Linked rel Engine.outcome) (Search.solveFull setting >>= rest) := by
    refine h.solveFull.bind fun ended => ?_
    cases ended with
    | some outcome =>
      rw [hended]
      exact .of_pure _
    | none => exact hgo
  refine Search.along_workspace.bind fun _ => ?_
  refine (Search.along_onWorkspace (h.evaluateBoth _)).bind fun _ => .ite ?_ ?_
  · exact (h.noted _).bind fun _ => .of_pure _
  refine Search.along_solver.bind fun _ => (Search.along_setSolver _).bind fun _ => ?_
  refine .ite (h.gradientStep.bind fun ended => ?_) (hfull (fun _ => rfl) hloop)
  cases ended with
  | some outcome => exact .of_pure _
  | none => exact hfull (fun _ => rfl) hloop

end AlongSearch

end NonsmoothDescent
