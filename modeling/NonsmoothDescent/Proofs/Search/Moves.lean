import NonsmoothDescent.Proofs.Workspace.Cuts
import NonsmoothDescent.Search.Step

/-!
# Moves of a direction search

What the single operations of a search do to its state, as functions of that state:
loading planes, solving and taking the step, and asking the radius rule. Each operation
succeeds as soon as the cuts denote planes and the current point has one entry per
variable, and its run is the function.
-/

namespace NonsmoothDescent

variable {α : Type} [Scalar α]

namespace Engine

/-- The solver of an engine always fits the number of variables asked for. -/
theorem dimension_solverFor (e : Engine α) (n : Nat) : (e.solverFor n).dimension = n := by
  unfold solverFor
  split
  · split
    · assumption
    · rfl
  · rfl

/-- An engine whose solver fits gives this one. -/
theorem solverFor_of_some {e : Engine α} {s : Solver α} {n : Nat} (he : e.solver = some s)
    (hs : s.dimension = n) : e.solverFor n = s := by
  unfold solverFor
  rw [he]
  exact if_pos hs

end Engine

namespace Moment

/-- The solver of the moment. -/
def solver (m : Moment α) : Solver α := m.engine.solverFor m.workspace.dimension

/-- The solver fits the workspace. -/
theorem dimension_solver (m : Moment α) : m.solver.dimension = m.workspace.dimension :=
  m.engine.dimension_solverFor _

/-- The combination of the solver's planes with its weights. -/
def combined (m : Moment α) : Plane α :=
  Subproblem.mix m.workspace.dimension m.solver.subproblem.planes m.solver.weights

/-- The moment with planes in place of the solver's, and other active cuts. -/
def loaded (m : Moment α) (planes : List (Plane α)) (active : ActiveCuts α) : Moment α :=
  { m with engine := { m.engine with solver := some (m.solver.loaded planes), active } }

/-- The moment with planes behind the solver's, and the full cuts as the active ones. -/
def extended (m : Moment α) (planes : List (Plane α)) : Moment α :=
  { m with engine := { m.engine with solver := some (m.solver.extended planes), active := .full } }

/-- The solve that is made next, cold or warm. -/
def answer (setting : Setting α) (warm : Bool) (m : Moment α) : Solver.Solved α :=
  m.solver.solveBy warm (setting.minimizer m.engine.consultations)

/-- The workspace with the work of a solve counted and its step as direction. -/
def directed (w : Workspace α) (s : Solver α) : Workspace α :=
  { w with
    minimizerIterations := w.minimizerIterations + s.iterations
    innerIterations := w.innerIterations + 1
    direction := s.step }

/-- The workspace after a step was taken: direction and trial point are those of the
solver's step. -/
def stepped (w : Workspace α) (s : Solver α) : Workspace α := (directed w s).withTrial 1

/-- The moment after the result of a solve was stored and its step taken. -/
def stored (made : Solver.Solved α) (m : Moment α) : Moment α :=
  { workspace := stepped { m.workspace with notices := m.workspace.notices ++ made.notices }
      made.solver
    engine := { m.engine with
      solver := some made.solver
      consultations := m.engine.consultations + (if made.consultation.isSome then 1 else 0)
      solves := m.engine.solves + 1 } }

/-- The moment after a solve and its step. -/
def solved (setting : Setting α) (warm : Bool) (m : Moment α) : Moment α :=
  m.stored (m.answer setting warm)

/-- The moment after the radius rule was asked. -/
def asked (setting : Setting α) (m : Moment α) : Moment α :=
  let norm := m.solver.combinationNormInf
  let (ruleRecord, radii) :=
    setting.rule.ask m.engine.ruleRecord m.workspace.radii m.solver.status norm
  { workspace :=
      { m.workspace with
        radii
        notices :=
          if ruleRecord.fired then
            m.workspace.notices ++ [Notice.radiiUpdated norm radii.stationarity]
          else m.workspace.notices }
    engine := { m.engine with ruleRecord } }

/-- Whether a trial is accepted once the rule was asked. -/
def accepting (setting : Setting α) (evaluated : Bool) (stepsize : α) (m : Moment α) : Bool :=
  (evaluated && Search.decreases setting.options m.workspace m.solver stepsize) ||
    m.engine.ruleRecord.fired

/-- After planes were loaded the solver is the one with these planes. -/
@[simp] theorem solver_loaded (m : Moment α) (planes : List (Plane α)) (active : ActiveCuts α) :
    (m.loaded planes active).solver = m.solver.loaded planes :=
  Engine.solverFor_of_some rfl m.dimension_solver

/-- After planes were added the solver is the one with these behind its own. -/
@[simp] theorem solver_extended (m : Moment α) (planes : List (Plane α)) :
    (m.extended planes).solver = m.solver.extended planes :=
  Engine.solverFor_of_some rfl m.dimension_solver

/-- A solve leaves a solver that fits the workspace. -/
theorem dimension_answer (setting : Setting α) (warm : Bool) (m : Moment α) :
    (m.answer setting warm).solver.dimension = m.workspace.dimension := by
  unfold Solver.dimension answer
  rw [Solver.solveBy_subproblem]
  exact m.dimension_solver

/-- After a solve the solver is the one that the solve has left. -/
@[simp] theorem solver_solved (setting : Setting α) (warm : Bool) (m : Moment α) :
    (m.solved setting warm).solver = (m.answer setting warm).solver :=
  Engine.solverFor_of_some rfl (m.dimension_answer setting warm)

end Moment

namespace SearchState

/-- The state at another moment, with the same journal. -/
def on (s : SearchState α) (m : Moment α) : SearchState α := { s with toMoment := m }

/-- The state with a changed engine. -/
def withEngine (s : SearchState α) (f : Engine α → Engine α) : SearchState α :=
  { s with engine := f s.engine }

/-- The state with an event at its moment written to the journal. -/
def logged (s : SearchState α) (event : Moment α → Event α) : SearchState α :=
  { s with journal := s.journal.push (event s.toMoment) }

/-- The state after the result of a solve was stored: the journal tells what the
minimizer was asked, if it was, and that the solve was made. -/
def stored (made : Solver.Solved α) (s : SearchState α) : SearchState α :=
  { toMoment := s.toMoment.stored made
    journal := (s.journal ++ (made.consultation.map Event.consulted).toList).push
      (.solved (s.toMoment.stored made)) }

/-- The state after a solve. -/
def solved (setting : Setting α) (warm : Bool) (s : SearchState α) : SearchState α :=
  s.stored (s.answer setting warm)

end SearchState

namespace Search

section Runs

variable {s : SearchState α}

/-- An operation on the workspace that succeeds changes nothing else. -/
theorem onWorkspace_ok {β : Type} {act : WorkspaceM α β} {b : β} {w : Workspace α}
    (h : act s.workspace = .ok b w) :
    onWorkspace act s = .ok b { s with workspace := w } := by
  unfold onWorkspace
  rw [h]

/-- A value goes on. -/
theorem orFault_ok {β : Type} {result : Except (Fault α) β} {b : β} (h : result = .ok b) :
    orFault result s = .ok b s := by
  subst h
  rfl

/-- A fault stops. -/
theorem orFault_error {β : Type} {result : Except (Fault α) β} {fault : Fault α}
    (h : result = .error fault) : orFault result s = .error fault s := by
  subst h
  rfl

/-- Reading the workspace changes nothing. -/
theorem workspace_run (s : SearchState α) : workspace s = .ok s.workspace s := rfl

/-- Reading the solver changes nothing. -/
theorem solver_run (s : SearchState α) : solver s = .ok s.solver s := rfl

/-- Reading the engine changes nothing. -/
theorem engine_run (s : SearchState α) : engine s = .ok s.engine s := rfl

/-- Cuts that denote planes are loaded as these planes. -/
theorem load_run {cuts : List (Cut α)} {planes : List (Plane α)}
    (h : Cut.DenoteAll s.workspace cuts planes) (active : ActiveCuts α) :
    load cuts active s = .ok () (s.on (s.loaded planes active)) := by
  have hslopes := h.mapM_coefficient
  have hload : s.solver.load (planes.map Plane.slope) (cuts.map Cut.bias) =
      .ok (s.solver.loaded planes) := by
    rw [h.map_bias]
    exact Solver.load_eq fun p hp => (h.length_slope p hp).trans s.dimension_solver.symm
  unfold load
  rw [bind_of_ok (workspace_run s), bind_of_ok (orFault_ok hslopes), bind_of_ok (solver_run s),
    bind_of_ok (orFault_ok hload)]
  rfl

/-- The solver takes the planes that new cuts denote. -/
theorem extend_eq {cuts : List (Cut α)} {planes : List (Plane α)}
    (h : Cut.DenoteAll s.workspace cuts planes) :
    s.solver.extend (planes.map Plane.slope) (cuts.map Cut.bias) =
      .ok (s.solver.extended planes) := by
  rw [h.map_bias]
  exact Solver.extend_eq fun p hp => (h.length_slope p hp).trans s.dimension_solver.symm

/-- A step of the right length is taken: it is the direction, and the trial point is made. -/
theorem takeStep_run {w : Workspace α} {solver : Solver α}
    (hc : w.currentSample.position.length = w.dimension)
    (hs : solver.step.length = w.dimension) :
    takeStep solver w = .ok () (Moment.stepped w solver) := by
  let counted : Workspace α :=
    { w with
      minimizerIterations := w.minimizerIterations + solver.iterations
      innerIterations := w.innerIterations + 1 }
  have hdirection : Workspace.setDirection (Tensor.ofVector solver.step) counted =
      .ok () { counted with direction := solver.step } := by
    have hfill : Tensor.fill? counted.dimension (Tensor.ofVector solver.step) =
        some solver.step := Tensor.fill?_vector hs
    have hget : (get : WorkspaceM α (Workspace α)) counted = .ok counted counted := rfl
    unfold Workspace.setDirection
    rw [bind_of_ok hget, hfill]
    rfl
  change (Workspace.setDirection (Tensor.ofVector solver.step) >>= fun _ =>
    Workspace.makeTrial 1) counted = _
  rw [bind_of_ok hdirection]
  exact Workspace.makeTrial_eq 1 hc hs

/-- What a search does with the result of a solve. -/
def store (made : Solver.Solved α) : SearchM α SolveStatus := do
  setSolver made.solver
  note made.notices
  if let some consultation := made.consultation then
    modifyEngine fun e => { e with consultations := e.consultations + 1 }
    record fun _ => .consulted consultation
  modifyEngine fun e => { e with solves := e.solves + 1 }
  onWorkspace (takeStep made.solver)
  record .solved
  return made.solver.status

/-- What a solve has made is stored, with its step taken. -/
theorem store_run {made : Solver.Solved α}
    (hc : s.workspace.currentSample.position.length = s.workspace.dimension)
    (hs : made.solver.step.length = s.workspace.dimension) :
    store made s = .ok made.solver.status (s.stored made) := by
  obtain ⟨solver, consultation, notices⟩ := made
  let w : Workspace α := { s.workspace with notices := s.workspace.notices ++ notices }
  have hstep : takeStep solver w = .ok () (Moment.stepped w solver) := takeStep_run hc hs
  cases consultation with
  | none =>
    let t : SearchState α :=
      { workspace := w
        engine := { s.engine with solver := some solver, solves := s.engine.solves + 1 }
        journal := s.journal }
    have htake := onWorkspace_ok (s := t) hstep
    change (onWorkspace (takeStep solver) >>= fun _ => record .solved >>= fun _ =>
      pure solver.status) t = _
    rw [bind_of_ok htake]
    rfl
  | some consultation =>
    let t : SearchState α :=
      { workspace := w
        engine := { s.engine with
          solver := some solver
          consultations := s.engine.consultations + 1
          solves := s.engine.solves + 1 }
        journal := s.journal.push (.consulted consultation) }
    have htake := onWorkspace_ok (s := t) hstep
    change (onWorkspace (takeStep solver) >>= fun _ => record .solved >>= fun _ =>
      pure solver.status) t = _
    rw [bind_of_ok htake]
    rfl

/-- On planes of the right length a solve succeeds, with the status it has. -/
theorem solve_run (setting : Setting α) (warm : Bool)
    (hc : s.workspace.currentSample.position.length = s.workspace.dimension)
    (hp : s.solver.subproblem.WellFormed) :
    solve setting warm s =
      .ok (s.solved setting warm).solver.status (s.solved setting warm) := by
  have hstep : (s.answer setting warm).solver.step.length = s.workspace.dimension :=
    (Solver.length_solveBy_step _ warm _ hp).trans s.dimension_solver
  have hsolver : (s.solved setting warm).solver = (s.answer setting warm).solver :=
    Moment.solver_solved setting warm s.toMoment
  rw [hsolver]
  exact store_run hc hstep

/-- The radius rule is asked, and the answer is whether it fires. -/
theorem askRule_run (setting : Setting α) (s : SearchState α) :
    askRule setting s =
      .ok (s.asked setting).engine.ruleRecord.fired (s.on (s.asked setting)) := by
  unfold askRule Moment.asked
  rw [bind_of_ok (solver_run s), bind_of_ok (engine_run s), bind_of_ok (workspace_run s)]
  dsimp only
  generalize setting.rule.ask s.engine.ruleRecord s.workspace.radii s.solver.status
    s.solver.combinationNormInf = answer
  obtain ⟨ruleRecord, radii⟩ := answer
  obtain ⟨checks, fired⟩ := ruleRecord
  cases fired <;> rfl

/-- A test asks the rule, is recorded, and passes by decrease or by the rule. -/
theorem accepts_run (setting : Setting α) (evaluated : Bool) (stepsize : α)
    (s : SearchState α) :
    accepts setting evaluated stepsize s =
      .ok ((s.asked setting).accepting setting evaluated stepsize)
        ((s.on (s.asked setting)).logged (.tested · evaluated)) := by
  unfold accepts
  rw [bind_of_ok (askRule_run setting s)]
  rfl

end Runs

end Search

end NonsmoothDescent
