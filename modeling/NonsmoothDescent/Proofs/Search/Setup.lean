import NonsmoothDescent.Proofs.Search.Advance

/-!
# What solves do to the solver

A cold solve replaces the planes and forgets what was saved of the last weights; a warm
one puts planes behind the old ones and saves the last weights. No other step touches
the solver. So what a search has set up before its first solve stays, and what every
solve establishes holds from the first one on.
-/

namespace NonsmoothDescent

variable {α : Type} [Scalar α]

namespace Solver

/-- The solver with planes taken in for a solve: cold in place of the old ones, warm
behind them. -/
def given (s : Solver α) (warm : Bool) (planes : List (Plane α)) : Solver α :=
  if warm then s.extended planes else s.loaded planes

/-- Two solvers are set up alike. -/
structure Alike (s s' : Solver α) : Prop where
  bound_eq : s'.subproblem.bound = s.subproblem.bound
  inexactness_eq : s'.inexactness = s.inexactness
  drill_eq_none : s.drill = none → s'.drill = none

namespace Alike

variable {s s' s'' : Solver α}

/-- A solver is set up like itself. -/
@[refl] theorem refl (s : Solver α) : Alike s s := ⟨rfl, rfl, id⟩

/-- Solvers that are set up like one are set up alike. -/
theorem trans (h : Alike s s') (h' : Alike s' s'') : Alike s s'' where
  bound_eq := h'.bound_eq.trans h.bound_eq
  inexactness_eq := h'.inexactness_eq.trans h.inexactness_eq
  drill_eq_none hnone := h'.drill_eq_none (h.drill_eq_none hnone)

/-- Taking planes in leaves the setup. -/
theorem given (s : Solver α) (warm : Bool) (planes : List (Plane α)) :
    Alike s (s.given warm planes) := by
  cases warm
  · refine ⟨rfl, rfl, fun hnone => ?_⟩
    change s.drill.map _ = none
    rw [hnone]
    rfl
  · exact ⟨rfl, rfl, id⟩

/-- A solve leaves the setup. -/
theorem solveBy (s : Solver α) (warm : Bool) (ask : Request α → Answer α) :
    Alike s (s.solveBy warm ask).solver where
  bound_eq := by rw [solveBy_subproblem]
  inexactness_eq := s.solveBy_inexactness warm ask
  drill_eq_none := s.solveBy_drill_eq_none warm ask

end Alike

end Solver

section Solves

variable (setting : Setting α) (planes : List (Plane α)) (active : ActiveCuts α)
  (s : SearchState α)

/-- The questions of the next solve go to the minimizer after all that were asked. -/
abbrev Moment.ask (setting : Setting α) (m : Moment α) : Request α → Answer α :=
  setting.minimizer m.engine.consultations

/-- A cold solve is made by the solver with the planes in place of its own. -/
theorem solver_resolved : (s.resolved setting planes active).solver =
    ((s.solver.given false planes).solveBy false (s.ask setting)).solver := by
  have hloaded := s.solver_loaded planes active
  change ((s.loaded planes active).solved setting false).solver = _
  rw [Moment.solver_solved, Moment.answer, hloaded]
  rfl

/-- A warm solve is made by the solver with the planes behind its own. -/
theorem solver_continued : (s.continued setting planes).solver =
    ((s.solver.given true planes).solveBy true (s.ask setting)).solver := by
  have hextended := s.solver_extended planes
  change ((s.extended planes).solved setting true).solver = _
  rw [Moment.solver_solved, Moment.answer, hextended]
  rfl

/-- After a cold solve the subproblem has the planes that were given. -/
theorem subproblem_resolved : (s.resolved setting planes active).solver.subproblem =
    { s.solver.subproblem with planes } := by
  rw [solver_resolved, Solver.solveBy_subproblem]
  rfl

/-- After a cold solve no weights are kept. -/
theorem saved_resolved : (s.resolved setting planes active).solver.saved = none := by
  rw [solver_resolved, Solver.solveBy_saved]
  rfl

/-- After a warm solve the subproblem has the planes behind the old ones. -/
theorem subproblem_continued : (s.continued setting planes).solver.subproblem =
    { s.solver.subproblem with planes := s.solver.subproblem.planes ++ planes } := by
  rw [solver_continued, Solver.solveBy_subproblem]
  rfl

/-- After a warm solve the weights before it are kept, if there are any. -/
theorem saved_continued : (s.continued setting planes).solver.saved =
    if s.solver.weights.isEmpty then none else some s.solver.weights := by
  rw [solver_continued, Solver.solveBy_saved]
  rfl

end Solves

/-- Before the first solve of a search. -/
def Stage.Unsolved : Stage α → Prop
  | .ready | .opened => True
  | _ => False

section Steps

variable {setting : Setting α} {a b : Stage α} {s s' start : SearchState α}

/-- A step that makes a solve gives planes to the old solver and solves. -/
theorem Step.solver_solveBy (hstep : Step setting a s b s') (h : Inv setting a s.toMoment)
    (hb : b.gain = 1) : ∃ warm planes ask,
      s'.solver = ((s.solver.given warm planes).solveBy warm ask).solver := by
  cases hstep with
  | solveGradient | solveAggregated => exact ⟨false, _, _, solver_resolved ..⟩
  | @solveFull _ s₁ s₂ cuts planes hcollect hnote hplanes =>
    have hk := ((Search.collectCuts_leads h.base.toSound).of_run hcollect).1.toKeeps.trans
      (keeps_of_note setting.oracle hnote)
    have hsolver : (s₂.withEngine (·.collected cuts)).solver = s.solver :=
      (solver_withEngine _ rfl).trans hk.solver_eq'
    exact ⟨false, planes, _, hsolver ▸ solver_resolved ..⟩
  | fallBack _ _ _ hnote | solveSwitching _ _ hnote =>
    have hsolver := (keeps_of_note setting.oracle hnote).solver_eq'
    exact ⟨false, _, _, hsolver ▸ solver_resolved ..⟩
  | solveWarm => exact ⟨true, _, _, solver_continued ..⟩
  | _ => cases hb

/-- No step changes what was set up. -/
theorem Step.alike (hstep : Step setting a s b s') (h : Inv setting a s.toMoment) :
    s.solver.Alike s'.solver := by
  rcases b.gain_eq with hb | hb
  · rw [hstep.solver_eq h hb]
  · obtain ⟨warm, planes, ask, hsolver⟩ := hstep.solver_solveBy h hb
    rw [hsolver]
    exact (Solver.Alike.given _ warm planes).trans (.solveBy _ warm ask)

/-- Whatever the search does, the solver stays set up as it was. -/
theorem Reached.alike (hinv : Inv setting .ready start.toMoment)
    (h : Reached setting start b s) : start.solver.Alike s.solver := by
  induction h with
  | start => exact .refl _
  | step hreached hstep ih => exact ih.trans (hstep.alike (hreached.inv hinv))

/-- A step without a solve does not lead beyond the first solve. -/
theorem Step.unsolved (hstep : Step setting a s b s') (ha : a.Unsolved) (hb : b.gain = 0) :
    b.Unsolved := by
  cases hstep with
  | omitGradient => trivial
  | solveGradient | solveFull => cases hb
  | _ => exact ha.elim

/-- What every solve establishes holds from the first solve on. -/
theorem Reached.of_solves {P : Solver α → Prop}
    (hP : ∀ (solver : Solver α) (warm : Bool) ask, P (solver.solveBy warm ask).solver)
    (hinv : Inv setting .ready start.toMoment) (h : Reached setting start b s)
    (hb : ¬ b.Unsolved) : P s.solver := by
  induction h with
  | start => exact absurd trivial hb
  | @step a b s s' hreached hstep ih =>
    rcases b.gain_eq with hgain | hgain
    · rw [hstep.solver_eq (hreached.inv hinv) hgain]
      exact ih fun ha => hb (hstep.unsolved ha hgain)
    · obtain ⟨warm, planes, ask, hsolver⟩ := hstep.solver_solveBy (hreached.inv hinv) hgain
      rw [hsolver]
      exact hP _ warm ask

end Steps

end NonsmoothDescent
