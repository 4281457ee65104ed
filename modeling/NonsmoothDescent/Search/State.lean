import NonsmoothDescent.Options.Basic
import NonsmoothDescent.Subproblem.Solver
import NonsmoothDescent.Workspace

/-!
# The state of a direction search

A search works on the workspace that it shares with the outer solver and on an
engine of its own: a solver, two lists of cuts, counters and a report. The full cuts
hold every cut of the search. The aggregated cuts are a short list that takes their
place while aggregation goes on. The active cuts are those that the solver works on:
one of the two lists, or a list of their own.

A journal keeps the moments at which the search solved, tested a step or began a
round, with the whole state at that moment, and what the minimizer was asked.
-/

namespace NonsmoothDescent

/-- The cuts that the solver works on. -/
inductive ActiveCuts (α : Type) where
  /-- The full cuts. -/
  | full
  /-- The aggregated cuts. -/
  | aggregated
  /-- Cuts that are neither list. -/
  | own (cuts : List (Cut α))

/-- The engine of a direction search. It is kept from one search to the next. -/
structure Engine (α : Type) [Scalar α] where
  /-- The solver; one is made on first use if there is none. -/
  solver : Option (Solver α) := none
  /-- How the last search ended. -/
  outcome : Outcome := .unset
  /-- Every cut of the search. -/
  fullCuts : List (Cut α) := []
  /-- The short list of cuts. -/
  aggregatedCuts : List (Cut α) := []
  /-- What the solver works on. -/
  active : ActiveCuts α := .own []
  /-- Whether the search has gone over from aggregated to full cuts. -/
  switched : Bool := false
  /-- Solves of this search. -/
  solves : Nat := 0
  /-- How the radius rule was asked, over all searches. -/
  ruleRecord : RuleRecord := {}
  /-- How often a minimizer was asked in all. -/
  consultations : Nat := 0
  /-- The progress report. -/
  report : Report (ProgressLine α) := {}

namespace Engine

variable {α : Type} [Scalar α]

/-- The solver for a number of variables: the engine's own if it fits, else a new one. -/
def solverFor (e : Engine α) (dimension : Nat) : Solver α :=
  match e.solver with
  | some s => if s.dimension = dimension then s else Solver.create dimension {} none
  | none => Solver.create dimension {} none

/-- The cuts that the solver works on. -/
def activeCuts (e : Engine α) : List (Cut α) :=
  match e.active with
  | .full => e.fullCuts
  | .aggregated => e.aggregatedCuts
  | .own cuts => cuts

/-- Replaces the aggregated cuts. If the old ones are active they stay so, on their own. -/
def replaceAggregated (e : Engine α) (cuts : List (Cut α)) : Engine α :=
  { e with
    aggregatedCuts := cuts
    active := match e.active with
      | .aggregated => .own e.aggregatedCuts
      | other => other }

end Engine

/-- The workspace and the engine at one moment. -/
structure Moment (α : Type) [Scalar α] where
  /-- The shared workspace. -/
  workspace : Workspace α
  /-- The engine. -/
  engine : Engine α

/-- An entry of the journal. -/
inductive Event (α : Type) [Scalar α] where
  /-- The minimizer was asked. -/
  | consulted (consultation : Consultation α)
  /-- A solve was made and its step taken. -/
  | solved (moment : Moment α)
  /-- An acceptance test was made; the flag tells whether the trial was evaluated. -/
  | tested (moment : Moment α) (evaluated : Bool)
  /-- A round of the inner loop began. -/
  | roundBegan (moment : Moment α)

/-- Workspace, engine and journal. -/
structure SearchState (α : Type) [Scalar α] extends Moment α where
  /-- What happened in this search. -/
  journal : Array (Event α) := #[]

/-- Everything that stays fixed during searches. -/
structure Setting (α : Type) [Scalar α] where
  /-- The objective. -/
  oracle : Oracle α
  /-- The options. -/
  options : Options α
  /-- The radius rule. -/
  rule : RadiusRule α
  /-- The clock, by number of readings before. -/
  clock : Nat → α
  /-- The minimizer. -/
  minimizer : Minimizer α

/-- Steps of a search. -/
abbrev SearchM (α : Type) [Scalar α] := EStateM (Fault α) (SearchState α)

namespace Search

variable {α β : Type} [Scalar α]

/-- Runs an operation on the workspace. -/
def onWorkspace (act : WorkspaceM α β) : SearchM α β := fun s =>
  match act s.workspace with
  | .ok value w => .ok value { s with workspace := w }
  | .error fault w => .error fault { s with workspace := w }

/-- The workspace. -/
def workspace : SearchM α (Workspace α) := return (← get).workspace

/-- The engine. -/
def engine : SearchM α (Engine α) := return (← get).engine

/-- Changes the engine. -/
def modifyEngine (f : Engine α → Engine α) : SearchM α Unit :=
  modify fun s => { s with engine := f s.engine }

/-- Records notices. -/
def note (notices : List (Notice α)) : SearchM α Unit := onWorkspace (Workspace.note notices)

/-- Stops with a fault, or goes on with a value. -/
def orFault (result : Except (Fault α) β) : SearchM α β := onWorkspace (Workspace.orFault result)

/-- Writes to the journal. -/
def record (event : Moment α → Event α) : SearchM α Unit :=
  modify fun s => { s with journal := s.journal.push (event s.toMoment) }

/-- The solver. -/
def solver : SearchM α (Solver α) := do
  let s ← get
  return s.engine.solverFor s.workspace.dimension

/-- Replaces the solver. -/
def setSolver (s : Solver α) : SearchM α Unit := modifyEngine fun e => { e with solver := some s }

/-- The questions put to the minimizer, with the answers, as far as the journal goes. -/
def consultations (journal : Array (Event α)) : List (Consultation α) :=
  journal.toList.filterMap fun
    | .consulted consultation => some consultation
    | _ => none

end Search

end NonsmoothDescent
