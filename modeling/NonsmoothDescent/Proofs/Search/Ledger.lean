import NonsmoothDescent.Proofs.Search.Frame

/-!
# What a search leaves to the account

While a search goes on, it touches neither the totals of the workspace, nor the time
spent in searches, nor the start and the end of the time that a run may take, nor the
outcome of the engine, however its operations come out. These are settled at the end, in
one place, and only there.
-/

namespace NonsmoothDescent

variable {α : Type}

/-- The totals and times of a workspace. -/
structure Accounts (α : Type) where
  /-- Inner iterations added up. -/
  innerIterations : Int
  /-- Minimizer iterations added up. -/
  minimizerIterations : Int
  /-- Time spent in direction searches. -/
  searchTime : α
  /-- Clock reading from which time is counted. -/
  startTime : α
  /-- Time that a run may take. -/
  timeLimit : α

/-- The totals and times of a workspace, as they stand. -/
def Workspace.accounts (w : Workspace α) : Accounts α :=
  ⟨w.totalInnerIterations, w.totalMinimizerIterations, w.searchTime, w.startTime, w.timeLimit⟩

/-- What is settled at the end of a search: the accounts and the outcome. -/
def SearchState.ledger [Scalar α] (s : SearchState α) : Accounts α × Outcome :=
  (s.workspace.accounts, s.engine.outcome)

/-- No operation of a search on its workspace touches totals and times. -/
theorem Workspace.along_accounts [Scalar α] (o : Oracle α) :
    AlongSearch o (SamePart Workspace.accounts) where
  objective _ _ := rfl
  gradient _ _ := rfl
  sample _ _ _ _ := rfl
  trial _ _ := rfl
  bundle _ _ := rfl
  notices _ _ := rfl
  clock _ _ := rfl
  direction _ _ := rfl
  counters _ _ _ := rfl
  radii _ _ := rfl

/-- The search proper touches neither the accounts nor the outcome, however it ends. -/
theorem Search.ledger_seek [Scalar α] (setting : Setting α) (s : SearchState α) :
    (finalState (seek setting s)).ledger = s.ledger :=
  have hlinked := (Workspace.along_accounts setting.oracle).seek s
  Prod.ext hlinked.workspace hlinked.engine

end NonsmoothDescent
