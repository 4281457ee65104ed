import NonsmoothDescent.Options.Reader
import NonsmoothDescent.Problem.Formula
import NonsmoothDescent.Subproblem.ActiveSet
import NonsmoothDescent.Descent
import NonsmoothDescent.Proofs.Scalar
import NonsmoothDescent.Proofs.Vec
import NonsmoothDescent.Proofs.Double
import NonsmoothDescent.Proofs.Options
import NonsmoothDescent.Proofs.Options.Spelling
import NonsmoothDescent.Proofs.Options.Mapping
import NonsmoothDescent.Proofs.Options.Values
import NonsmoothDescent.Proofs.Options.Reading
import NonsmoothDescent.Proofs.Problem.Differences
import NonsmoothDescent.Proofs.Action
import NonsmoothDescent.Proofs.Tandem
import NonsmoothDescent.Proofs.Subproblem.Duality
import NonsmoothDescent.Proofs.Subproblem.Solve
import NonsmoothDescent.Proofs.Subproblem.Certificate
import NonsmoothDescent.Proofs.Subproblem.Hull
import NonsmoothDescent.Proofs.Subproblem.Transfer
import NonsmoothDescent.Proofs.Subproblem.Model
import NonsmoothDescent.Proofs.Subproblem.Session
import NonsmoothDescent.Proofs.Subproblem.Outcome
import NonsmoothDescent.Proofs.Subproblem.Batches
import NonsmoothDescent.Proofs.Subproblem.Derivative
import NonsmoothDescent.Proofs.Workspace.Growth
import NonsmoothDescent.Proofs.Workspace.Operations
import NonsmoothDescent.Proofs.Workspace.Cuts
import NonsmoothDescent.Proofs.Workspace.Sampling
import NonsmoothDescent.Proofs.Workspace.Pairing
import NonsmoothDescent.Proofs.Workspace.Tandem
import NonsmoothDescent.Proofs.Workspace.Memory
import NonsmoothDescent.Proofs.Workspace.Visits
import NonsmoothDescent.Proofs.Search.Moves
import NonsmoothDescent.Proofs.Search.Quiet
import NonsmoothDescent.Proofs.Search.Transition
import NonsmoothDescent.Proofs.Search.Invariant
import NonsmoothDescent.Proofs.Search.Effects
import NonsmoothDescent.Proofs.Search.Advance
import NonsmoothDescent.Proofs.Search.Holdings
import NonsmoothDescent.Proofs.Search.Course
import NonsmoothDescent.Proofs.Search.Setup
import NonsmoothDescent.Proofs.Search.Ledger
import NonsmoothDescent.Proofs.Search.Notices
import NonsmoothDescent.Proofs.Search.Run
import NonsmoothDescent.Proofs.Search.Journal
import NonsmoothDescent.Proofs.Search.Order
import NonsmoothDescent.Proofs.Search.Alignment
import NonsmoothDescent.Proofs.Search.Escape
import NonsmoothDescent.Proofs.Search.Weights
import NonsmoothDescent.Proofs.Search.Trial
import NonsmoothDescent.Proofs.Search.Meaning
import NonsmoothDescent.Proofs.Search.Provenance
import NonsmoothDescent.Proofs.Search.Law
import NonsmoothDescent.Proofs.Search.Stationarity
import NonsmoothDescent.Proofs.Search.Budget
import NonsmoothDescent.Proofs.Search.Backing
import NonsmoothDescent.Proofs.Search.Succession
import NonsmoothDescent.Proofs.Search.Anchor
import NonsmoothDescent.Proofs.Search.Radii
import NonsmoothDescent.Proofs.Search.History
import NonsmoothDescent.Proofs.Search.Coherence
import NonsmoothDescent.Proofs.Search.References
import NonsmoothDescent.Proofs.Search.Split
import NonsmoothDescent.Proofs.Search.Reporting
import NonsmoothDescent.Proofs.Search.Resolve
import NonsmoothDescent.Proofs.Search.Validation
import NonsmoothDescent.Proofs.Search.Minorant
import NonsmoothDescent.Proofs.Search.Decision
import NonsmoothDescent.Proofs.Search.Cutoff
import NonsmoothDescent.Proofs.Search.Switching
import NonsmoothDescent.Proofs.Search.Twins
import NonsmoothDescent.Proofs.Search.Lockstep
import NonsmoothDescent.Proofs.Search.Endings
import NonsmoothDescent.Proofs.Search.Policies
import NonsmoothDescent.Proofs.Search.Reuse
import NonsmoothDescent.Proofs.Search.Precheck
import NonsmoothDescent.Proofs.Search.Memory
import NonsmoothDescent.Proofs.Search.Neighbours
import NonsmoothDescent.Proofs.Search.Vicinity
import NonsmoothDescent.Proofs.Search.Renaming
import NonsmoothDescent.Proofs.Search.Irrelevance
import NonsmoothDescent.Proofs.Descent.LineSearch
import NonsmoothDescent.Proofs.Descent.Backtracking
import NonsmoothDescent.Proofs.Descent.Iteration
import NonsmoothDescent.Proofs.Descent.Progress
