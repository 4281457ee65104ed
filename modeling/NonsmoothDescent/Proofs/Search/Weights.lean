import NonsmoothDescent.Proofs.Search.Advance

/-!
# Weights during a search

In exact arithmetic the solver's weights are a weighting of its planes after every solve
that succeeds, and after every solve on one plane. A search begins a round only after
such a solve, so throughout a round the solver is weighted.
-/

namespace NonsmoothDescent

variable {K : Type} [Field K] [LinearOrder K] [FloorRing K]

/-- A solve on the plane at the current point alone. -/
inductive SolveKind.Single : SolveKind K → Prop where
  | gradient : Single .gradient
  | fallback (plane : Plane K) (first : Bool) : Single (.fallback plane first)

/-- The stages at which the solver is weighted. -/
def Stage.Weighs : Stage K → Solver K → Prop
  | .ready, _ | .opened, _ | .ended _, _ => True
  | .solved kind, s => s.status = .success ∨ kind.Single → s.Weighted
  | _, s => s.Weighted

section Weights

variable [IsStrictOrderedRing K] {setting : Setting K} {a b : Stage K}
  {s s' start : SearchState K}

/-- A solve that succeeds, or has one plane, leaves a weighting. -/
theorem weighted_solved {warm : Bool} {m : Moment K}
    (h : (m.solved setting warm).solver.status = .success ∨ m.solver.cuts = 1) :
    (m.solved setting warm).solver.Weighted := by
  rw [Moment.solver_solved] at *
  rcases h with hsuccess | hone
  · exact Solver.weighted_of_success hsuccess
  · exact Solver.weighted_of_cuts_eq_one hone

/-- So does a cold solve on new planes. -/
theorem weighted_resolved {planes : List (Plane K)} {active : ActiveCuts K}
    (h : (s.resolved setting planes active).solver.status = .success ∨ planes.length = 1) :
    (s.resolved setting planes active).solver.Weighted := by
  refine weighted_solved (h.imp id fun hone => ?_)
  change (s.loaded planes active).solver.cuts = 1
  rw [Moment.solver_loaded]
  exact hone

/-- Each step leaves a weighting where the next stage needs one. -/
theorem Stage.Weighs.step (h : a.Weighs s.solver) (hinv : Inv setting a s.toMoment)
    (hstep : Step setting a s b s') : b.Weighs s'.solver := by
  have hsame := hstep.solver_eq hinv
  cases hstep with
  | solveGradient => exact fun _ => weighted_resolved (.inr rfl)
  | fallBack => exact fun _ => weighted_resolved (.inr rfl)
  | solveFull | solveAggregated | solveSwitching =>
    rintro (hsuccess | hsingle)
    · exact weighted_resolved (.inl hsuccess)
    · cases hsingle
  | solveWarm =>
    rintro (hsuccess | hsingle)
    · exact weighted_solved (.inl hsuccess)
    · cases hsingle
  | markSwitch =>
    rw [hsame rfl]
    rintro (hsuccess | hsingle)
    · exact h (.inl hsuccess)
    · cases hsingle
  | enterLoop hstatus => exact hsame rfl ▸ h (.inl hstatus)
  | nextRound hkind hstatus => exact h (.inl hstatus)
  | restart hnote => exact hsame rfl ▸ h (.inr (.fallback _ _))
  | testGradient htry => exact hsame rfl ▸ h (.inr .gradient)
  | acceptGradient | rejectGradient | omitGradient | failSolver | failTrial | acceptFull
  | reachLimit | runOut | acceptShort => trivial
  | _ => exact hsame rfl ▸ h

/-- The solver is weighted throughout a search. -/
theorem Reached.weighs (hinv : Inv setting .ready start.toMoment)
    (h : Reached setting start b s) : b.Weighs s.solver := by
  induction h with
  | start => trivial
  | step hreached hstep ih => exact ih.step (hreached.inv hinv) hstep

end Weights

end NonsmoothDescent
