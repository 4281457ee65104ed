import NonsmoothDescent.Proofs.Search.Alignment

/-!
# What escapes a search

Whatever objective, gradient, minimizer, rule and clock do, a call either returns one of
four outcomes or stops at the time limit, and in both cases the search is accounted for.
One fault escapes besides: where aggregation would end at a number of points that is not
finite, that number cannot be formed when the search solves again. Then nothing is
accounted for, and the outcome is left unset.
-/

namespace NonsmoothDescent

variable {α : Type} [Scalar α]

/-- The outcomes that a call returns. -/
def Outcome.returned : List Outcome :=
  [.success, .evaluationFailure, .iterationLimit, .solverFailure]

/-- A search ends with one of these outcomes, or at the time limit. -/
theorem Step.outcome_mem {setting : Setting α} {a : Stage α} {s s' : SearchState α}
    {outcome : Outcome} (hstep : Step setting a s (.ended outcome) s')
    (htime : outcome ≠ .timeLimit) : outcome ∈ Outcome.returned := by
  generalize hb : Stage.ended outcome = b at hstep
  cases hstep with
  | acceptGradient | failSolver | failTrial | acceptFull | acceptShort =>
    cases hb
    decide
  | runOut =>
    cases hb
    exact absurd rfl htime
  | reachLimit =>
    cases hb
    split <;> decide
  | _ => cases hb

/-- A search has ended with one of these outcomes, or at the time limit. -/
theorem Reached.outcome_mem {setting : Setting α} {start s : SearchState α} {outcome : Outcome}
    (h : Reached setting start (.ended outcome) s) (htime : outcome ≠ .timeLimit) :
    outcome ∈ Outcome.returned := by
  obtain _ | ⟨_, hstep⟩ := h
  exact hstep.outcome_mem htime

/-- The number of points at which aggregation ends is too large to be formed only if it
is not finite. -/
theorem isFinite_eq_false_of_overflows {setting : Setting α} {entry start s : SearchState α}
    (hopens : Opens setting entry start) (h : Overflows setting start s) :
    Scalar.isFinite (setting.options.aggregationThreshold *
      Scalar.ofInt entry.workspace.dimension) = false := by
  obtain ⟨hthreshold, _, _, hreached⟩ := h
  have hdimension : s.workspace.dimension = entry.workspace.dimension :=
    (hopens.grows.trans (hreached.grows hopens.inv)).dimension_eq
  rw [hdimension] at hthreshold
  exact isFinite_of_pointThreshold_error hthreshold

/-- A call returns one of four outcomes, or stops at the time limit, and is accounted
for. Any other fault is that of a number of points that is not finite; then accounts and
outcome are as they were when the search began. -/
theorem only_time_limit_escapes {setting : Setting α} {entry : SearchState α}
    (hw : entry.workspace.WellFormed setting.oracle) :
    (∀ outcome s, Search.computeDirection setting entry = .ok outcome s →
      outcome ∈ Outcome.returned ∧ Accounted setting entry outcome s) ∧
    ∀ fault s, Search.computeDirection setting entry = .error fault s →
      (fault = .timeLimitReached ∧ Accounted setting entry .timeLimit s) ∨
      (fault = .tooLarge ∧
        Scalar.isFinite (setting.options.aggregationThreshold *
          Scalar.ofInt entry.workspace.dimension) = false ∧
        s.ledger = (entry.workspace.accounts, .unset)) := by
  have hcall := Search.computeDirection_cases hw
  refine ⟨fun outcome s hresult => ?_, fun fault s hresult => ?_⟩
  · rw [hresult] at hcall
    cases hcall with
    | unevaluated _ _ _ haccounted => exact ⟨by decide, haccounted⟩
    | ended _ hreached _ htime haccounted => exact ⟨hreached.outcome_mem htime, haccounted⟩
  · rw [hresult] at hcall
    cases hcall with
    | timeUp _ _ _ haccounted => exact .inl ⟨rfl, haccounted⟩
    | overflowed hopens hoverflows hledger =>
      exact .inr ⟨rfl, isFinite_eq_false_of_overflows hopens hoverflows, hledger⟩

section Overflow

/-- The search stops after one solve, which no total counts. -/
theorem overflow_escapes :
    ∃ s, Search.computeDirection overflowing overflowEntry = .error .tooLarge s ∧
      s.workspace.innerIterations = 1 ∧
      Scalar.isFinite (overflowing.options.aggregationThreshold *
        Scalar.ofInt overflowEntry.workspace.dimension) = false ∧
      s.ledger = (overflowEntry.workspace.accounts, .unset) := by
  have hfault : (match Search.computeDirection overflowing overflowEntry with
      | .error .tooLarge s => decide (s.workspace.innerIterations = 1)
      | _ => false) = true := by
    decide +kernel
  cases hresult : Search.computeDirection overflowing overflowEntry with
  | ok outcome s =>
    rw [hresult] at hfault
    cases hfault
  | error fault s =>
    rw [hresult] at hfault
    obtain ⟨rfl, _⟩ | ⟨rfl, hfinite, hledger⟩ :=
      (only_time_limit_escapes wellFormed_overflowEntry).2 fault s hresult
    · cases hfault
    · exact ⟨s, rfl, of_decide_eq_true hfault, hfinite, hledger⟩

end Overflow

end NonsmoothDescent
