import NonsmoothDescent.Proofs.Search.Endings
import NonsmoothDescent.Proofs.Search.Succession

/-!
# Engines that are used again

An engine is kept from one call to the next, and with it the solver with its planes,
weights and step, the record of the radius rule, the cuts and the report. None of this shows
in a later call: whatever two engines have been used for, a call on the same workspace goes
alike with both as soon as their solvers have the same settings. What each of them has
reported before stays in front of the lines of the call. If the call makes no solve its
summary shows what is left of an earlier one.
-/

namespace NonsmoothDescent

variable {α : Type} [Scalar α]

/-- An engine that has served some calls, each of which came to its end, possibly at the
time limit. Between calls another solver may be put in. -/
inductive Engine.Served : Engine α → Prop where
  | fresh : Served {}
  | given {e : Engine α} (h : Served e) (solver : Option (Solver α)) :
      Served { e with solver }
  | ended {setting : Setting α} {s s' : SearchState α} {outcome : Outcome}
      (h : Served s.engine) (hw : s.workspace.WellFormed setting.oracle)
      (hr : Search.computeDirection setting s = .ok outcome s') : Served s'.engine
  | timeUp {setting : Setting α} {s s' : SearchState α}
      (h : Served s.engine) (hw : s.workspace.WellFormed setting.oracle)
      (hr : Search.computeDirection setting s = .error .timeLimitReached s') : Served s'.engine

/-- Between calls no line of the report waits to be emitted. -/
theorem Engine.Served.pending_eq {e : Engine α} (h : e.Served) : e.report.pending = #[] := by
  induction h with
  | fresh => rfl
  | given _ _ ih => exact ih
  | ended _ hw hr =>
    have hcall := Search.computeDirection_cases hw
    rw [hr] at hcall
    cases hcall with
    | unevaluated _ _ _ haccounted => exact haccounted.pending_eq
    | ended _ _ _ _ haccounted => exact haccounted.pending_eq
  | timeUp _ hw hr =>
    have hcall := Search.computeDirection_cases hw
    rw [hr] at hcall
    cases hcall with
    | timeUp _ _ _ haccounted => exact haccounted.pending_eq

/-- Two calls on the same workspace end the same: status, workspace, cuts, what the
minimizer was asked, and, if there was a solve, the lines that are new. -/
structure EndsAlike (s t s' t' : SearchState α) : Prop where
  workspace_eq : t'.workspace = { s'.workspace with notices := t'.workspace.notices }
  outcome_eq : t'.engine.outcome = s'.engine.outcome
  fullCuts_eq : t'.engine.fullCuts = s'.engine.fullCuts
  aggregatedCuts_eq : t'.engine.aggregatedCuts = s'.engine.aggregatedCuts
  activeCuts_eq : t'.engine.activeCuts = s'.engine.activeCuts
  switched_eq : t'.engine.switched = s'.engine.switched
  solves_eq : t'.engine.solves = s'.engine.solves
  consultations_eq : Search.consultations t'.journal = Search.consultations s'.journal
  lines_eq : s'.engine.solves ≠ 0 → ∃ new,
    s'.engine.report.lines.toList = s.engine.report.lines.toList ++ new ∧
    t'.engine.report.lines.toList = t.engine.report.lines.toList ++ new

/-- Engines that have served any calls go on alike. -/
theorem served_engines_alike {setting : Setting α} {s t : SearchState α}
    (hmemoryless : setting.Memoryless) (hs : s.engine.Served) (ht : t.engine.Served)
    (hw : s.workspace.WellFormed setting.oracle)
    (hworkspace : t.workspace = { s.workspace with notices := t.workspace.notices })
    (hsettings : t.solver.settings = s.solver.settings)
    (hdrill : t.solver.drill = s.solver.drill) :
    Corresponds (fun outcome s' outcome' t' => outcome' = outcome ∧ EndsAlike s t s' t')
      (EndsAlike s t) (Search.computeDirection setting s) (Search.computeDirection setting t) := by
  let f : Twins α :=
    { setting
      samePast := false
      before := s.engine.report.lines.toList
      before' := t.engine.report.lines.toList }
  have hpending : t.engine.report.pending = s.engine.report.pending :=
    ht.pending_eq.trans hs.pending_eq.symm
  have hjoint : t.workspace.jointEvaluation = s.workspace.jointEvaluation := by rw [hworkspace]
  have hmeets : f.Meets s t :=
    ⟨rfl, rfl, hw, hjoint ▸ hworkspace, fun _ => hjoint, Bool.noConfusion, hsettings, hdrill,
      Bool.noConfusion, Bool.noConfusion, Bool.noConfusion, fun _ => .start rfl rfl rfl hpending⟩
  have hfair : f.Fair := ⟨.inr hmemoryless, Bool.noConfusion⟩
  have hlength := (Search.computeDirection_cases hw).length_solvesOf
  have hends : ∀ s' t', f.Ends s' t' → s' = finalState (Search.computeDirection setting s) →
      EndsAlike s t s' t' := by
    intro s' t' h hfinal
    rw [← hfinal] at hlength
    have htrial := h.trial_eq.trans (Workspace.rename_plain false _)
    refine ⟨h.workspace.eq_but_notices h.direction_eq htrial, h.outcome_eq, h.fullCuts_eq,
      h.aggregatedCuts_eq, ?_, h.switched_eq, h.solves_eq, h.consultations_eq, fun hsolves => ?_⟩
    · unfold Engine.activeCuts
      rw [h.active_eq, h.fullCuts_eq, h.aggregatedCuts_eq]
    · have hunderway : s'.Underway := by
        intro hnil
        rw [hnil] at hlength
        exact hsolves hlength.symm
      exact (h.reports rfl (h.solver_eq (.inl hunderway))).lines_level rfl
  exact (hmeets.computeDirection_corresponds hfair).with_finals.imp
    (fun _ _ _ _ hpost => ⟨hpost.1.1, hends _ _ hpost.1.2 hpost.2.1⟩)
    fun _ _ hhalt => hends _ _ hhalt.1 hhalt.2.1

/-- The condensing search decides without memory. -/
theorem memoryless_condensing : condensing.Memoryless :=
  ⟨fun _ _ => rfl, fun _ _ => rfl, fun _ _ => rfl⟩

/-- The state after the search across the valley. -/
def beyondValley : SearchState ℚ := finalState (Search.computeDirection condensing acrossValley)

/-- The same workspace again, with the engine that has been used. -/
def backAcrossValley : SearchState ℚ := { acrossValley with engine := beyondValley.engine }

/-- An engine that has been used and holds a solver with weights searches across the valley
as a new one does. -/
theorem served_engines_alike_across_valley :
    backAcrossValley.engine.Served ∧ backAcrossValley.solver.weights.length = 5 ∧
      Corresponds
        (fun outcome s outcome' t =>
          outcome' = outcome ∧ EndsAlike acrossValley backAcrossValley s t)
        (EndsAlike acrossValley backAcrossValley)
        (Search.computeDirection condensing acrossValley)
        (Search.computeDirection condensing backAcrossValley) := by
  have hw : acrossValley.workspace.WellFormed condensing.oracle := wellFormed_acrossValley
  have hended : (match Search.computeDirection condensing acrossValley with
      | .ok _ _ => true
      | .error _ _ => false) = true := by decide +kernel
  have hserved : backAcrossValley.engine.Served := by
    unfold backAcrossValley beyondValley
    cases hr : Search.computeDirection condensing acrossValley with
    | ok outcome s =>
      have hfresh : acrossValley.engine.Served := .fresh
      exact (hfresh.ended hw hr : s.engine.Served)
    | error fault s =>
      rw [hr] at hended
      cases hended
  have hsettings : backAcrossValley.solver.settings = acrossValley.solver.settings := by
    have hparts : backAcrossValley.solver.settings.accuracy =
          acrossValley.solver.settings.accuracy ∧
        backAcrossValley.solver.settings.iterations = acrossValley.solver.settings.iterations := by
      decide +kernel
    cases hs : backAcrossValley.solver.settings
    cases ht : acrossValley.solver.settings
    simp_all
  have hdrill : backAcrossValley.solver.drill = none :=
    Option.isNone_iff_eq_none.mp (by decide +kernel)
  exact ⟨hserved, by decide +kernel, served_engines_alike memoryless_condensing .fresh hserved hw
    rfl hsettings hdrill⟩

end NonsmoothDescent
