import NonsmoothDescent.Proofs.Search.Journal

/-!
# Cuts and weights belong together

Right after every solve the solver's planes are those of the active cuts, looked up in
the workspace, in order, and there is one weight for each. When a round begins they are
the planes of the cuts that the round works with, so that aggregation always combines
the weights with the cuts that they were found for. This is so for every minimizer,
rule, clock and earlier use of the engine.

A call also leaves cuts and solver like this, with one exception. A threshold of points
that is too large to be an integer stops a call after the new cuts have gone to the full
cuts, which may be the active ones, and before they go to the solver.
-/

namespace NonsmoothDescent

variable {α : Type} [Scalar α]

namespace Engine

/-- The cuts that a round works with. -/
def roundCuts (e : Engine α) (options : Options α) : List (Cut α) :=
  if e.aggregating options then e.aggregatedCuts else e.fullCuts

/-- When a round begins its cuts are the active ones. -/
theorem RoundActive.roundCuts_eq {e : Engine α} {options : Options α}
    (h : e.RoundActive options) : e.roundCuts options = e.activeCuts := by
  unfold roundCuts
  cases hon : e.aggregating options with
  | true => exact (h.activeCuts_eq hon).symm
  | false =>
    unfold activeCuts
    rw [h.active_eq hon]
    rfl

end Engine

/-- The solver's planes are those of the cuts that the round works with, in order, and
there is one weight for each. -/
structure Moment.RoundAligned (options : Options α) (m : Moment α) : Prop where
  denote : Cut.DenoteAll m.workspace (m.engine.roundCuts options) m.solver.subproblem.planes
  length_weights : m.solver.weights.length = (m.engine.roundCuts options).length

/-- The call stopped after cuts had gone to the full ones and before they went to the
solver, since the number of points at which aggregation ends is too large. -/
def StoppedBetween (setting : Setting α) :
    EStateM.Result (Fault α) (SearchState α) Outcome → Prop
  | .ok _ _ => False
  | .error fault s => fault = .tooLarge ∧
      Scalar.isFinite (setting.options.aggregationThreshold *
        Scalar.ofInt s.workspace.dimension) = false ∧
      s.engine.active = .full ∧
      ∃ base added, added ≠ [] ∧ s.engine.fullCuts = base ++ added ∧
        Cut.DenoteAll s.workspace base s.solver.subproblem.planes

section Exit

variable {setting : Setting α} {entry start s s' : SearchState α}

/-- Where a search has ended the active cuts and the planes are aligned. -/
theorem aligned_of_ended {outcome : Outcome} (hinv : Inv setting .ready start.toMoment)
    (h : Reached setting start (.ended outcome) s) (hcloses : Closes s s') : s'.Aligned :=
  have hinv' := h.inv hinv
  Moment.Aligned.keeps hinv'.holds hinv'.base.toSound (hcloses.quiet setting.oracle).toKeeps

/-- The number of points fails only where it is not finite. -/
theorem isFinite_of_pointThreshold_error {options : Options α} {n : Nat}
    (h : Search.pointThreshold options n = .error .tooLarge) :
    Scalar.isFinite (options.aggregationThreshold * Scalar.ofInt n) = false := by
  unfold Search.pointThreshold at h
  dsimp only at h
  split at h
  · cases h
  · rename_i hfinite
    exact Bool.not_eq_true _ ▸ hfinite

/-- Where a call has overflowed, it has left the cuts that the last round added, if they
are active, without planes. -/
theorem not_aligned_iff_of_overflows (hinv : Inv setting .ready start.toMoment)
    (h : Overflows setting start s) :
    ¬ s.Aligned ↔ StoppedBetween setting (.error .tooLarge s) := by
  obtain ⟨hthreshold, aggregating, added, hreached⟩ := h
  have hfinite := isFinite_of_pointThreshold_error hthreshold
  have haugmented : s.Augmented setting.options aggregating added := (hreached.inv hinv).holds
  constructor
  · intro hnot
    obtain ⟨base, hdenote, hlength, ⟨hactive, hfull⟩ | ⟨_, hactive⟩⟩ := haugmented.behind
    · refine ⟨rfl, hfinite, hactive, base, added, ?_, hfull, hdenote⟩
      rintro rfl
      have hcuts : s.engine.activeCuts = base := by
        rw [Engine.activeCuts, hactive, hfull, List.append_nil]
      exact hnot ⟨hcuts ▸ hdenote, hcuts ▸ hlength⟩
    · have hcuts : s.engine.activeCuts = base := by
        rw [Engine.activeCuts, hactive]
      exact absurd ⟨hcuts ▸ hdenote, hcuts ▸ hlength⟩ hnot
  · rintro ⟨_, _, hactive, base, more, hmore, hfull, hdenote⟩ haligned
    have hall := haligned.denote.length_eq
    rw [← hdenote.length_eq, Engine.activeCuts, hactive, hfull, List.length_append] at hall
    exact hmore (List.length_eq_zero_iff.mp (by omega))

end Exit

/-- In every call, the solver's planes are those of the active cuts, with one weight for
each, right after each solve, and the journal tells of each. They are those of the cuts
that the round works with when a round begins, and aggregation never finds another number
of weights than of cuts. After a call that made a solve they are those of the active cuts
too, unless the call stopped between adding cuts to the full ones and giving them to the
solver. -/
theorem solver_follows_active_cuts {setting : Setting α} {entry : SearchState α}
    (hw : entry.workspace.WellFormed setting.oracle) :
    (∀ m, Event.solved m ∈
        (finalState (Search.computeDirection setting entry)).journal.toList → m.Aligned) ∧
    (solvesOf (finalState (Search.computeDirection setting entry)).journal.toList).length =
      (finalState (Search.computeDirection setting entry)).engine.solves ∧
    (∀ m, Event.roundBegan m ∈
        (finalState (Search.computeDirection setting entry)).journal.toList →
          m.RoundAligned setting.options) ∧
    (∀ weights cuts s,
      Search.computeDirection setting entry ≠ .error (.multiplierCount weights cuts) s) ∧
    ((finalState (Search.computeDirection setting entry)).engine.solves ≠ 0 →
      (¬ (finalState (Search.computeDirection setting entry)).Aligned ↔
        StoppedBetween setting (Search.computeDirection setting entry))) := by
  have hcall := Search.computeDirection_cases hw
  generalize Search.computeDirection setting entry = result at *
  refine ⟨fun m hm => ?_, hcall.length_solvesOf, fun m hm => ?_, ?_, fun hsolves => ?_⟩
  · obtain ⟨start, hopens, kind, journal, hreached⟩ := hcall.cases_of_event hm
    exact (hreached.inv hopens.inv).holds.1.toAligned
  · obtain ⟨start, hopens, first, journal, hreached⟩ := hcall.cases_of_event hm
    obtain ⟨hsolves, hround⟩ := (hreached.inv hopens.inv).holds
    exact ⟨hround.roundCuts_eq ▸ hsolves.denote, hround.roundCuts_eq ▸ hsolves.length_weights⟩
  · rintro weights cuts s rfl
    cases hcall
  · cases hcall with
    | unevaluated hfresh hcloses =>
      have hnone := (hcloses.quiet setting.oracle).solves_eq.trans hfresh.solves_eq
      exact absurd hnone hsolves
    | ended hopens hreached hcloses htime =>
      exact ⟨fun hnot => absurd (aligned_of_ended hopens.inv hreached hcloses) hnot, False.elim⟩
    | timeUp hopens hreached hcloses =>
      refine ⟨fun hnot => absurd (aligned_of_ended hopens.inv hreached hcloses) hnot, ?_⟩
      rintro ⟨hfault, _⟩
      cases hfault
    | overflowed hopens hoverflows => exact not_aligned_iff_of_overflows hopens.inv hoverflows

section Overflow

/-- The absolute value in one variable, in doubles and without a gradient function. -/
def absoluteValue : Oracle Float where
  dimension := 1
  positive := Nat.one_pos
  value
    | [x] => .ok (Scalar.abs x)
    | _ => .error .refused
  gradient := none
  differences := Oracle.forwardDifferences 1.490116119384765625e-8

/-- A search whose threshold of points is infinite. -/
def overflowing : Setting Float where
  oracle := absoluteValue
  options :=
    { addFarPoints := true
      tryGradientStep := false
      tryShortenedStep := false
      aggregationThreshold := 1 / 0 }
  rule := .never
  clock _ := 0
  minimizer _ _ := ⟨[1], 0, 1, ""⟩

/-- The search begins at one half, within a trust region of radius two. -/
def overflowEntry : SearchState Float where
  workspace :=
    { dimension := 1
      samples := #[{ position := [0.5] }]
      direction := [0]
      radii := ⟨0.1, 2⟩
      startTime := 0
      timeLimit := 10000
      searchTime := 0 }
  engine := {}

/-- The start of the search with an infinite threshold is well formed. -/
theorem wellFormed_overflowEntry : overflowEntry.workspace.WellFormed overflowing.oracle where
  dimension_eq := rfl
  length_position id hid := by
    rw [Nat.lt_one_iff.mp hid]
    rfl
  faithful id hid := by
    rw [Nat.lt_one_iff.mp hid]
    exact ⟨.inl rfl, .inl rfl⟩
  current_lt := Nat.one_pos
  bundle_lt _ hid := absurd hid List.not_mem_nil

/-- The search solves once and samples the full step. It stops with two active cuts, and
one plane in the solver. -/
theorem overflow_leaves_cut_behind :
    (finalState (Search.computeDirection overflowing overflowEntry)).engine.solves = 1 ∧
      (finalState (Search.computeDirection overflowing overflowEntry)).engine.activeCuts.length =
        2 ∧
      (finalState (Search.computeDirection overflowing overflowEntry)).solver.cuts = 1 ∧
      StoppedBetween overflowing (Search.computeDirection overflowing overflowEntry) := by
  have hsolves : (finalState
      (Search.computeDirection overflowing overflowEntry)).engine.solves = 1 := by
    decide +kernel
  have hactive : (finalState
      (Search.computeDirection overflowing overflowEntry)).engine.activeCuts.length = 2 := by
    decide +kernel
  have hcuts : (finalState
      (Search.computeDirection overflowing overflowEntry)).solver.cuts = 1 := by
    decide +kernel
  have hw : overflowEntry.workspace.WellFormed overflowing.oracle := wellFormed_overflowEntry
  obtain ⟨_, _, _, _, hexit⟩ := solver_follows_active_cuts hw
  have hstopped := hexit (by rw [hsolves]; exact Nat.one_ne_zero)
  refine ⟨hsolves, hactive, hcuts, ?_⟩
  rw [← hstopped]
  intro haligned
  have hlength := haligned.denote.length_eq
  rw [hactive] at hlength
  exact absurd (hlength.trans hcuts) (by decide)

end Overflow

end NonsmoothDescent
