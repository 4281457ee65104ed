import NonsmoothDescent.Proofs.Search.Provenance

/-!
# Laws of planes

A law of planes that holds at the current point and at the sampled points, and that
mixing keeps, holds of every cut of a search and of every combination that the solver
forms. Aggregation may be repeated to any depth.
-/

namespace NonsmoothDescent

variable {K : Type} [Field K] [LinearOrder K] [FloorRing K]

/-- A law of planes: it holds at the current point and at the points that a search
samples, and mixing keeps it. -/
structure PlaneLaw (setting : Setting K) (radius : K) (P : Workspace K → Plane K → Prop) :
    Prop where
  grows : ∀ {w w' : Workspace K} {p : Plane K}, w.WellFormed setting.oracle → w.Grows w' →
    P w p → P w' p
  current : ∀ {w : Workspace K} {p : Plane K}, w.WellFormed setting.oracle →
    w.CurrentPlane p → P w p
  sampled : ∀ {w : Workspace K} {id : SampleId} {p : Plane K}, w.WellFormed setting.oracle →
    id < w.samples.size →
    (w.sampleAt id).plane? setting.options.downshift w.currentSample = some p →
    (setting.options.addFarPoints = false → setting.rule.Steady → 0 ≤ radius →
      Cut.isNear w.currentSample.position (setting.options.reach radius) (w.sampleAt id) = true) →
    P w p
  mixed : ∀ {w : Workspace K} {planes : List (Plane K)} {weights : List K},
    w.WellFormed setting.oracle → (∀ p ∈ planes, p.slope.length = w.dimension) →
    (∀ p ∈ planes, P w p) → IsWeighting planes.length weights →
    P w (Subproblem.mix w.dimension planes weights)

namespace PlaneLaw

variable {setting : Setting K} {P : Workspace K → Plane K → Prop} {radius : K}

/-- What a law says of a cut stays true as the workspace grows. -/
theorem obeys_grows (law : PlaneLaw setting radius P) {w w' : Workspace K} {cut : Cut K}
    (hw : w.WellFormed setting.oracle) (hg : w.Grows w') (h : cut.Obeys P w) :
    cut.Obeys P w' := by
  obtain ⟨p, hdenotes, hp⟩ := h
  exact ⟨p, hdenotes.grows hg hw.bundle_lt, law.grows hw hg hp⟩

/-- What the solver combines with a weighting obeys the law if the active cuts do. -/
theorem combined (law : PlaneLaw setting radius P) {m : Moment K}
    (hw : m.workspace.WellFormed setting.oracle) (haligned : m.Aligned)
    (hweighted : m.solver.Weighted) (h : ∀ cut ∈ m.engine.activeCuts, cut.Obeys P m.workspace) :
    P m.workspace m.combined :=
  law.mixed hw haligned.denote.length_slope (haligned.denote.obey h) hweighted.isWeighting

/-- The cuts that a step makes obey the law. -/
theorem made (law : PlaneLaw setting radius P) {m m' : Moment K} {cut : Cut K}
    (hw : m.workspace.WellFormed setting.oracle) (hw' : m'.workspace.WellFormed setting.oracle)
    (hg : m.workspace.Grows m'.workspace)
    (h : ∀ cut ∈ m.engine.activeCuts, cut.Obeys P m.workspace)
    (hmade : cut.Made setting radius m m') : cut.Obeys P m'.workspace := by
  cases hmade with
  | @current p hcurrent => exact ⟨p, hcurrent.denotes hw', law.current hw' hcurrent⟩
  | @sampled _ place id p hsamples hnear =>
    have hid := hw'.bundle_lt id hsamples.mem_bundle
    exact ⟨p, hsamples.denotes hw', law.sampled hw' hid hsamples.plane_eq hnear⟩
  | combined haligned hweighted =>
    have hlength := Subproblem.length_slope_mix haligned.denote.length_slope m.solver.weights
    exact law.obeys_grows hw hg
      ⟨m.combined, Cut.denotes_owned _ hlength _, law.combined hw haligned hweighted h⟩

variable [IsStrictOrderedRing K] {b : Stage K} {s start : SearchState K}

/-- All cuts of a search obey the law. -/
theorem obeys (law : PlaneLaw setting start.workspace.radii.stationarity P)
    (hinv : Inv setting .ready start.toMoment) (ho : setting.options.Accepted)
    (hempty : start.engine.fullCuts = [] ∧ start.engine.aggregatedCuts = [] ∧
      start.engine.activeCuts = []) (h : Reached setting start b s) :
    b.AllCuts (Cut.Obeys P s.workspace) s.engine := by
  induction h with
  | start =>
    obtain ⟨hfull, haggregated, hactive⟩ := hempty
    exact .of_empty hfull haggregated hactive
  | @step a b t t' hreached hstep ih =>
    have hw := (hreached.inv hinv).base.wellFormed
    have hw' := ((hreached.step hstep).inv hinv).base.wellFormed
    have hg := (hstep.advances (hreached.inv hinv)).grows
    exact hreached.made hinv ho hstep (ih.imp fun cut => law.obeys_grows hw hg)
      fun cut => law.made hw hw' hg ih.activeCuts

end PlaneLaw

end NonsmoothDescent
