import NonsmoothDescent.Proofs.Search.Weights
import NonsmoothDescent.Proofs.Subproblem.Hull

/-!
# The full cuts back the aggregated ones

Aggregation replaces cuts by their weighted combination, over and over. In exact
arithmetic this never leaves the convex hull of the full cuts: each plane of the
aggregated cuts is a mixture of the planes of the full ones. Both lists take the same
new cuts, and the cut at the current point stays among the full cuts.
-/

namespace NonsmoothDescent

variable {K : Type} [Field K] [LinearOrder K] [FloorRing K]

open Subproblem in
/-- The full cuts have these planes, the one at the current point among them, and the
planes of the aggregated cuts lie in their hull. -/
structure Moment.BackedBy (m : Moment K) (planes : List (Plane K)) : Prop where
  full : Cut.DenoteAll m.workspace m.engine.fullCuts planes
  current : ∃ p ∈ planes, m.workspace.CurrentPlane p
  aggregated : ∀ cut ∈ m.engine.aggregatedCuts, ∃ p : Plane K, cut.Denotes m.workspace p ∧
    p.point m.workspace.dimension ∈ hull m.workspace.dimension planes

/-- Some planes back the aggregated cuts. -/
def Moment.Backed (m : Moment K) : Prop := ∃ planes, m.BackedBy planes

/-- Before the first round there are no aggregated cuts; from the first solve on all near
points they are backed. -/
def Stage.Backs : Stage K → Moment K → Prop
  | .ready, m | .solved .gradient, m | .gradientTested _, m | .opened, m =>
    m.engine.aggregatedCuts = []
  | .solved (.fallback plane _), m => m.Backed ∧ m.workspace.CurrentPlane plane
  | .ended _, _ => True
  | _, m => m.Backed

section Backed

variable {setting : Setting K} {a b : Stage K} {s s' start : SearchState K}
  {m m' : Moment K} {o : Oracle K}

/-- The full cuts go on backing the aggregated ones as the workspace grows. -/
theorem Moment.Backed.grows (h : m.Backed) (hw : m.workspace.WellFormed o)
    (hg : m.workspace.Grows m'.workspace) (hfull : m'.engine.fullCuts = m.engine.fullCuts)
    (haggregated : m'.engine.aggregatedCuts = m.engine.aggregatedCuts) : m'.Backed := by
  obtain ⟨planes, hplanes, ⟨p, hp, hcurrent⟩, hhull⟩ := h
  refine ⟨planes, ?_, ⟨p, hp, hcurrent.grows hg hw.current_lt⟩, fun cut hcut => ?_⟩
  · rw [hfull]
    exact hplanes.grows hg hw.bundle_lt
  · rw [haggregated] at hcut
    obtain ⟨q, hdenotes, hq⟩ := hhull cut hcut
    rw [hg.dimension_eq]
    exact ⟨q, hdenotes.grows hg hw.bundle_lt, hq⟩

/-- They go on backing them while both are kept. -/
theorem Moment.Backed.keeps (h : m.Backed) (hw : m.workspace.WellFormed o)
    (hk : Moment.Keeps o m m') : m'.Backed :=
  h.grows hw hk.grows hk.fullCuts_eq hk.aggregatedCuts_eq

/-- A solve leaves both lists, so the one goes on backing the other. -/
theorem backed_resolved {planes : List (Plane K)} {active : ActiveCuts K}
    (h : s.Backed) (hw : s.workspace.WellFormed o) :
    (s.resolved setting planes active).Backed :=
  h.grows hw (Moment.grows_solved setting false (s.loaded planes active)) rfl rfl

/-- A list of cuts with the one at the current point among them backs itself. -/
theorem backed_self {planes : List (Plane K)} {p : Plane K}
    (hplanes : Cut.DenoteAll m.workspace m.engine.fullCuts planes)
    (hcurrent : m.workspace.CurrentPlane p) (hp : p ∈ planes)
    (hsub : ∀ cut ∈ m.engine.aggregatedCuts, cut ∈ m.engine.fullCuts) : m.Backed := by
  refine ⟨planes, hplanes, ⟨p, hp, hcurrent⟩, fun cut hcut => ?_⟩
  obtain ⟨q, hq, hdenotes⟩ := hplanes.exists_mem (hsub cut hcut)
  exact ⟨q, hdenotes, Subproblem.mem_hull hq⟩

/-- The cuts collected before the first round hold the one at the current point. -/
theorem backed_collected {s₁ s₂ : SearchState K} {cuts : List (Cut K)} {planes : List (Plane K)}
    (hs : s.Sound setting.oracle) (hr : Search.collectCuts setting s = .ok cuts s₁)
    (hg : s₁.workspace.Grows s₂.workspace)
    (hplanes : Cut.DenoteAll s₂.workspace cuts planes) (hnone : s₂.engine.aggregatedCuts = []) :
    (s₂.withEngine (·.collected cuts)).Backed := by
  obtain ⟨hq, _, p, hcurrent, found, rfl, _⟩ := (Search.collectCuts_leads hs).of_run hr
  have hcurrent₂ := hcurrent.grows (hq.grows.trans hg) hs.wellFormed.current_lt
  obtain ⟨q, hq', hdenotes⟩ := hplanes.exists_mem List.mem_cons_self
  have hp := (hcurrent.denotes hs.wellFormed).grows (hq.grows.trans hg) hs.wellFormed.bundle_lt
  refine backed_self hplanes hcurrent₂ (hdenotes.unique hp ▸ hq') fun cut hcut => ?_
  change cut ∈ s₂.engine.aggregatedCuts at hcut
  rw [hnone] at hcut
  exact absurd hcut List.not_mem_nil

/-- New cuts go to both lists. -/
theorem backed_augmented {aggregating : Bool} {added : List (Cut K)} (h : s.Backed)
    (hvalid : ∀ cut ∈ added, cut.Valid s.workspace) :
    (s.withEngine (·.augmented aggregating added)).Backed := by
  obtain ⟨planes, hplanes, ⟨p, hp, hcurrent⟩, hhull⟩ := h
  obtain ⟨new, hnew⟩ := Cut.denoteAll_of_valid hvalid
  refine ⟨planes ++ new, hplanes.append hnew, ⟨p, List.mem_append_left _ hp, hcurrent⟩,
    fun cut hcut => ?_⟩
  have hold : ∀ cut ∈ s.engine.aggregatedCuts, ∃ q : Plane K, cut.Denotes s.workspace q ∧
      q.point s.workspace.dimension ∈ Subproblem.hull s.workspace.dimension (planes ++ new) := by
    intro cut hcut
    obtain ⟨q, hdenotes, hq⟩ := hhull cut hcut
    exact ⟨q, hdenotes, Subproblem.hull_mono (List.subset_append_left _ _) hq⟩
  change cut ∈ (if aggregating then s.engine.aggregatedCuts ++ added
    else s.engine.aggregatedCuts) at hcut
  split at hcut
  · rcases List.mem_append.mp hcut with hleft | hright
    · exact hold cut hleft
    · obtain ⟨q, hq, hdenotes⟩ := hnew.exists_mem hright
      exact ⟨q, hdenotes, Subproblem.mem_hull (List.mem_append_right _ hq)⟩
  · exact hold cut hcut

variable [IsStrictOrderedRing K]

/-- Aggregation puts the current plane and a mixture in place of the aggregated cuts. -/
theorem backed_aggregated (h : s.Backed) (hs : s.Solves setting.oracle)
    (hround : s.engine.activeCuts = s.engine.aggregatedCuts) (hweighted : s.solver.Weighted)
    (hr : Search.Aggregated s s') : s'.Backed := by
  obtain ⟨planes, hplanes, ⟨p, hp, hcurrent⟩, hhull⟩ := h
  obtain ⟨current, s₁, hcurrent', hlogs, hpair, rfl⟩ := hr
  have hk := (hlogs.quiet setting.oracle).toKeeps
  have hb := hs.wellFormed.bundle_lt
  have hmembers : ∀ q ∈ s.solver.subproblem.planes,
      q.point s.workspace.dimension ∈ Subproblem.hull s.workspace.dimension planes := by
    refine hs.denote.obey (P := fun w q =>
      q.point w.dimension ∈ Subproblem.hull w.dimension planes) fun cut hcut => ?_
    exact hhull cut (hround ▸ hcut)
  have hcombined := Subproblem.point_mix_mem_hull hs.denote.length_slope hmembers
    hweighted.isWeighting
  refine ⟨planes, ?_, ⟨p, hp, hcurrent.grows hk.grows hs.wellFormed.current_lt⟩, ?_⟩
  · change Cut.DenoteAll s₁.workspace s₁.engine.fullCuts planes
    rw [hk.fullCuts_eq]
    exact hplanes.grows hk.grows hb
  · change ∀ cut ∈ [current.toCut, s.combined.toCut], ∃ q : Plane K, cut.Denotes s₁.workspace q ∧
      q.point s₁.workspace.dimension ∈ Subproblem.hull s₁.workspace.dimension planes
    rw [hk.grows.dimension_eq]
    cases hpair with
    | cons hfirst hrest =>
      cases hrest with
      | cons hsecond hnil =>
        refine List.forall_mem_cons.mpr ⟨⟨current, hfirst.grows hk.grows hb, ?_⟩,
          List.forall_mem_cons.mpr ⟨⟨s.combined, hsecond.grows hk.grows hb, hcombined⟩, ?_⟩⟩
        · exact hcurrent'.unique hcurrent ▸ Subproblem.mem_hull hp
        · exact fun cut hcut => absurd hcut List.not_mem_nil

/-- Each step keeps the aggregated cuts backed. -/
theorem Stage.Backs.step (h : a.Backs s.toMoment) (hinv : Inv setting a s.toMoment)
    (hweighs : a.Weighs s.solver) (hstep : Step setting a s b s') : b.Backs s'.toMoment := by
  have hkeeps := hstep.keeps hinv
  have hs := hinv.base.toSound
  have hw := hs.wellFormed
  cases hstep with
  | solveGradient | rejectGradient | omitGradient => exact h
  | testGradient => exact (hkeeps trivial).aggregatedCuts_eq.trans h
  | @solveFull _ s₁ s₂ cuts planes hcollect hnote hplanes =>
    have hk₁ := ((Search.collectCuts_leads hs).of_run hcollect).1.toKeeps
    have hk₂ := keeps_of_note setting.oracle hnote
    have hnone := (hk₁.trans hk₂).aggregatedCuts_eq.trans h
    exact backed_resolved (backed_collected hs hcollect hk₂.grows hplanes hnone)
      (hs.keeps (hk₁.trans hk₂)).wellFormed
  | enterLoop =>
    obtain ⟨planes, hplanes, ⟨p, hp, hcurrent⟩, _⟩ := h
    exact backed_self (m := (s.withEngine Engine.entered).toMoment) hplanes hcurrent hp
      fun _ hcut => hcut
  | markSwitch => exact Moment.Backed.grows h hw (.refl _) rfl rfl
  | nextRound hkind => cases hkind <;> exact h
  | @fallBack _ s₁ kind plane first hkind _ _ hnote hcurrent =>
    have hk := keeps_of_note setting.oracle hnote
    have hs₁ := hs.keeps hk
    have hbacked : s.Backed := by
      obtain ⟨rfl, _⟩ | ⟨hround, _⟩ := hkind
      · exact h
      · cases hround <;> exact h
    have hgrows := Moment.grows_solved setting false (s₁.loaded [plane] (.own [plane.toCut]))
    exact ⟨backed_resolved (hbacked.keeps hw hk) hs₁.wellFormed,
      hcurrent.grows hgrows hs₁.wellFormed.current_lt⟩
  | @restart _ s₁ plane first hnote =>
    have hk := keeps_of_note setting.oracle hnote
    have hcurrent := h.2.grows hk.grows hw.current_lt
    exact backed_self (m := (s₁.withEngine (·.restarted plane.toCut)).toMoment)
      (.cons (hcurrent.denotes (hs.keeps hk).wellFormed) .nil) hcurrent List.mem_cons_self
      fun _ hcut => hcut
  | aggregate hon hr =>
    have hcuts := hinv.holds.2.1.activeCuts_eq hon
    exact backed_aggregated h hinv.holds.1 hcuts hweighs ((hinv.aggregate_leads hon).of_run hr)
  | @augment _ _ aggregating added hr =>
    have hk := (((Search.reportRound_leads setting _).of_run hr).quiet setting.oracle).toKeeps
    exact (backed_augmented h hinv.holds.2.2).keeps (o := setting.oracle) hw hk
  | solveAggregated => exact backed_resolved h hw
  | solveSwitching _ _ hnote =>
    have hk := keeps_of_note setting.oracle hnote
    exact backed_resolved (h.keeps hw hk) (hs.keeps hk).wellFormed
  | @solveWarm _ _ _ planes =>
    exact h.grows hw (Moment.grows_solved setting true (s.extended planes)) rfl rfl
  | acceptGradient | failSolver | failTrial | acceptFull | reachLimit | runOut | acceptShort =>
    trivial
  | _ => exact h.keeps hw (hkeeps trivial)

/-- From the first solve on all near points, the full cuts back the aggregated ones. -/
theorem Reached.backs (hinv : Inv setting .ready start.toMoment)
    (hnone : start.engine.aggregatedCuts = []) (h : Reached setting start b s) :
    b.Backs s.toMoment := by
  induction h with
  | start => exact hnone
  | step hreached hstep ih =>
    exact ih.step (hreached.inv hinv) (hreached.weighs hinv) hstep

end Backed

/-- Each aggregated cut has a plane that is a mixture of the planes of the full cuts. -/
def Moment.AggregatesFull (m : Moment K) : Prop :=
  ∃ planes, Cut.DenoteAll m.workspace m.engine.fullCuts planes ∧
    ∀ cut ∈ m.engine.aggregatedCuts, ∃ weights, IsWeighting planes.length weights ∧
      cut.Denotes m.workspace (Subproblem.mix m.workspace.dimension planes weights)

section Mixtures

variable [IsStrictOrderedRing K] {o : Oracle K} {m : Moment K} {b : Stage K}

/-- Aggregated cuts that are backed are mixtures of the full ones. -/
theorem Moment.Backed.aggregatesFull (h : m.Backed) : m.AggregatesFull := by
  obtain ⟨planes, hplanes, _, hhull⟩ := h
  refine ⟨planes, hplanes, fun cut hcut => ?_⟩
  obtain ⟨p, hdenotes, hp⟩ := hhull cut hcut
  obtain ⟨weights, hweights, rfl⟩ :=
    Subproblem.exists_mix_of_mem_hull hplanes.length_slope hdenotes.length_eq hp
  exact ⟨weights, hweights, hdenotes⟩

omit [IsStrictOrderedRing K] in
/-- No aggregated cuts are mixtures of the full ones. -/
theorem Moment.aggregatesFull_of_none (hb : m.Base o) (h : m.engine.aggregatedCuts = []) :
    m.AggregatesFull := by
  obtain ⟨planes, hplanes⟩ := Cut.denoteAll_of_valid hb.fullCuts
  refine ⟨planes, hplanes, fun cut hcut => ?_⟩
  rw [h] at hcut
  exact absurd hcut List.not_mem_nil

/-- At every solve and whenever a round begins, aggregated cuts are mixtures. -/
theorem Stage.Backs.aggregatesFull (h : b.Backs m) (hb : m.Base o)
    (hstage : (∃ kind, b = .solved kind) ∨ ∃ first, b = .round first) : m.AggregatesFull := by
  obtain ⟨kind, rfl⟩ | ⟨first, rfl⟩ := hstage
  · cases kind with
    | gradient => exact Moment.aggregatesFull_of_none hb h
    | fallback => exact h.1.aggregatesFull
    | _ => exact Moment.Backed.aggregatesFull h
  · exact Moment.Backed.aggregatesFull h

end Mixtures

end NonsmoothDescent
