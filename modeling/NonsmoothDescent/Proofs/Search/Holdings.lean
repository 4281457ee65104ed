import NonsmoothDescent.Proofs.Search.Advance

/-!
# The cuts that a search holds

At every stage a search holds the cuts of its two lists, the active ones, and those that
a round has in hand. A step brings cuts in three ways only: at the current point, at a
sampled point, and by combining the planes of the solver. All others it held before, so
what holds of the cuts that a step brings holds of all cuts.
-/

namespace NonsmoothDescent

variable {α : Type}

/-- The cuts that a stage has in hand. -/
def Stage.inHand : Stage α → List (Cut α)
  | .sampled _ cuts | .shortTested _ cuts _ _ | .chosen _ cuts => cuts
  | _ => []

variable [Scalar α]

/-- All cuts at a stage have the property: those in the lists, the active ones and those
in hand. -/
structure Stage.AllCuts (Q : Cut α → Prop) (b : Stage α) (e : Engine α) : Prop where
  fullCuts : ∀ cut ∈ e.fullCuts, Q cut
  aggregatedCuts : ∀ cut ∈ e.aggregatedCuts, Q cut
  activeCuts : ∀ cut ∈ e.activeCuts, Q cut
  inHand : ∀ cut ∈ b.inHand, Q cut

namespace Stage.AllCuts

variable {P Q : Cut α → Prop} {b : Stage α} {e : Engine α}

/-- A weaker property holds of all cuts too. -/
theorem imp (h : b.AllCuts P e) (hPQ : ∀ cut, P cut → Q cut) : b.AllCuts Q e where
  fullCuts cut hcut := hPQ cut (h.fullCuts cut hcut)
  aggregatedCuts cut hcut := hPQ cut (h.aggregatedCuts cut hcut)
  activeCuts cut hcut := hPQ cut (h.activeCuts cut hcut)
  inHand cut hcut := hPQ cut (h.inHand cut hcut)

/-- Where nothing was solved yet there are no cuts. -/
theorem of_empty (hfull : e.fullCuts = []) (haggregated : e.aggregatedCuts = [])
    (hactive : e.activeCuts = []) : Stage.ready.AllCuts Q e := by
  constructor
  · simp [hfull]
  · simp [haggregated]
  · simp [hactive]
  · simp [Stage.inHand]

end Stage.AllCuts

/-- What holds of all cuts that there may be holds of the active ones. -/
theorem Engine.forall_activeCuts {Q : Cut α → Prop} {e : Engine α}
    (hfull : ∀ cut ∈ e.fullCuts, Q cut) (haggregated : ∀ cut ∈ e.aggregatedCuts, Q cut)
    (hown : ∀ cuts, e.active = .own cuts → ∀ cut ∈ cuts, Q cut) : ∀ cut ∈ e.activeCuts, Q cut := by
  unfold activeCuts
  cases hactive : e.active with
  | full => exact hfull
  | aggregated => exact haggregated
  | own cuts => exact hown cuts hactive

open Search in
/-- How a step from a stage may bring a cut. -/
inductive Cut.Brought (setting : Setting α) :
    Stage α → SearchState α → SearchState α → Cut α → Prop where
  /-- It is the cut at the current point. -/
  | current {a : Stage α} {s s' : SearchState α} {p : Plane α}
      (h : s'.workspace.CurrentPlane p) : Brought setting a s s' p.toCut
  /-- It is one of those collected before the first round. -/
  | collected {s s₁ s' : SearchState α} {cuts : List (Cut α)} {cut : Cut α}
      (hcollect : collectCuts setting s = .ok cuts s₁) (hgrows : s₁.workspace.Grows s'.workspace)
      (hcut : cut ∈ cuts) : Brought setting .opened s s' cut
  /-- It combines the planes of the active cuts. -/
  | combined {evaluated : Bool} {s s' : SearchState α} :
      Brought setting (.rejected evaluated) s s' s.combined.toCut
  /-- It is the cut at the end of the full step. -/
  | full {aggregating evaluated : Bool} {s s' : SearchState α} {cuts : List (Cut α)} {cut : Cut α}
      (hnear : setting.options.addFarPoints = true ∨
        s.solver.stepNormInf ≤ s.workspace.radii.stationarity)
      (htrial : trialCut setting evaluated s = .ok cuts s') (hcut : cut ∈ cuts) :
      Brought setting (.sampling aggregating evaluated) s s' cut
  /-- It is the cut at the end of the shortened step. -/
  | short {aggregating evaluated : Bool} {old cuts : List (Cut α)} {s s' : SearchState α}
      {cut : Cut α} (htrial : trialCut setting evaluated s = .ok cuts s') (hcut : cut ∈ cuts) :
      Brought setting (.shortTested aggregating old evaluated false) s s' cut

section Steps

variable {setting : Setting α} {a b : Stage α} {s s' : SearchState α}

/-- The cuts in hand are kept or brought. -/
theorem Step.inHand_brought (hstep : Step setting a s b s') :
    ∀ cut ∈ b.inHand, cut ∈ a.inHand ∨ cut.Brought setting a s s' := by
  cases hstep with
  | sampleFull hnear htrial => exact fun cut h => .inr (.full hnear htrial h)
  | testShort | omitShort => exact fun cut h => .inl h
  | sampleShort htrial =>
    intro cut h
    exact (List.mem_append.mp h).imp id (.short htrial)
  | _ => exact fun cut h => absurd h List.not_mem_nil

/-- The collected cuts are the full and the active ones. -/
theorem Stage.AllCuts.solveFull {Q : Cut α → Prop} {s₁ s₂ : SearchState α} {cuts : List (Cut α)}
    {planes : List (Plane α)} (h : Inv setting .opened s.toMoment)
    (hold : Stage.opened.AllCuts Q s.engine) (hcollect : Search.collectCuts setting s = .ok cuts s₁)
    (hnote : Search.note [.cutSetBuilt cuts.length s₁.workspace.bundle.size] s₁ = .ok () s₂)
    (hnew : ∀ cut : Cut α, cut.Brought setting .opened s
      ((s₂.withEngine (·.collected cuts)).resolved setting planes .full) → Q cut) :
    (Stage.solved .full).AllCuts Q
      ((s₂.withEngine (·.collected cuts)).resolved setting planes .full).engine := by
  have hk₂ := keeps_of_note setting.oracle hnote
  have hk := ((Search.collectCuts_leads h.base.toSound).of_run hcollect).1.toKeeps.trans hk₂
  have hgrows := hk₂.grows.trans
    (Moment.grows_solved setting false ((s₂.withEngine (·.collected cuts)).loaded planes .full))
  have hcuts : ∀ cut ∈ cuts, Q cut := fun cut hcut =>
    hnew cut (.collected hcollect hgrows hcut)
  exact ⟨hcuts, hk.aggregatedCuts_eq.symm ▸ hold.aggregatedCuts, hcuts, nofun⟩

/-- A solve on the cut at the current point alone makes it the active one. -/
theorem Stage.AllCuts.solveCurrent {Q : Cut α → Prop} {plane : Plane α} {kind : SolveKind α}
    (hold : a.AllCuts Q s.engine) (hk : Moment.Keeps setting.oracle s.toMoment s'.toMoment)
    (hcut : Q plane.toCut) :
    (Stage.solved kind).AllCuts Q
      (s'.resolved setting [plane] (.own [plane.toCut])).engine where
  fullCuts := hk.fullCuts_eq.symm ▸ hold.fullCuts
  aggregatedCuts := hk.aggregatedCuts_eq.symm ▸ hold.aggregatedCuts
  activeCuts := List.forall_mem_singleton.mpr hcut
  inHand := nofun

/-- Aggregation brings the two new aggregated cuts and leaves the active ones alone. -/
theorem Stage.AllCuts.aggregate {Q : Cut α → Prop} {evaluated : Bool}
    (h : Inv setting (.rejected evaluated) s.toMoment)
    (hold : (Stage.rejected evaluated).AllCuts Q s.engine)
    (hon : s.engine.aggregating setting.options = true)
    (hr : Search.aggregate s = .ok () s')
    (hnew : ∀ cut : Cut α, cut.Brought setting (.rejected evaluated) s s' → Q cut) :
    (Stage.sampling true evaluated).AllCuts Q s'.engine := by
  obtain ⟨current, s₁, hcurrent, hlogs, _, rfl⟩ := (h.aggregate_leads hon).of_run hr
  have hk := (hlogs.quiet setting.oracle).toKeeps
  have hlt := h.base.wellFormed.current_lt
  have hcuts := Engine.activeCuts_replaceAggregated s₁.engine [current.toCut, s.combined.toCut]
  refine ⟨hk.fullCuts_eq.symm ▸ hold.fullCuts, ?_, ?_, nofun⟩
  · refine List.forall_mem_cons.mpr ⟨?_, List.forall_mem_singleton.mpr ?_⟩
    · exact hnew _ (.current (hcurrent.grows hk.grows hlt))
    · exact hnew _ .combined
  · change ∀ cut ∈ (s₁.engine.replaceAggregated _).activeCuts, Q cut
    rw [hcuts, hk.activeCuts_eq]
    exact hold.activeCuts

/-- The cuts in hand join the lists; old aggregated cuts that were active stay so. -/
theorem Stage.AllCuts.augment {Q : Cut α → Prop} {aggregating : Bool} {added : List (Cut α)}
    (hold : (Stage.chosen aggregating added).AllCuts Q s.engine)
    (hr : Search.reportRound setting (s.withEngine (·.augmented aggregating added)) =
      .ok () s') :
    (Stage.augmented aggregating added).AllCuts Q s'.engine := by
  have hk := (((Search.reportRound_leads setting _).of_run hr).quiet setting.oracle).toKeeps
  have hfull : ∀ cut ∈ s.engine.fullCuts ++ added, Q cut :=
    List.forall_mem_append.mpr ⟨hold.fullCuts, hold.inHand⟩
  have haggregated : ∀ cut ∈ (s.engine.augmented aggregating added).aggregatedCuts, Q cut := by
    unfold Engine.augmented
    cases aggregating
    · exact hold.aggregatedCuts
    · exact List.forall_mem_append.mpr ⟨hold.aggregatedCuts, hold.inHand⟩
  refine ⟨hk.fullCuts_eq.symm ▸ hfull, hk.aggregatedCuts_eq.symm ▸ haggregated, ?_, nofun⟩
  rw [hk.activeCuts_eq]
  refine Engine.forall_activeCuts hfull haggregated fun cuts hown => ?_
  have hcuts : s.engine.activeCuts = cuts := by
    rw [Engine.activeCuts, show s.engine.active = .own cuts from hown]
  exact hcuts ▸ hold.activeCuts

/-- A step brings all cuts that were not there before. -/
theorem Step.allCuts {Q : Cut α → Prop} (hstep : Step setting a s b s')
    (h : Inv setting a s.toMoment) (hold : a.AllCuts Q s.engine)
    (hnew : ∀ cut : Cut α, cut.Brought setting a s s' → Q cut) : b.AllCuts Q s'.engine := by
  have hs := h.base.toSound
  have hinHand : ∀ cut ∈ b.inHand, Q cut := fun cut hcut =>
    (hstep.inHand_brought cut hcut).elim (hold.inHand cut) (hnew cut)
  by_cases hcalm : b.Calm
  · have hk := hstep.keeps h hcalm
    exact ⟨hk.fullCuts_eq ▸ hold.fullCuts, hk.aggregatedCuts_eq ▸ hold.aggregatedCuts,
      hk.activeCuts_eq ▸ hold.activeCuts, hinHand⟩
  · have hgrows := (hstep.advances h).grows
    cases hstep with
    | solveGradient hon hcurrent =>
      have hcurrent' := hcurrent.grows hgrows hs.wellFormed.current_lt
      exact hold.solveCurrent (.refl setting.oracle _) (hnew _ (.current hcurrent'))
    | solveFull hcollect hnote hplanes => exact .solveFull h hold hcollect hnote hnew
    | enterLoop hstatus =>
      have hcuts : s.engine.entered.activeCuts = s.engine.fullCuts := by
        rw [Engine.activeCuts, Engine.entered, h.holds.2]
      exact ⟨hold.fullCuts, hold.fullCuts, hcuts.symm ▸ hold.fullCuts, hinHand⟩
    | markSwitch | nextRound =>
      exact ⟨hold.fullCuts, hold.aggregatedCuts, hold.activeCuts, hinHand⟩
    | @fallBack _ s₁ _ plane _ hkind hstatus hgo hnote hcurrent =>
      have hk := keeps_of_note setting.oracle hnote
      have hcurrent' := hcurrent.grows
        (Moment.grows_solved setting false (s₁.loaded [plane] (.own [plane.toCut])))
        (hs.keeps hk).wellFormed.current_lt
      exact hold.solveCurrent hk (hnew _ (.current hcurrent'))
    | @restart _ s₁ plane first hnote =>
      have hcuts : s.engine.activeCuts = [plane.toCut] := by
        rw [Engine.activeCuts, h.holds.2]
      have hcut : ∀ cut ∈ [plane.toCut], Q cut := hcuts ▸ hold.activeCuts
      exact ⟨hcut, hcut, hcut, hinHand⟩
    | aggregate hon hr => exact .aggregate h hold hon hr hnew
    | augment hr => exact hold.augment hr
    | solveAggregated =>
      exact ⟨hold.fullCuts, hold.aggregatedCuts, hold.aggregatedCuts, hinHand⟩
    | solveSwitching hthreshold hmany hnote hplanes =>
      have hk := keeps_of_note setting.oracle hnote
      have hcuts := hk.fullCuts_eq.symm ▸ hold.fullCuts
      exact ⟨hcuts, hk.aggregatedCuts_eq.symm ▸ hold.aggregatedCuts, hcuts, hinHand⟩
    | solveWarm => exact ⟨hold.fullCuts, hold.aggregatedCuts, hold.fullCuts, hinHand⟩
    | _ => exact absurd trivial hcalm

end Steps

end NonsmoothDescent
