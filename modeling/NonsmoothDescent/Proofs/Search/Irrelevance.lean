import NonsmoothDescent.Proofs.Search.Endings
import NonsmoothDescent.Proofs.Search.Renaming
import NonsmoothDescent.Proofs.Search.Succession

/-!
# Far points do not matter

Without aggregation a search looks at the current point, at the near points of the bundle and
at what it makes itself. Bundles that differ in far points shift the places of all other
points, and with them what the cuts refer to, but nothing comes of that: calls on them end the
same way, ask the minimizer the same, and leave the far points alone.

Near points are collected once, after the gradient step. Up to there the bundle is as it was,
and so are the radii, for a rule that changes them ends the search.
-/

namespace NonsmoothDescent

variable {α : Type} [Scalar α]

namespace Vicinity

variable {setting : Setting α} {v : Vicinity setting.oracle} {p : Prop} {s t : SearchState α}

/-- The near points have places in both bundles, one by one. -/
theorem samePlaces : List.Forall₂ (Workspace.SamePlace v.first v.second)
    (v.first.nearby.map Prod.snd) (v.second.nearby.map Prod.snd) := by
  have hlength : v.second.nearby.length = v.first.nearby.length := by
    have hnear := congrArg List.length v.same.near_eq
    rwa [← Workspace.map_fst_nearby, ← Workspace.map_fst_nearby, List.length_map, List.length_map,
      List.length_map] at hnear
  refine List.forall₂_iff_get.mpr ⟨by simp [hlength], fun k hk hk' => ?_⟩
  rw [List.length_map] at hk hk'
  rw [List.get_eq_getElem, List.get_eq_getElem, List.getElem_map, List.getElem_map]
  exact .near k (List.getElem?_eq_getElem hk) (List.getElem?_eq_getElem hk')

namespace Tracks

section Points

/-- The runs evaluate their trial points alike. -/
theorem evaluateTrial (h : v.Tracks p s t) :
    v.Agree Eq p (Search.onWorkspace (Workspace.evaluateTrial setting.oracle)) s
      (Search.onWorkspace (Workspace.evaluateTrial setting.oracle)) t :=
  h.onWorkspace_eq h.workspace.evaluateTrial

/-- The runs make the same trial point. -/
theorem makeTrial (h : v.Tracks p s t) (stepsize : α) :
    v.Agree Eq p (Search.onWorkspace (Workspace.makeTrial stepsize)) s
      (Search.onWorkspace (Workspace.makeTrial stepsize)) t :=
  h.onWorkspace_eq (h.workspace.makeTrial stepsize)

/-- The cut at a sample that both runs have. -/
theorem cutAt (h : v.Tracks p s t) {id place place' : Nat} (hid : v.Shares id)
    (hplace : Workspace.SamePlace v.first v.second place place') :
    v.Agree (Workspace.SameCuts v.first v.second) p
      (Search.workspace >>= fun w => Search.orFault (Cut.atPoint (w.sampleAt id) w.currentSample
        place setting.options.downshift) >>= fun cut => Pure.pure [cut]) s
      (Search.workspace >>= fun w => Search.orFault (Cut.atPoint (w.sampleAt (v.image id))
        w.currentSample place' setting.options.downshift) >>= fun cut => Pure.pure [cut]) t := by
  refine h.read (Search.workspace_run s) (Search.workspace_run t) ?_
  rw [h.workspace.sample_eq id hid, h.workspace.currentSample_eq]
  rcases Cut.atPoint_cases (s.workspace.sampleAt id) s.workspace.currentSample
    setting.options.downshift with ⟨fault, hcut⟩ | ⟨bias, hcut⟩
  · rw [hcut, hcut]
    exact h.orFault (.error fault) fun _ hok => by cases hok
  · rw [hcut, hcut]
    exact h.read (Search.orFault_ok rfl) (Search.orFault_ok rfl)
      (h.pure (.cons (.sampled bias hplace) .nil))

/-- The runs make the same cut at their trial points, each with its own place. -/
theorem trialCut (h : v.Tracks p s t) (evaluated : Bool) :
    v.Agree (Workspace.SameCuts v.first v.second) False (Search.trialCut setting evaluated) s
      (Search.trialCut setting evaluated) t := by
  replace h := h.imp False.elim
  unfold Search.trialCut
  refine .ite .rfl (h.pure .nil) ?_
  refine h.read (Search.workspace_run s) (Search.workspace_run t) ?_
  have hid := h.workspace.shares_trial
  rw [h.workspace.trial_eq]
  refine (h.onWorkspace_eq (h.workspace.evaluateGradient hid)).bind_eq fun known s t h => ?_
  refine .ite .rfl (h.pure .nil) ?_
  refine (h.onWorkspace (h.workspace.addToBundle hid)).bind fun place place' s t hplace h => ?_
  exact h.cutAt hid hplace

/-- The runs make the same cut at a near point, each with its own place. -/
theorem nearCut (h : v.Tracks p s t) {place place' : Nat}
    (hplace : Workspace.SamePlace v.first v.second place place') :
    v.Agree (Workspace.SameCuts v.first v.second) p (Search.nearCut setting place) s
      (Search.nearCut setting place') t := by
  obtain ⟨hat, hshares⟩ := h.workspace.bundle_getElem? hplace
  unfold Search.nearCut
  refine h.read (Search.workspace_run s) (Search.workspace_run t) ?_
  rw [hat]
  cases hid : s.workspace.bundle[place]? with
  | none => exact h.pure .nil
  | some id =>
    have hshared := hshares id hid
    refine (h.onWorkspace_eq (h.workspace.evaluateBoth hshared)).bind_eq fun known s t h => ?_
    exact .ite .rfl (h.cutAt hshared hplace) (h.pure .nil)

/-- The runs make the same cuts at their near points. -/
theorem nearCuts (h : v.Tracks p s t) {places places' : List Nat} {cuts cuts' : List (Cut α)}
    (hplaces : List.Forall₂ (Workspace.SamePlace v.first v.second) places places')
    (hcuts : Workspace.SameCuts v.first v.second cuts cuts') :
    v.Agree (Workspace.SameCuts v.first v.second) p
      (places.foldlM (fun cuts place => do return cuts ++ (← Search.nearCut setting place)) cuts)
      s
      (places'.foldlM (fun cuts place => do return cuts ++ (← Search.nearCut setting place))
        cuts') t := by
  induction hplaces generalizing cuts cuts' s t with
  | nil => exact h.pure hcuts
  | cons hplace _ ih =>
    rw [List.foldlM_cons, List.foldlM_cons]
    refine Agree.bind (p := p) ?_ fun _ _ _ _ hcuts h => ih h hcuts
    refine (h.nearCut hplace).bind fun new new' _ _ hnew h => h.pure ?_
    exact List.rel_append hcuts hnew

/-- Both runs find the same near points. -/
theorem collectCuts (h : v.Tracks True s t) (hs : v.first.Remembers setting.oracle s.workspace)
    (ht : v.second.Remembers setting.oracle t.workspace) :
    v.Agree (Workspace.SameCuts v.first v.second) True (Search.collectCuts setting) s
      (Search.collectCuts setting) t := by
  obtain ⟨hbundle, hbundle', hradii⟩ := h.workspace.untouched trivial
  have hradii' : t.workspace.radii = v.second.radii :=
    (h.workspace.radii_eq.trans hradii).trans (congrArg Workspace.radii v.same.rest_eq :).symm
  have hnear := v.sized.near_of_remembers hs hbundle hradii h.workspace.current_eq
  have hnear' := v.sized'.near_of_remembers ht hbundle' hradii' h.workspace.current_eq'
  unfold Search.collectCuts
  refine h.read (Search.workspace_run s) (Search.workspace_run t) ?_
  rw [hnear, hnear', h.workspace.currentSample_eq]
  refine h.orFault _ fun first hfirst => ?_
  refine h.read (Search.orFault_ok rfl) (Search.orFault_ok rfl) ?_
  exact h.nearCuts samePlaces (.cons (Workspace.sameCut_atCurrent hfirst) .nil)

end Points

section Phases

/-- Unless the gradient step ends the search, bundles are left, and radii by a steady rule. -/
theorem gradientStep (h : v.Tracks p s t) :
    Tandem (Search.gradientStep setting) s (Search.gradientStep setting) t
      (fun b s' c t' => b = c ∧ v.Tracks ((p ∧ setting.rule.Steady) ∧ b = none) s' t')
      (v.Tracks False) := by
  unfold Search.gradientStep
  refine Tandem.read (Search.workspace_run s) (Search.workspace_run t) ?_
  rw [h.workspace.currentSample_eq]
  refine h.orFault _ fun cut hcut => ?_
  have hcuts : Workspace.SameCuts v.first v.second [cut] [cut] :=
    .cons (Workspace.sameCut_atCurrent hcut) .nil
  refine Tandem.bind (h.load hcuts (.own hcuts)) fun _ s _ t ⟨_, h⟩ => ?_
  refine Tandem.bind (h.solve false) fun _ s _ t ⟨_, h⟩ => ?_
  refine Tandem.bind (h.makeTrial _) fun _ s _ t ⟨_, h⟩ => ?_
  refine Tandem.bind h.evaluateTrial ?_
  rintro evaluated s _ t ⟨rfl, h⟩
  refine Tandem.bind (h.accepts evaluated _) ?_
  rintro accepted s _ t ⟨rfl, h⟩
  cases accepted with
  | true =>
    refine Tandem.bind ((h.imp False.elim).note _ _) fun _ s _ t ⟨_, h⟩ => ?_
    exact .of_pure ⟨rfl, h.imp fun hp => by cases hp.2⟩
  | false => exact .of_pure ⟨rfl, h.imp fun hp => ⟨hp.1, rfl⟩⟩

/-- The runs solve on the same cuts of their near points. -/
theorem solveFull (h : v.Tracks True s t) (hs : v.first.Remembers setting.oracle s.workspace)
    (ht : v.second.Remembers setting.oracle t.workspace) :
    v.Agree Eq True (Search.solveFull setting) s (Search.solveFull setting) t := by
  unfold Search.solveFull
  refine (h.collectCuts hs ht).bind fun cuts cuts' s t hcuts h => ?_
  refine h.read (Search.workspace_run s) (Search.workspace_run t) ?_
  refine (h.note _ _).bind_eq fun _ s t h => ?_
  refine Agree.bind_eq (.modifyEngine { h with fullCuts := hcuts }) fun _ s t h => ?_
  refine (h.load hcuts .full).bind_eq fun _ s t h => ?_
  exact (h.solve false).bind_eq fun status s t h => h.settle status false

/-- The runs accept the full step alike and stop at the same limits. -/
theorem acceptanceAndLimits (h : v.Tracks p s t) (evaluated : Bool) :
    v.Agree Eq False (Search.acceptanceAndLimits setting evaluated) s
      (Search.acceptanceAndLimits setting evaluated) t := by
  unfold Search.acceptanceAndLimits
  refine Tandem.bind (h.accepts evaluated 1) ?_
  rintro accepted s _ t ⟨rfl, h⟩
  replace h := h.imp False.elim
  have hinner : t.workspace.innerIterations = s.workspace.innerIterations :=
    (congrArg Workspace.innerIterations h.workspace.rest_eq :)
  have hlimit : t.workspace.timeLimit = s.workspace.timeLimit :=
    (congrArg Workspace.timeLimit h.workspace.rest_eq :)
  refine Agree.ite .rfl (h.pure rfl) ?_
  refine h.read (Search.workspace_run s) (Search.workspace_run t) ?_
  rw [hinner, hlimit]
  refine .ite .rfl (h.pure rfl) ?_
  refine (h.onWorkspace_eq (h.workspace.elapsed _)).bind_eq fun time s t h => ?_
  exact .ite .rfl (h.pure rfl) (h.pure rfl)

/-- The runs make the same cut of the full step. -/
theorem fullStep (h : v.Tracks False s t) (evaluated : Bool) :
    v.Agree (Workspace.SameCuts v.first v.second) False (Search.fullStep setting evaluated) s
      (Search.fullStep setting evaluated) t := by
  unfold Search.fullStep
  refine h.read (Search.solver_run s) (Search.solver_run t) ?_
  refine h.read (Search.workspace_run s) (Search.workspace_run t) ?_
  rw [h.solver_eq, h.workspace.radii_eq]
  exact .ite .rfl (h.trialCut evaluated) (h.pure .nil)

/-- The runs test the same shortened step. -/
theorem shortenedStep (h : v.Tracks False s t) :
    v.Agree (fun b c => b.1 = c.1 ∧ Workspace.SameCuts v.first v.second b.2 c.2) False
      (Search.shortenedStep setting) s (Search.shortenedStep setting) t := by
  unfold Search.shortenedStep
  refine .ite .rfl (h.pure ⟨rfl, .nil⟩) ?_
  refine h.read (Search.solver_run s) (Search.solver_run t) ?_
  rw [h.solver_eq]
  refine .ite .rfl (h.pure ⟨rfl, .nil⟩) ?_
  refine h.read (Search.workspace_run s) (Search.workspace_run t) ?_
  rw [h.workspace.radii_eq]
  refine (h.makeTrial _).bind_eq fun _ s t h => h.evaluateTrial.bind_eq fun evaluated s t h => ?_
  refine Tandem.bind (h.accepts evaluated 1) ?_
  rintro accepted s _ t ⟨rfl, h⟩
  replace h := h.imp False.elim
  refine Agree.ite .rfl ((h.note _ _).bind_eq fun _ _ _ h => h.pure ⟨rfl, .nil⟩) ?_
  exact (h.trialCut evaluated).bind fun _ _ _ _ hcuts h => h.pure ⟨rfl, hcuts⟩

/-- Without aggregation, later solves are warm and with the new cuts only. -/
theorem solveAgain (h : v.Tracks False s t) {added added' : List (Cut α)}
    (hadded : Workspace.SameCuts v.first v.second added added') :
    v.Agree Eq False (Search.solveAgain setting added false) s
      (Search.solveAgain setting added' false) t := by
  unfold Search.solveAgain
  refine h.read (Search.workspace_run s) (Search.workspace_run t) ?_
  rw [h.workspace.dimension_eq, h.workspace.mapM_coefficient hadded, hadded.map_bias]
  refine h.orFault _ fun threshold _ => ?_
  simp only [Bool.false_and, Bool.false_eq_true, if_false]
  refine h.orFault _ fun slopes _ => ?_
  refine h.read (Search.solver_run s) (Search.solver_run t) ?_
  rw [h.solver_eq]
  refine h.orFault _ fun extended _ => (h.setSolver extended).bind_eq fun _ s t h => ?_
  refine Agree.bind_eq (.modifyEngine { h with active := .full }) fun _ s t h => ?_
  exact (h.solve true).bind_eq fun status s t h => h.settle status true

variable (hoff : setting.options.tryAggregation = false)
include hoff

/-- The runs improve their models alike. -/
theorem improve (h : v.Tracks False s t) (evaluated : Bool) :
    v.Agree Eq False (Search.improve setting evaluated) s (Search.improve setting evaluated) t := by
  unfold Search.improve
  refine h.read (Search.engine_run s) (Search.engine_run t) ?_
  rw [hoff]
  simp only [Bool.false_and]
  have haggregate : v.Agree Eq False (Search.aggregateIf false) s (Search.aggregateIf false) t :=
    h.pure rfl
  refine haggregate.bind_eq fun _ s t h => ?_
  refine (h.fullStep evaluated).bind fun fullStepCuts fullStepCuts' s t hfull h => ?_
  refine h.shortenedStep.bind ?_
  rintro ⟨accepted, shortCuts⟩ ⟨_, shortCuts'⟩ s t ⟨rfl, hshort⟩ h
  have hadded := List.rel_append hfull hshort
  refine .ite .rfl (h.pure rfl) ?_
  refine Agree.bind_eq (.modifyEngine { h with
    fullCuts := List.rel_append h.fullCuts hadded }) fun _ s t h => ?_
  exact h.reportRound.bind_eq fun _ s t h => h.solveAgain hadded

/-- The runs go through a round alike. -/
theorem round (h : v.Tracks False s t) (first : Bool) :
    v.Agree Eq False (Search.round setting first) s (Search.round setting first) t := by
  unfold Search.round
  refine (h.record rfl).bind_eq fun _ s t h => h.flushReport.bind_eq fun _ s t h => ?_
  refine h.evaluateTrial.bind_eq fun evaluated s t h => ?_
  refine .ite .rfl ((h.note _ _).bind_eq fun _ _ _ h => h.pure rfl) ?_
  refine (h.acceptanceAndLimits evaluated).bind_eq fun ended s t h => ?_
  cases ended with
  | some outcome => exact h.pure rfl
  | none => exact h.improve hoff evaluated

/-- The runs go through all rounds alike. -/
theorem rounds (h : v.Tracks False s t) (fuel : Nat) (first : Bool) :
    v.Agree Eq False (Search.rounds setting fuel first) s (Search.rounds setting fuel first) t := by
  induction fuel generalizing first s t with
  | zero => exact .of_throw h
  | succ fuel ih =>
    rw [Search.rounds_eq]
    refine (h.round hoff first).bind_eq fun ended s t h => ?_
    cases ended with
    | some outcome => exact h.pure rfl
    | none => exact ih h false

/-- The runs agree from the first solve to their ends. -/
theorem mainPhase (h : v.Tracks True s t) (hs : v.first.Remembers setting.oracle s.workspace)
    (ht : v.second.Remembers setting.oracle t.workspace) (fuel : Nat) :
    v.Agree Eq False (Search.mainPhase setting fuel) s (Search.mainPhase setting fuel) t := by
  unfold Search.mainPhase
  refine (h.solveFull hs ht).bind_eq fun ended s t h => ?_
  replace h := h.imp False.elim
  cases ended with
  | some outcome => exact h.pure rfl
  | none =>
    exact Agree.bind_eq (.modifyEngine { h with aggregatedCuts := h.fullCuts }) fun _ _ _ h =>
      h.rounds hoff fuel true

/-- With a steady rule far points play no part in the phases of a search. -/
theorem proceed (hsteady : setting.rule.Steady) (h : v.Tracks True s t)
    (hs : v.first.Remembers setting.oracle s.workspace)
    (ht : v.second.Remembers setting.oracle t.workspace) :
    v.Agree Eq False (Search.proceed setting) s (Search.proceed setting) t := by
  unfold Search.proceed
  refine .ite .rfl ?_ (h.mainPhase hoff hs ht _)
  refine Tandem.bind h.gradientStep.with_runs ?_
  rintro ended s' _ t' ⟨⟨rfl, h⟩, hrun, hrun'⟩
  have hs' := hs.trans ((Workspace.along_remembers _).gradientStep.of_ok hrun).workspace
  have ht' := ht.trans ((Workspace.along_remembers _).gradientStep.of_ok hrun').workspace
  cases ended with
  | some outcome => exact (h.imp False.elim).pure rfl
  | none => exact (h.imp fun _ => ⟨⟨trivial, hsteady⟩, rfl⟩).mainPhase hoff hs' ht' _

/-- The current point is evaluated first, in both runs. -/
theorem seek (hsteady : setting.rule.Steady) (h : v.Tracks True s t)
    (hs : v.first.Remembers setting.oracle s.workspace)
    (ht : v.second.Remembers setting.oracle t.workspace) :
    v.Agree Eq False (Search.seek setting) s (Search.seek setting) t := by
  have hrun := Workspace.evaluateBoth_run setting.oracle s.workspace.current s.workspace
  have hrun' := Workspace.evaluateBoth_run setting.oracle t.workspace.current t.workspace
  have hboth := h.workspace.evaluateBoth shares_current
  unfold Tandem at hboth
  rw [image_current, ← h.workspace.current_eq, ← h.workspace.current_eq', hrun, hrun'] at hboth
  have hs' := hs.trans (Workspace.remembers_withBoth _ s.workspace.current s.workspace)
  have ht' := ht.trans (Workspace.remembers_withBoth _ t.workspace.current t.workspace)
  cases hboth with
  | ok hpost =>
    obtain ⟨hknown, hw⟩ := hpost
    unfold Agree Tandem
    rw [Search.seek_run setting hrun, Search.seek_run setting hrun', hknown]
    have hevaluated : v.Tracks True
        { s with workspace := s.workspace.withBoth setting.oracle s.workspace.current }
        { t with workspace := t.workspace.withBoth setting.oracle t.workspace.current } :=
      { h with workspace := hw }
    have hconfigured : configured
        { t with workspace := t.workspace.withBoth setting.oracle t.workspace.current }
          t.workspace.radii = configured
        { s with workspace := s.workspace.withBoth setting.oracle s.workspace.current }
          s.workspace.radii := by
      unfold configured
      rw [hevaluated.solver_eq, h.workspace.radii_eq]
    have hset : ∀ solver : Solver α, v.Tracks True
        (SearchState.withEngine { s with
          workspace := s.workspace.withBoth setting.oracle s.workspace.current }
            fun e => { e with solver := some solver })
        (SearchState.withEngine { t with
          workspace := t.workspace.withBoth setting.oracle t.workspace.current }
            fun e => { e with solver := some solver }) := fun solver =>
      { hevaluated with
        engine_eq := congrArg (fun e : Engine α => { e with solver := some solver }) h.engine_eq }
    split
    · refine proceed hoff hsteady (s := Search.opened s _) (t := Search.opened t _) ?_ hs' ht'
      unfold Search.opened
      rw [hconfigured]
      exact hset _
    · exact .ok ⟨rfl, { hevaluated with
        workspace := { hw with untouched := False.elim } }⟩

omit hoff in
/-- Both runs account for the search in the same way. -/
theorem account (h : v.Tracks False s t) (start : α) (outcome : Outcome) :
    v.Agree Eq False (Search.account setting start outcome) s
      (Search.account setting start outcome) t := by
  unfold Search.account
  refine Agree.bind_eq (.modifyEngine { h with
    engine_eq := congrArg (fun e : Engine α => { e with outcome }) h.engine_eq })
      fun _ s t h => ?_
  refine h.read (Search.workspace_run s) (Search.workspace_run t) ?_
  refine h.read (Search.engine_run s) (Search.engine_run t) ?_
  rw [h.figures_eq]
  refine (h.report _ _).bind_eq fun _ s t h => h.flushReport.bind_eq fun _ s t h => ?_
  have htotals : v.Agree Eq False (Search.onWorkspace Workspace.addTotals) s
      (Search.onWorkspace Workspace.addTotals) t :=
    h.onWorkspace_eq (.of_ok rfl rfl ⟨rfl, { h.workspace with
      rest_eq := congrArg (fun w : Workspace α =>
        { w with
          totalInnerIterations := w.totalInnerIterations + w.innerIterations
          totalMinimizerIterations := w.totalMinimizerIterations + w.minimizerIterations })
        h.workspace.rest_eq }⟩)
  refine htotals.bind_eq fun _ s t h => ?_
  have hclock : v.Agree Eq False (Search.onWorkspace (Workspace.readClock setting.clock)) s
      (Search.onWorkspace (Workspace.readClock setting.clock)) t :=
    h.onWorkspace_eq (.of_ok rfl rfl
      ⟨(congrArg (fun w : Workspace α => setting.clock w.clockReadings) h.workspace.rest_eq :),
        { h.workspace with
          rest_eq := congrArg (fun w : Workspace α =>
            { w with clockReadings := w.clockReadings + 1 }) h.workspace.rest_eq }⟩)
  refine hclock.bind_eq fun stop s t h => ?_
  have htime : v.Agree Eq False (Search.onWorkspace (Workspace.addSearchTime (stop - start))) s
      (Search.onWorkspace (Workspace.addSearchTime (stop - start))) t :=
    h.onWorkspace_eq (.of_ok rfl rfl ⟨rfl, { h.workspace with
      rest_eq := congrArg (fun w : Workspace α =>
        { w with searchTime := w.searchTime + (stop - start) }) h.workspace.rest_eq }⟩)
  refine htime.bind_eq fun _ s t h => ?_
  refine h.read (Search.workspace_run s) (Search.workspace_run t) ?_
  exact h.read (Search.engine_run s) (Search.engine_run t) (h.note _ _)

end Phases

end Tracks

/-- Two calls begin alike as soon as workspaces and engines are prepared. -/
theorem tracks_prepared {rename : SampleId → SampleId} {s t : SearchState α}
    (hs : s.workspace.Sized setting.oracle) (ht : t.workspace.Sized setting.oracle)
    (hsame : Workspace.SameVicinity rename s.workspace t.workspace)
    (hengine : t.engine.withoutCuts = s.engine.withoutCuts) :
    Tracks (⟨s.workspace, t.workspace, rename, hs, ht, hsame⟩ : Vicinity setting.oracle) True
      s.prepared t.prepared := by
  let v : Vicinity setting.oracle := ⟨s.workspace, t.workspace, rename, hs, ht, hsame⟩
  have hsolver : t.solver = s.solver := by
    have hheld : t.engine.solver = s.engine.solver := (congrArg Engine.solver hengine :)
    have hdimension : t.workspace.dimension = s.workspace.dimension :=
      (congrArg Workspace.dimension hsame.rest_eq :)
    unfold Moment.solver Engine.solverFor
    rw [hheld, hdimension]
  refine ⟨?_, ?_, .nil, .nil, .own .nil, rfl⟩
  · exact { v.matches_reset with
      rest_eq := congrArg (fun w : Workspace α =>
        { w with
          innerIterations := 0
          minimizerIterations := 0
          clockReadings := w.clockReadings + 1 }) hsame.rest_eq }
  · unfold SearchState.prepared
    rw [hsolver]
    generalize s.solver.clearStep = solver
    exact congrArg (fun e : Engine α =>
      { e with outcome := .unset, solver := some solver, switched := false, solves := 0 }) hengine

end Vicinity

/-- Cuts that two runs hold, which began with `w` and `w'` and are at `u` and `u'` now: biases and
coefficients are the same in the same order, and the places are those of the same points. -/
structure Workspace.SameModel (w w' u u' : Workspace α) (cuts cuts' : List (Cut α)) : Prop where
  same : SameCuts w w' cuts cuts'
  biases_eq : cuts'.map Cut.bias = cuts.map Cut.bias
  coefficients_eq :
    cuts'.map (Cut.coefficient? u'.pointAt) = cuts.map (Cut.coefficient? u.pointAt)

/-- Calls that begin in `s` and `t` end alike in `s'` and `t'`: direction, radii, counters and
clock are the same, and so are the trial point, solver, status and report, what the minimizer
was asked and what it answered, the points that were appended, and the cuts but for their
places. Points that were far to begin with have been left as they were. -/
structure SameEnd (s t s' t' : SearchState α) : Prop where
  workspace_eq : t'.workspace.withoutPoints = s'.workspace.withoutPoints
  trialSample_eq : t'.workspace.trialSample = s'.workspace.trialSample
  engine_eq : t'.engine.withoutCuts = s'.engine.withoutCuts
  consultations_eq : Search.consultations t'.journal = Search.consultations s'.journal
  appended : ∃ added added' : List SampleId,
    s'.workspace.bundle.toList = s.workspace.bundle.toList ++ added ∧
    t'.workspace.bundle.toList = t.workspace.bundle.toList ++ added' ∧
    added'.map t'.workspace.sampleAt = added.map s'.workspace.sampleAt
  fullCuts : Workspace.SameModel s.workspace t.workspace s'.workspace t'.workspace
    s'.engine.fullCuts t'.engine.fullCuts
  aggregatedCuts : Workspace.SameModel s.workspace t.workspace s'.workspace t'.workspace
    s'.engine.aggregatedCuts t'.engine.aggregatedCuts
  activeCuts : Workspace.SameModel s.workspace t.workspace s'.workspace t'.workspace
    s'.engine.activeCuts t'.engine.activeCuts
  far_eq : ∀ id < s.workspace.samples.size, ¬s.workspace.InVicinity id →
    s'.workspace.sampleAt id = s.workspace.sampleAt id
  far_eq' : ∀ id < t.workspace.samples.size, ¬t.workspace.InVicinity id →
    t'.workspace.sampleAt id = t.workspace.sampleAt id

namespace Vicinity

variable {setting : Setting α} {v : Vicinity setting.oracle} {p : Prop} {s t : SearchState α}

/-- The active cuts are the same up to their places. -/
theorem Tracks.activeCuts (h : v.Tracks p s t) :
    Workspace.SameCuts v.first v.second s.engine.activeCuts t.engine.activeCuts := by
  have hactive := h.active
  unfold Engine.activeCuts
  generalize s.engine.active = active at hactive ⊢
  generalize t.engine.active = active' at hactive ⊢
  cases hactive with
  | full => exact h.fullCuts
  | aggregated => exact h.aggregatedCuts
  | own hcuts => exact hcuts

/-- Cuts that are the same up to their places are the same model. -/
theorem Matches.sameModel {w w' : Workspace α} {cuts cuts' : List (Cut α)} (h : v.Matches p w w')
    (hcuts : Workspace.SameCuts v.first v.second cuts cuts') :
    Workspace.SameModel v.first v.second w w' cuts cuts' := by
  refine ⟨hcuts, hcuts.map_bias, ?_⟩
  induction hcuts with
  | nil => rfl
  | cons hcut _ ih => rw [List.map_cons, List.map_cons, h.coefficient?_eq hcut, ih]

/-- Samples outside the vicinities have no counterpart, so they are spared. -/
theorem Matches.far_eq {w w' : Workspace α} (h : v.Matches p w w') :
    (∀ id < v.first.samples.size, ¬v.first.InVicinity id →
      w.sampleAt id = v.first.sampleAt id) ∧
    ∀ id < v.second.samples.size, ¬v.second.InVicinity id →
      w'.sampleAt id = v.second.sampleAt id := by
  refine ⟨fun id hid hfar => h.spared id ?_, fun id hid hfar => h.spared' id fun i hi heq => ?_⟩
  · rintro (hlater | hnear)
    · exact absurd hid (not_lt.mpr hlater)
    · exact hfar hnear
  · subst heq
    rcases hi with hlater | hnear
    · rw [image_of_le hlater] at hid
      exact absurd hid (not_lt.mpr (Nat.le_add_right _ _))
    · exact hfar (inVicinity_image hnear)

/-- States that match at the end are the same end. -/
theorem Tracks.ends {s₀ t₀ : SearchState α} (h : v.Tracks p s t) (hs : v.first = s₀.workspace)
    (ht : v.second = t₀.workspace) : SameEnd s₀ t₀ s t := by
  obtain ⟨hfar, hfar'⟩ := h.workspace.far_eq
  have hfull := h.workspace.sameModel h.fullCuts
  have haggregated := h.workspace.sameModel h.aggregatedCuts
  have hactive := h.workspace.sameModel h.activeCuts
  obtain ⟨added, hadded, hadded', hshares⟩ := h.workspace.bundle
  have hsame : (added.map v.image).map t.workspace.sampleAt = added.map s.workspace.sampleAt := by
    rw [List.map_map]
    exact List.map_congr_left fun id hid => h.workspace.sample_eq id (hshares id hid)
  rw [hs] at hfar hadded
  rw [ht] at hfar' hadded'
  rw [hs, ht] at hfull haggregated hactive
  exact ⟨h.workspace.rest_eq, h.workspace.trialSample_eq, h.engine_eq, h.consultations_eq,
    ⟨added, added.map v.image, hadded, hadded', hsame⟩, hfull, haggregated, hactive, hfar, hfar'⟩

end Vicinity

/-- Without aggregation, far points of the bundle do not matter, with a rule that changes the
radii only where it fires. Two calls on workspaces with the same vicinity, and on engines that
are the same but for the cuts left from earlier calls, have the same outcome or are stopped by
the same fault, and they end alike. -/
theorem far_points_irrelevant {setting : Setting α} {s t : SearchState α}
    {rename : SampleId → SampleId} (hoff : setting.options.tryAggregation = false)
    (hsteady : setting.rule.Steady)
    (hs : s.workspace.Sized setting.oracle) (ht : t.workspace.Sized setting.oracle)
    (hsame : Workspace.SameVicinity rename s.workspace t.workspace)
    (hengine : t.engine.withoutCuts = s.engine.withoutCuts) :
    Corresponds (fun outcome s' outcome' t' => outcome' = outcome ∧ SameEnd s t s' t')
      (SameEnd s t) (Search.computeDirection setting s)
      (Search.computeDirection setting t) := by
  have hreadings : t.workspace.clockReadings = s.workspace.clockReadings :=
    (congrArg Workspace.clockReadings hsame.rest_eq :)
  have hseek := (Vicinity.tracks_prepared hs ht hsame hengine).seek hoff hsteady
    (.of_eq rfl rfl rfl) (.of_eq rfl rfl rfl)
  unfold Vicinity.Agree Tandem at hseek
  rw [Search.computeDirection_run, Search.computeDirection_run, hreadings]
  generalize Search.seek setting s.prepared = result at hseek ⊢
  generalize Search.seek setting t.prepared = result' at hseek ⊢
  cases hseek with
  | error htracks => exact .error (htracks.ends rfl rfl)
  | @ok outcome _ s' t' hpost =>
    obtain ⟨rfl, htracks⟩ := hpost
    have haccount := htracks.account (setting.clock s.workspace.clockReadings) outcome
    unfold Vicinity.Agree Tandem at haccount
    rw [Search.account_run, Search.account_run] at haccount
    cases haccount with
    | ok hends =>
      dsimp only
      split
      · exact .error (hends.2.ends rfl rfl)
      · exact .ok ⟨rfl, hends.2.ends rfl rfl⟩

/-! ## A valley among far points -/

/-- The search across the valley without aggregation. -/
def plainly : Setting ℚ :=
  { condensing with options := { condensing.options with tryAggregation := false } }

/-- Before and behind the point beyond the valley stand a far one at which the objective has
failed, one that is not evaluated, in two places, and one that is. -/
def amongFar : SearchState ℚ :=
  { acrossValley with
    workspace :=
      { acrossValley.workspace with
        samples := acrossValley.workspace.samples ++ #[
          { position := [3], objective := .failed },
          { position := [-2] },
          { position := [5], objective := .known 5, gradient := .known [1] }]
        bundle := #[2, 3, 1, 4, 3] } }

/-- The far points of the example are samples like the others. -/
theorem sized_amongFar : amongFar.workspace.Sized valley where
  dimension_eq := rfl
  length_position := by decide +kernel
  length_gradient id hid slope hslope := by
    have hcases : id = 0 ∨ id = 1 ∨ id = 2 ∨ id = 3 ∨ id = 4 := by
      change id < 5 at hid
      omega
    rcases hcases with rfl | rfl | rfl | rfl | rfl
    · cases hslope
    · cases hslope
    · cases hslope
    · cases hslope
    · cases hslope
      rfl
  current_lt := by decide +kernel
  bundle_lt := by decide +kernel

/-- Both searches append three points. The cut at the point beyond the valley, in place zero
of the one bundle, refers to place two of the other. -/
theorem valley_among_far_points :
    Corresponds
        (fun outcome s outcome' t => outcome' = outcome ∧ SameEnd acrossValley amongFar s t)
        (SameEnd acrossValley amongFar) (Search.computeDirection plainly acrossValley)
        (Search.computeDirection plainly amongFar) ∧
      (finalState (Search.computeDirection plainly acrossValley)).engine.fullCuts.map
        Cut.position? = [none, some 0, some 1, some 2, some 3] ∧
      (finalState (Search.computeDirection plainly amongFar)).engine.fullCuts.map
        Cut.position? = [none, some 2, some 5, some 6, some 7] := by
  have hs : acrossValley.workspace.Sized plainly.oracle := wellFormed_acrossValley.sized
  have ht : amongFar.workspace.Sized plainly.oracle := sized_amongFar
  have hsame : Workspace.SameVicinity (fun i => i) acrossValley.workspace amongFar.workspace :=
    Workspace.sameVicinity_of_inserted (by decide) (by decide) (by decide +kernel)
  exact ⟨far_points_irrelevant rfl RadiusRule.steady_never hs ht hsame rfl, by decide +kernel,
    by decide +kernel⟩

end NonsmoothDescent
