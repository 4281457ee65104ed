import NonsmoothDescent.Proofs.Search.Backing
import NonsmoothDescent.Proofs.Search.Journal
import NonsmoothDescent.Proofs.Search.Setup
import NonsmoothDescent.Proofs.Search.Stationarity
import NonsmoothDescent.Proofs.Subproblem.Transfer

/-!
# From one solve to the next

What a solve has found is not lost in the next one, unless that is a fallback. The new
planes begin with the old ones when the cuts are extended, when all near points come in
after the gradient step, and when the full cuts take over from themselves. After
aggregation the old result is the second plane. When the full cuts take over from the
aggregated ones, it lies in their hull. In exact arithmetic the new planes therefore
have weights with the same step and the same dual value.
-/

namespace NonsmoothDescent

variable {K : Type} [Field K] [LinearOrder K] [FloorRing K]

/-- The combination at a moment is that of its solver. -/
theorem Moment.combined_eq (m : Moment K) : m.combined = m.solver.combined := by
  rw [combined, Solver.combined, m.dimension_solver]

/-- Moments with one solver have one combination. -/
theorem Moment.combined_congr {m m' : Moment K} (h : m'.solver = m.solver) :
    m'.combined = m.combined := by
  rw [combined_eq, combined_eq, h]

/-- The solve at a moment takes over the result of the one before, by given weights. -/
structure Moment.TakesOver (m m' : Moment K) (weights : List K) : Prop where
  carries : m.solver.Carries m'.solver weights
  /-- What the old solve has found alone on its plane is the first of the full cuts. -/
  alone : (∃ cuts, m.engine.active = .own cuts) → m'.engine.active = .full →
    weights = 1 :: Vec.zeros (m'.solver.cuts - 1)
  /-- On aggregated cuts all weight is on the second one. -/
  aggregated : m'.engine.active = .aggregated →
    weights = 0 :: 1 :: Vec.zeros (m'.solver.cuts - 2)
  /-- On full cuts the old weights stay, unless they are those of aggregated cuts. -/
  full : m'.engine.active = .full → m.engine.active ≠ .aggregated →
    weights = m.solver.weights ++ Vec.zeros (m'.solver.cuts - m.solver.cuts)
  /-- After a warm solve they are the weights that it started from. -/
  warm : m'.solver.saved.isSome = true → weights = m'.solver.warmStart

/-- After the first solve of a call, only a fallback works with a cut that is in no list. -/
def Moment.FallsBack (m : Moment K) : Prop := ∃ cut, m.engine.active = .own [cut]

/-- A solve is a fallback or takes over the result of the one before. -/
def Moment.Inherits (m m' : Moment K) : Prop :=
  m'.FallsBack ∨ ∃ weights, m.TakesOver m' weights

/-- With optimal weights, a solve that is not a fallback loses no dual value. -/
theorem Moment.Inherits.dual_le {m m' : Moment K} (h : m.Inherits m') (hback : ¬ m'.FallsBack)
    (hoptimal : m'.solver.Optimal) :
    m.solver.subproblem.dual m.solver.weights ≤ m'.solver.subproblem.dual m'.solver.weights := by
  obtain ⟨weights, htakes⟩ := h.resolve_left hback
  exact htakes.carries.dual_le_of_optimal hoptimal

/-- While a round aggregates, the aggregated cuts are the one at the current point, the
combination that the solver has found, and the added ones. -/
def Stage.Condenses : Stage K → Moment K → Prop
  | .sampling aggregating _, m | .sampled aggregating _, m | .shortTested aggregating _ _ _, m
  | .chosen aggregating _, m => aggregating = true →
    ∃ current : Plane K, m.engine.aggregatedCuts = [current.toCut, m.combined.toCut]
  | .augmented aggregating added, m => aggregating = true →
    ∃ current : Plane K, m.engine.aggregatedCuts = current.toCut :: m.combined.toCut :: added
  | _, _ => True

/-- How a stage relates to the moment of the last solve before it. -/
def Stage.Follows (m : Moment K) : Stage K → Moment K → Prop
  | .ready, _ => False
  | .solved .gradient, t | .gradientTested _, t | .opened, t => t.solver.Weighted ∧
    ∃ p : Plane K, t.workspace.CurrentPlane p ∧ t.solver.subproblem.planes = [p]
  | .solved _, t => m.engine.active = t.engine.active
  | .ended _, _ => True
  | _, t => m.engine.active = .aggregated ∨ t.engine.active = .full

section Stages

variable {setting : Setting K} {a b : Stage K} {s s' start : SearchState K}

/-- Each step keeps what the aggregated cuts begin with, from aggregation to the solve. -/
theorem Stage.Condenses.step (h : a.Condenses s.toMoment) (hinv : Inv setting a s.toMoment)
    (hstep : Step setting a s b s') : b.Condenses s'.toMoment := by
  have hkeeps := hstep.keeps hinv
  have hsame := hstep.solver_eq hinv
  cases hstep with
  | aggregate hon hr =>
    intro _
    obtain ⟨current, s₁, _, _, _, rfl⟩ := (hinv.aggregate_leads hon).of_run hr
    have hcombined := Moment.combined_congr (hsame rfl)
    exact ⟨current, by rw [hcombined]; rfl⟩
  | omitAggregation => exact fun hfalse => by cases hfalse
  | @augment _ _ aggregating added hr =>
    rintro rfl
    obtain ⟨current, hcuts⟩ := h rfl
    have hk := (((Search.reportRound_leads setting _).of_run hr).quiet setting.oracle).toKeeps
    refine ⟨current, ?_⟩
    rw [hk.aggregatedCuts_eq, Moment.combined_congr (hsame rfl)]
    change s.engine.aggregatedCuts ++ added = _
    rw [hcuts]
    rfl
  | sampleFull | omitFull | testShort | omitShort | sampleShort =>
    intro hon
    obtain ⟨current, hcuts⟩ := h hon
    have hk := hkeeps trivial
    exact ⟨current, by rw [hk.aggregatedCuts_eq, hcuts, Moment.combined_congr hk.solver_eq']⟩
  | _ => trivial

/-- So the aggregated cuts begin with the current cut and the combination. -/
theorem Reached.condenses (hinv : Inv setting .ready start.toMoment)
    (h : Reached setting start b s) : b.Condenses s.toMoment := by
  induction h with
  | start => trivial
  | step hreached hstep ih => exact ih.step (hreached.inv hinv) hstep

/-- A step that makes no solve stays related to the last one. -/
theorem Stage.Follows.step {m : Moment K} (h : a.Follows m s.toMoment)
    (hinv : Inv setting a s.toMoment) (hstep : Step setting a s b s') (hb : b.gain = 0) :
    b.Follows m s'.toMoment := by
  have hkeeps := hstep.keeps hinv
  have hlt := hinv.base.wellFormed.current_lt
  have hholds := hinv.holds
  cases hstep with
  | testGradient | rejectGradient =>
    obtain ⟨hweighted, p, hcurrent, hplanes⟩ := h
    have hk := hkeeps trivial
    have hsolver := hk.solver_eq'
    refine ⟨?_, p, hcurrent.grows hk.grows hlt, ?_⟩
    · rw [hsolver]
      exact hweighted
    · rw [hsolver]
      exact hplanes
  | omitGradient => exact h.elim
  | enterLoop => exact .inr hholds.2
  | markSwitch => exact h
  | nextRound hkind =>
    cases hkind with
    | aggregated => exact .inl (h.trans hholds.2.1)
    | switched | warm => exact .inr hholds.2.1
  | restart => exact .inr rfl
  | aggregate hon hr =>
    obtain ⟨_, s₁, _, hlogs, _, rfl⟩ := (hinv.aggregate_leads hon).of_run hr
    have hk := (hlogs.quiet setting.oracle).toKeeps
    exact h.imp id fun hactive =>
      Engine.active_replaceAggregated_of_full (hk.active_eq.trans hactive) _
  | augment hr =>
    have hk := (((Search.reportRound_leads setting _).of_run hr).quiet setting.oracle).toKeeps
    exact h.imp id hk.active_eq.trans
  | solveGradient | solveFull | fallBack | solveAggregated | solveSwitching | solveWarm =>
    cases hb
  | acceptGradient | failSolver | failTrial | acceptFull | reachLimit | runOut | acceptShort =>
    trivial
  | _ => exact h.imp id (hkeeps trivial).active_eq.trans

end Stages

section Inherit

variable [IsStrictOrderedRing K] {setting : Setting K} {a b : Stage K}
  {s s' start : SearchState K} {m : Moment K}

/-- A solve alone on its plane has given it all weight. -/
theorem Reached.weights_of_own {kind : SolveKind K} (hinv : Inv setting .ready start.toMoment)
    (h : Reached setting start (.solved kind) s) (hown : ∃ cuts, s.engine.active = .own cuts) :
    s.solver.weights = [1] ∧ s.solver.cuts = 1 := by
  obtain ⟨hsolves, hfits⟩ := (h.inv hinv).holds
  have hweighs := h.weighs hinv
  obtain ⟨cuts, hcuts⟩ := hown
  have hone : ∀ plane : Plane K, s.engine.active = .own [plane.toCut] → s.solver.cuts = 1 := by
    intro plane hactive
    have hlength := hsolves.denote.length_eq
    rw [Engine.activeCuts, hactive] at hlength
    exact hlength.symm
  cases kind with
  | gradient =>
    obtain ⟨plane, hactive⟩ := hfits
    exact ⟨(hone plane hactive ▸ (hweighs (.inr .gradient)).isWeighting).eq_one,
      hone plane hactive⟩
  | fallback plane first =>
    exact ⟨(hone plane hfits ▸ (hweighs (.inr (.fallback plane first))).isWeighting).eq_one,
      hone plane hfits⟩
  | full | switching => cases hcuts.symm.trans hfits
  | aggregated | switched | warm => cases hcuts.symm.trans hfits.1

/-- A weighted solver with a positive bound, and a cold solve on other planes. -/
structure Resolved (setting : Setting K) (s t : SearchState K) (planes : List (Plane K))
    (active : ActiveCuts K) : Prop where
  wellFormed : s.solver.subproblem.WellFormed
  weighted : s.solver.Weighted
  positive : s.solver.subproblem.bound.Positive
  solver_eq : t.solver = s.solver
  solves : (t.resolved setting planes active).Solves setting.oracle

namespace Resolved

variable {t : SearchState K} {planes : List (Plane K)} {active : ActiveCuts K}

omit [IsStrictOrderedRing K] in
/-- The subproblem has the planes that were given. -/
theorem subproblem_eq (h : Resolved setting s t planes active) :
    (t.resolved setting planes active).solver.subproblem =
      { s.solver.subproblem with planes } := by
  rw [subproblem_resolved, h.solver_eq]

omit [IsStrictOrderedRing K] in
/-- The number of variables stays. -/
theorem dimension_eq (h : Resolved setting s t planes active) :
    (t.resolved setting planes active).solver.dimension = s.solver.dimension := by
  rw [Solver.dimension, h.subproblem_eq]
  rfl

omit [IsStrictOrderedRing K] in
/-- The bound stays. -/
theorem bound_eq (h : Resolved setting s t planes active) :
    (t.resolved setting planes active).solver.subproblem.bound = s.solver.subproblem.bound := by
  rw [h.subproblem_eq]

omit [IsStrictOrderedRing K] in
/-- The planes are those that were given. -/
theorem planes_eq (h : Resolved setting s t planes active) :
    (t.resolved setting planes active).solver.subproblem.planes = planes := by
  rw [h.subproblem_eq]

/-- Planes behind the old ones. -/
theorem carries_append (h : Resolved setting s t planes active) {more : List (Plane K)}
    (hplanes : planes = s.solver.subproblem.planes ++ more) :
    s.solver.Carries (t.resolved setting planes active).solver
      (s.solver.weights ++
        Vec.zeros ((t.resolved setting planes active).solver.cuts - s.solver.cuts)) :=
  Solver.carries_append h.wellFormed (Moment.wellFormed_subproblem h.solves.denote)
    h.weighted h.bound_eq h.positive h.dimension_eq (h.planes_eq.trans hplanes)

/-- The combination as the second plane. -/
theorem carries_second (h : Resolved setting s t planes active) {first : Plane K}
    {rest : List (Plane K)} (hplanes : planes = first :: s.solver.combined :: rest) :
    s.solver.Carries (t.resolved setting planes active).solver
      (0 :: 1 :: Vec.zeros ((t.resolved setting planes active).solver.cuts - 2)) :=
  Solver.carries_second h.wellFormed (Moment.wellFormed_subproblem h.solves.denote)
    h.weighted h.bound_eq h.positive (h.planes_eq.trans hplanes)

/-- The combination in the hull of the planes. -/
theorem exists_carries (h : Resolved setting s t planes active)
    (hhull : s.solver.combined.point s.solver.dimension ∈
      Subproblem.hull s.solver.dimension planes) :
    ∃ weights, s.solver.Carries (t.resolved setting planes active).solver weights := by
  refine Solver.exists_carries h.wellFormed (Moment.wellFormed_subproblem h.solves.denote)
    h.weighted h.bound_eq h.positive h.dimension_eq ?_
  rw [h.dimension_eq, h.planes_eq]
  exact hhull

end Resolved

/-- At the stage, the moment is that of the last solve. -/
structure Moment.Precedes (m : Moment K) (b : Stage K) (s : SearchState K) : Prop where
  solver_eq : s.solver = m.solver
  alone : (∃ cuts, m.engine.active = .own cuts) → m.solver.weights = [1] ∧ m.solver.cuts = 1
  follows : b.Follows m s.toMoment

omit [IsStrictOrderedRing K] in
/-- After a solve on a cut of its own, weights behind it are zero. -/
theorem Moment.Precedes.eq_of_own (h : m.Precedes a s) {weights : List K} {n : Nat}
    (hown : ∃ cuts, m.engine.active = .own cuts)
    (hweights : m.engine.active ≠ .aggregated →
      weights = m.solver.weights ++ Vec.zeros (n - m.solver.cuts)) :
    weights = 1 :: Vec.zeros (n - 1) := by
  obtain ⟨hone, hcuts⟩ := h.alone hown
  obtain ⟨cuts, hactive⟩ := hown
  rw [hweights (by rw [hactive]; exact fun hfalse => by cases hfalse), hone, hcuts]
  rfl

omit [IsStrictOrderedRing K] in
/-- A cold solve takes over what its planes carry. -/
theorem takesOver_resolved {t : SearchState K} {planes : List (Plane K)} {active : ActiveCuts K}
    {weights : List K} (h : m.Precedes a s)
    (hcarries : s.solver.Carries (t.resolved setting planes active).solver weights)
    (haggregated : active = .aggregated → weights =
      0 :: 1 :: Vec.zeros ((t.resolved setting planes active).solver.cuts - 2))
    (hfull : active = .full → m.engine.active ≠ .aggregated → weights = s.solver.weights ++
      Vec.zeros ((t.resolved setting planes active).solver.cuts - s.solver.cuts)) :
    m.TakesOver (t.resolved setting planes active).toMoment weights where
  carries := h.solver_eq ▸ hcarries
  alone hown hactive := h.eq_of_own hown (h.solver_eq ▸ hfull hactive)
  aggregated := haggregated
  full := h.solver_eq ▸ hfull
  warm hsaved := by
    rw [saved_resolved] at hsaved
    cases hsaved

/-- The first solve on all near points takes over the gradient step. -/
theorem inherits_full {s₁ s₂ : SearchState K} {cuts : List (Cut K)} {planes : List (Plane K)}
    (h : m.Precedes .opened s) (hs : s.Sound setting.oracle)
    (hpos : s.solver.subproblem.bound.Positive)
    (hcollect : Search.collectCuts setting s = .ok cuts s₁)
    (hk : Moment.Keeps setting.oracle s₁.toMoment s₂.toMoment)
    (hplanes : Cut.DenoteAll s₂.workspace cuts planes)
    (hsolves : ((s₂.withEngine (·.collected cuts)).resolved setting planes .full).Solves
      setting.oracle) :
    m.Inherits ((s₂.withEngine (·.collected cuts)).resolved setting planes .full).toMoment := by
  obtain ⟨hweighted, p, hcurrent, hone⟩ := h.follows
  obtain ⟨hq, _, q, hcurrent', found, rfl, _⟩ :=
    (Search.collectCuts_leads hs).of_run hcollect
  obtain rfl := hcurrent.unique hcurrent'
  have hgrows := hq.toKeeps.trans hk
  have hdenotes := hcurrent.denotes hs.wellFormed
  have hfirst := hdenotes.grows hgrows.grows hs.wellFormed.bundle_lt
  have hresolved : Resolved setting s (s₂.withEngine (·.collected (p.toCut :: found))) planes
      .full := by
    refine ⟨fun q hq => ?_, hweighted, hpos, ?_, hsolves⟩
    · rw [hone] at hq
      rw [List.mem_singleton.mp hq, hdenotes.length_eq]
      exact s.dimension_solver.symm
    · exact (solver_withEngine _ rfl).trans hgrows.solver_eq'
  obtain ⟨more, hmore⟩ := Cut.DenoteAll.exists_append (.cons hfirst .nil) hplanes
  have hcarries := hresolved.carries_append (hone ▸ hmore)
  exact .inr ⟨_, takesOver_resolved h hcarries (fun hactive => by cases hactive)
    fun _ _ => rfl⟩

/-- On aggregated cuts the old result is the second cut. -/
theorem inherits_aggregated {added : List (Cut K)} {planes : List (Plane K)}
    (h : m.Precedes (.augmented true added) s)
    (hcondenses : (Stage.augmented true added).Condenses s.toMoment)
    (hlength : s.combined.slope.length = s.workspace.dimension)
    (hresolved : Resolved setting s s planes .aggregated)
    (hplanes : Cut.DenoteAll s.workspace s.engine.aggregatedCuts planes) :
    m.Inherits (s.resolved setting planes .aggregated).toMoment := by
  obtain ⟨current, hcuts⟩ := hcondenses rfl
  rw [hcuts] at hplanes
  cases hplanes with
  | cons hfirst hrest =>
    cases hrest with
    | cons hsecond hrest =>
      obtain rfl := hsecond.unique (Cut.denotes_owned s.workspace hlength s.combined.bias)
      have hcarries := hresolved.carries_second (by rw [← Moment.combined_eq])
      exact .inr ⟨_, takesOver_resolved h hcarries (fun _ => rfl) fun hactive => by cases hactive⟩

/-- When the full cuts take over from the aggregated ones, they still back the old result. -/
theorem inherits_switching {s₁ : SearchState K} {added : List (Cut K)}
    {planes : List (Plane K)} (h : m.Precedes (.augmented true added) s)
    (hs : s.Sound setting.oracle)
    (haugmented : s.Augmented setting.options true added) (hbacked : s.Backed)
    (hcondenses : (Stage.augmented true added).Condenses s.toMoment)
    (hlength : s.combined.slope.length = s.workspace.dimension)
    (hk : Moment.Keeps setting.oracle s.toMoment s₁.toMoment)
    (hresolved : Resolved setting s s₁ planes .full)
    (hplanes : Cut.DenoteAll s₁.workspace s₁.engine.fullCuts planes) :
    m.Inherits (s₁.resolved setting planes .full).toMoment := by
  have hb := hs.wellFormed.bundle_lt
  rw [hk.fullCuts_eq] at hplanes
  obtain ⟨base, hbehind, _, ⟨_, hfull⟩ | ⟨_, hown⟩⟩ := haugmented.behind
  · rw [hfull] at hplanes
    obtain ⟨more, hmore⟩ := Cut.DenoteAll.exists_append (hbehind.grows hk.grows hb) hplanes
    have hcarries := hresolved.carries_append hmore
    exact .inr ⟨_, takesOver_resolved h hcarries (fun hactive => by cases hactive) fun _ _ => rfl⟩
  · have haggregated : m.engine.active = .aggregated := by
      refine h.follows.resolve_right fun hactive => ?_
      cases hown.symm.trans hactive
    obtain ⟨current, hcuts⟩ := hcondenses rfl
    obtain ⟨old, hold, _, hhull⟩ := hbacked
    obtain rfl := (hold.grows hk.grows hb).unique hplanes
    obtain ⟨p, hp, hmember⟩ := hhull s.combined.toCut (by
      rw [hcuts]
      exact List.mem_cons_of_mem _ List.mem_cons_self)
    obtain rfl := hp.unique (Cut.denotes_owned s.workspace hlength s.combined.bias)
    have hdimension : s.solver.dimension = s.workspace.dimension := s.dimension_solver
    obtain ⟨weights, hcarries⟩ := hresolved.exists_carries (by
      rw [hdimension, ← Moment.combined_eq]
      exact hmember)
    exact .inr ⟨weights, takesOver_resolved h hcarries (fun hactive => by cases hactive)
      fun _ hnot => absurd haggregated hnot⟩

/-- A warm solve starts from the old weights. -/
theorem inherits_warm {added : List (Cut K)} {planes : List (Plane K)}
    (h : m.Precedes (.augmented false added) s) (hwellFormed : s.solver.subproblem.WellFormed)
    (hweighted : s.solver.Weighted) (hpos : s.solver.subproblem.bound.Positive)
    (hsolves : (s.continued setting planes).Solves setting.oracle) :
    m.Inherits (s.continued setting planes).toMoment := by
  have hsub := subproblem_continued setting planes s
  have hcuts : (s.continued setting planes).solver.cuts = s.solver.cuts + planes.length := by
    rw [Solver.cuts, hsub]
    exact List.length_append
  have hcarries : s.solver.Carries (s.continued setting planes).solver (s.solver.weights ++
      Vec.zeros ((s.continued setting planes).solver.cuts - s.solver.cuts)) := by
    refine Solver.carries_append hwellFormed (Moment.wellFormed_subproblem hsolves.denote)
      hweighted ?_ hpos ?_ (by rw [hsub])
    · rw [hsub]
    · rw [Solver.dimension, hsub]
      rfl
  refine .inr ⟨_, h.solver_eq ▸ hcarries, fun hown _ => h.eq_of_own hown fun _ => rfl,
    fun hactive => ?_, fun _ _ => rfl, fun hsaved => ?_⟩
  · cases hactive
  · have hkept : (s.continued setting planes).solver.saved = some s.solver.weights := by
      rw [saved_continued] at hsaved ⊢
      split at hsaved
      · cases hsaved
      · rename_i hsome
        exact if_neg hsome
    rw [← h.solver_eq]
    exact (Solver.warmStart_eq hkept hweighted.isWeighting (hcuts ▸ Nat.le_add_right _ _)).symm

/-- A solve after the first one is a fallback or takes over the result of the last one. -/
theorem Moment.Precedes.inherits (hm : m.Precedes a s) (hinv : Inv setting .ready start.toMoment)
    (hnone : start.engine.aggregatedCuts = [])
    (hpos : start.solver.subproblem.bound.Positive) (h : Reached setting start a s)
    (hstep : Step setting a s b s') (hb : b.gain = 1) : m.Inherits s'.toMoment := by
  have hholds := ((h.step hstep).inv hinv).holds
  have hholds₀ := (h.inv hinv).holds
  have hs := (h.inv hinv).base.toSound
  have hweighs := h.weighs hinv
  have hbacks := h.backs hinv hnone
  have hcondenses := h.condenses hinv
  rw [← (h.alike hinv).bound_eq] at hpos
  cases hstep with
  | solveGradient => exact hm.follows.elim
  | solveFull hcollect hnote hplanes =>
    exact inherits_full hm hs hpos hcollect (keeps_of_note setting.oracle hnote) hplanes hholds.1
  | fallBack => exact .inl ⟨_, rfl⟩
  | @solveAggregated _ added _ planes _ _ hplanes =>
    obtain ⟨base, hbehind, _⟩ := hholds₀.behind
    have hresolved : Resolved setting s s planes .aggregated :=
      ⟨fun p hp => (hbehind.length_slope p hp).trans s.dimension_solver.symm, hweighs, hpos, rfl,
        hholds.1⟩
    exact inherits_aggregated hm hcondenses
      (Subproblem.length_slope_mix hbehind.length_slope _) hresolved hplanes
  | @solveSwitching _ s₁ added _ planes _ _ hnote hplanes =>
    obtain ⟨base, hbehind, _⟩ := hholds₀.behind
    have hk := keeps_of_note setting.oracle hnote
    have hresolved : Resolved setting s s₁ planes .full :=
      ⟨fun p hp => (hbehind.length_slope p hp).trans s.dimension_solver.symm, hweighs, hpos,
        hk.solver_eq', hholds.1⟩
    exact inherits_switching hm hs hholds₀ hbacks hcondenses
      (Subproblem.length_slope_mix hbehind.length_slope _) hk hresolved hplanes
  | solveWarm =>
    obtain ⟨base, hbehind, _⟩ := hholds₀.behind
    exact inherits_warm hm
      (fun p hp => (hbehind.length_slope p hp).trans s.dimension_solver.symm) hweighs hpos hholds.1
  | _ => cases hb

/-- Just after a solve, that is the last one. -/
theorem Reached.precedes_self (hinv : Inv setting .ready start.toMoment)
    (h : Reached setting start b s) (hb : b.gain = 1) : s.toMoment.Precedes b s := by
  have hweighs := h.weighs hinv
  cases b with
  | solved kind =>
    refine ⟨rfl, h.weights_of_own hinv, ?_⟩
    cases kind with
    | gradient =>
      obtain _ | ⟨hreached, hstep⟩ := h
      have hlt := (hreached.inv hinv).base.wellFormed.current_lt
      have hgrows := (hstep.advances (hreached.inv hinv)).grows
      cases hstep with
      | @solveGradient _ plane hon hcurrent =>
        refine ⟨hweighs (.inr .gradient), plane, hcurrent.grows hgrows hlt, ?_⟩
        rw [subproblem_resolved]
    | _ => rfl
  | _ => cases hb

/-- The solves that the journal tells of inherit one from the other, up to the last. -/
theorem Reached.isChain_inherits (hinv : Inv setting .ready start.toMoment)
    (hnone : start.engine.aggregatedCuts = []) (hempty : start.journal = #[])
    (hpos : start.solver.subproblem.bound.Positive) (h : Reached setting start b s) :
    (solvesOf s.journal.toList).IsChain Moment.Inherits ∧
      ∀ m ∈ (solvesOf s.journal.toList).getLast?, m.Precedes b s := by
  induction h with
  | start =>
    rw [hempty]
    exact ⟨.nil, fun m hm => by cases hm⟩
  | @step a b s s' hreached hstep ih =>
    obtain ⟨hchain, hlast⟩ := ih
    obtain ⟨new, hjournal, _, hnew⟩ := hstep.records (hreached.inv hinv)
    rw [hjournal, solvesOf_append, hnew]
    rcases b.gain_eq with hb | hb
    · rw [if_neg (by rw [hb]; exact zero_ne_one), List.append_nil]
      refine ⟨hchain, fun m hm => ?_⟩
      have hm := hlast m hm
      exact ⟨(hstep.solver_eq (hreached.inv hinv) hb).trans hm.solver_eq, hm.alone,
        hm.follows.step (hreached.inv hinv) hstep hb⟩
    · rw [if_pos hb, List.getLast?_append_of_ne_nil _ (List.cons_ne_nil _ _)]
      refine ⟨List.isChain_append.mpr ⟨hchain, .singleton _, fun m hm m' hm' => ?_⟩,
        fun m hm => ?_⟩
      · rw [← Option.some.inj hm']
        exact (hlast m hm).inherits hinv hnone hpos hreached hstep hb
      · rw [← Option.some.inj hm]
        exact (hreached.step hstep).precedes_self hinv hb

/-- After a call the solves in the journal inherit one from the other. -/
theorem CallResult.isChain_inherits {entry : SearchState K}
    {result : EStateM.Result (Fault K) (SearchState K) Outcome}
    (h : CallResult setting entry result) :
    (solvesOf (finalState result).journal.toList).IsChain Moment.Inherits := by
  obtain ⟨s, hquiet, hfresh | ⟨start, stage, hopens, hreached⟩⟩ := h.course
  · rw [hquiet.journal_eq, hfresh.journal_eq]
    exact .nil
  · have hpos : start.solver.subproblem.bound.Positive := by
      rw [hopens.bound_eq]
      exact StepBound.positive_ofRadius _
    rw [hquiet.journal_eq]
    exact (hreached.isChain_inherits hopens.inv hopens.aggregatedCuts_eq hopens.journal_eq hpos).1

end Inherit

/-- In every call the aggregated cuts are mixtures of the full ones, at every solve and
whenever a round begins. Each solve after the first one is a fallback or takes over the
result of the one before. So if its weights are optimal, it has lost no dual value. -/
theorem solves_inherit [IsStrictOrderedRing K] {setting : Setting K} {entry : SearchState K}
    (hw : entry.workspace.WellFormed setting.oracle) :
    (∀ m, (Event.solved m ∈
          (finalState (Search.computeDirection setting entry)).journal.toList ∨
        Event.roundBegan m ∈
          (finalState (Search.computeDirection setting entry)).journal.toList) →
      m.AggregatesFull) ∧
    (solvesOf (finalState (Search.computeDirection setting entry)).journal.toList).IsChain
      Moment.Inherits ∧
    (solvesOf (finalState (Search.computeDirection setting entry)).journal.toList).IsChain
      fun m m' => m'.FallsBack ∨ (m'.solver.Optimal →
        m.solver.subproblem.dual m.solver.weights ≤
          m'.solver.subproblem.dual m'.solver.weights) := by
  have hcall := Search.computeDirection_cases hw
  have hchain := hcall.isChain_inherits
  refine ⟨fun m hm => ?_, hchain, hchain.imp fun m m' hinherits => ?_⟩
  · rcases hm with hsolved | hbegan
    · obtain ⟨start, hopens, kind, journal, hreached⟩ := hcall.cases_of_event hsolved
      exact (hreached.backs hopens.inv hopens.aggregatedCuts_eq).aggregatesFull
        (hreached.inv hopens.inv).base (.inl ⟨kind, rfl⟩)
    · obtain ⟨start, hopens, first, journal, hreached⟩ := hcall.cases_of_event hbegan
      exact (hreached.backs hopens.inv hopens.aggregatedCuts_eq).aggregatesFull
        (hreached.inv hopens.inv).base (.inr ⟨first, rfl⟩)
  · exact or_iff_not_imp_left.mpr hinherits.dual_le

/-- A search across the valley that aggregates twice and then goes over to the full cuts. -/
def condensing : Setting ℚ where
  oracle := valley
  options :=
    { addFarPoints := true
      tryAggregation := true
      tryShortenedStep := false
      aggregationThreshold := 3
      gradientStepsize := 1
      iterationLimit := 4 }
  rule := .never
  clock _ := 0
  minimizer _ request := ⟨3 / 4 :: 1 / 4 :: Vec.zeros (request.start.length - 2), 0, 1, ""⟩

/-- The gradient step, all near points, the aggregated cuts, the switch and a warm solve:
the numbers of planes, of full cuts and of aggregated cuts. -/
theorem solves_inherit_across_valley :
    (solvesOf (finalState (Search.computeDirection condensing acrossValley)).journal.toList).map
        (fun m => (m.solver.cuts, m.engine.fullCuts.length, m.engine.aggregatedCuts.length)) =
      [(1, 0, 0), (2, 2, 0), (3, 3, 3), (4, 4, 3), (5, 5, 3)] ∧
    (solvesOf
      (finalState (Search.computeDirection condensing acrossValley)).journal.toList).IsChain
        Moment.Inherits := by
  have hw : acrossValley.workspace.WellFormed condensing.oracle := wellFormed_acrossValley
  refine ⟨?_, (solves_inherit hw).2.1⟩
  decide +kernel

end NonsmoothDescent
