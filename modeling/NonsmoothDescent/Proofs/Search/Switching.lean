import NonsmoothDescent.Proofs.Search.Anchor
import NonsmoothDescent.Proofs.Search.Resolve

/-!
# Aggregation and its end

While aggregation goes on, a round replaces the aggregated cuts by two, adds its own, one or
two at most, and solves on the result. So these solves have from two to four cuts, however
many rounds there were. A round that finds too many points in the bundle solves on the full
cuts instead, and the engine marks this before the search goes on. The mark is never taken
back, so there is one such round at most. After it no round aggregates, and each solves
warm, with its own cuts behind the full ones. A fallback leaves the mark alone.

That a solve is warm or cold is said of the solve itself and of what the journal tells of it:
the question to the minimizer, which stands just before the solve, asks to start from the
weights of the last solve with zeros for the new planes, or from equal weights.
-/

namespace NonsmoothDescent

variable {α : Type} [Scalar α]

/-- A cold solve on the aggregated cuts, which are few and begin with the one at the current
point. -/
structure Moment.OnAggregated (m : Moment α) : Prop where
  active_eq : m.engine.active = .aggregated
  denote : Cut.DenoteAll m.workspace m.engine.aggregatedCuts m.solver.subproblem.planes
  headed : Cut.Headed m.workspace m.engine.aggregatedCuts
  two_le : 2 ≤ m.solver.cuts
  le_four : m.solver.cuts ≤ 4
  saved_eq : m.solver.saved = none

/-- A solve on the full cuts. -/
structure Moment.OnFull (m : Moment α) : Prop where
  active_eq : m.engine.active = .full
  denote : Cut.DenoteAll m.workspace m.engine.fullCuts m.solver.subproblem.planes

/-- A moment in the journal is what came of a solve. Just before it stands the question that
the minimizer was asked for this solve, if it was asked. -/
structure Moment.ComesOf (events after : List (Event α)) (made : Solver.Solved α)
    (m : Moment α) : Prop where
  solver_eq : m.solver = made.solver
  asked_iff : ∀ c, (∃ earlier, events = earlier ++ .consulted c :: .solved m :: after) ↔
    made.consultation = some c

/-- A cold solve: planes take the place of those that a solver had, and the minimizer is asked
to start from equal weights. -/
structure Moment.SolvedCold (setting : Setting α) (events after : List (Event α)) (s : Solver α)
    (m : Moment α) : Prop where
  made : ∃ planes asked,
    m.ComesOf events after ((s.loaded planes).solve (setting.minimizer asked))
  saved_eq : m.solver.saved = none
  start_eq : ∀ earlier c, events = earlier ++ .consulted c :: .solved m :: after →
    c.request.start = m.solver.equalWeights

/-- A warm solve: planes come behind those that a solver had, and the minimizer is asked to
start from its weights with zeros for the new planes. Weights without a positive sum are of no
use as a start. -/
structure Moment.SolvedWarm (setting : Setting α) (events after : List (Event α)) (s : Solver α)
    (m : Moment α) : Prop where
  made : ∃ planes asked,
    m.ComesOf events after ((s.extended planes).solveWarm (setting.minimizer asked))
  saved_eq : m.solver.saved = some s.weights
  start_eq : ∀ earlier c, events = earlier ++ .consulted c :: .solved m :: after →
    c.request.start = if Vec.sum s.weights ≤ 0 then m.solver.equalWeights
      else s.weights ++ Vec.zeros (m.solver.cuts - s.cuts)

/-- How the solve of a round goes, by the mark with which the round begins and the number of
points that it finds in the bundle. -/
inductive Resolution (setting : Setting α) (threshold : Int) (events after : List (Event α))
    (r m : Moment α) : Prop where
  | aggregated (hmark : r.engine.switched = false)
      (hfew : (m.workspace.bundle.size : Int) < threshold) (hcuts : m.OnAggregated)
      (hcold : m.SolvedCold setting events after r.solver)
  | switching (hmark : r.engine.switched = false)
      (hmany : ¬ (m.workspace.bundle.size : Int) < threshold) (hcuts : m.OnFull)
      (hcold : m.SolvedCold setting events after r.solver)
  | warm (hmark : r.engine.switched = true) (hcuts : m.OnFull)
      (hwarm : m.SolvedWarm setting events after r.solver)

/-- The moments that the events tell of and the state in the end have the mark. -/
def Marked (events : List (Event α)) (final : SearchState α) : Prop :=
  (∀ event ∈ events, ∀ m, event.moment? = some m → m.engine.switched = true) ∧
    final.engine.switched = true

section Steps

variable {setting : Setting α} {a b : Stage α} {s s' t u start : SearchState α}
  {kind : SolveKind α} {events after : List (Event α)} {made : Solver.Solved α}

/-! ## What the journal tells of a solve -/

/-- A state that a solve has just led to: behind an old journal stands what was asked for the
solve, and then the solve. -/
structure SearchState.MadeBy (before : List (Event α)) (made : Solver.Solved α)
    (s : SearchState α) : Prop where
  solver_eq : s.solver = made.solver
  journal_eq : s.journal.toList =
    before ++ (made.consultation.map Event.consulted).toList ++ [.solved s.toMoment]

/-- What a solve stores is what it has made. -/
theorem SearchState.madeBy_solved (setting : Setting α) (warm : Bool) (s : SearchState α) :
    (s.solved setting warm).MadeBy s.journal.toList (s.answer setting warm) where
  solver_eq := Moment.solver_solved setting warm s.toMoment
  journal_eq := by
    change ((s.journal ++ ((s.answer setting warm).consultation.map Event.consulted).toList).push
      _).toList = _
    rw [Array.toList_push, Array.toList_appendList]
    rfl

/-- On planes that replace the old ones the solve is cold. -/
theorem SearchState.madeBy_resolved (setting : Setting α) (planes : List (Plane α))
    (active : ActiveCuts α) (s : SearchState α) :
    (s.resolved setting planes active).MadeBy s.journal.toList
      ((s.solver.loaded planes).solve (s.ask setting)) := by
  rw [← s.solver_loaded planes active]
  exact (s.on (s.loaded planes active)).madeBy_solved setting false

/-- On planes behind the old ones it is warm. -/
theorem SearchState.madeBy_continued (setting : Setting α) (planes : List (Plane α))
    (s : SearchState α) :
    (s.continued setting planes).MadeBy s.journal.toList
      ((s.solver.extended planes).solveWarm (s.ask setting)) := by
  rw [← s.solver_extended planes]
  exact (s.on (s.extended planes)).madeBy_solved setting true

/-- However the search goes on, the journal tells of the solve and of what was asked for it. As
the old journal does not end with a question, one just before the solve was asked for it. -/
theorem SearchState.MadeBy.comesOf (h : u.MadeBy t.journal.toList made)
    (hinv : Inv setting .ready start.toMoment) (hempty : start.journal = #[])
    (hreached : Reached setting start a s) (hjournal : t.journal = s.journal)
    (hevents : events = u.journal.toList ++ after) : u.toMoment.ComesOf events after made := by
  refine ⟨h.solver_eq, fun c => ?_⟩
  have hold := hreached.getLast?_ne_consulted hinv hempty c
  have htold : events = t.journal.toList ++ (made.consultation.map Event.consulted).toList ++
      .solved u.toMoment :: after := by
    rw [hevents, h.journal_eq, List.append_assoc, List.singleton_append]
  rw [htold, hjournal]
  constructor
  · rintro ⟨earlier, heq⟩
    rw [List.append_cons earlier] at heq
    have hlast := congrArg List.getLast? (List.append_cancel_right heq)
    rw [List.getLast?_concat] at hlast
    cases hmade : made.consultation with
    | none =>
      rw [hmade, Option.map_none, Option.toList_none, List.append_nil] at hlast
      exact absurd hlast hold
    | some c' =>
      rw [hmade, Option.map_some, Option.toList_some, List.getLast?_concat] at hlast
      cases hlast
      rfl
  · intro hmade
    rw [hmade]
    exact ⟨s.journal.toList, List.append_assoc ..⟩

/-- A solve on planes that replace the old ones is cold. -/
theorem Reached.solvedCold {planes : List (Plane α)} {active : ActiveCuts α}
    (hinv : Inv setting .ready start.toMoment) (hempty : start.journal = #[])
    (h : Reached setting start a s) (hjournal : t.journal = s.journal)
    (hevents : events = (t.resolved setting planes active).journal.toList ++ after) :
    (t.resolved setting planes active).SolvedCold setting events after t.solver := by
  have hcomes := (t.madeBy_resolved setting planes active).comesOf hinv hempty h hjournal hevents
  refine ⟨⟨planes, _, hcomes⟩, saved_resolved .., fun earlier c htold => ?_⟩
  have hasked := (hcomes.asked_iff c).mp ⟨earlier, htold⟩
  have hcuts : (t.resolved setting planes active).solver.cuts = (t.solver.loaded planes).cuts := by
    rw [Solver.cuts, subproblem_resolved]
    rfl
  rw [Solver.request_of_consultation _ false _ hasked, Solver.equalWeights, hcuts]
  rfl

/-! ## The solves of rounds -/

/-- A solve with the full cuts as the active ones is on the full cuts. -/
theorem Reached.onFull (hinv : Inv setting .ready start.toMoment)
    (h : Reached setting start (.solved kind) s) (hactive : s.engine.active = .full) :
    s.OnFull := by
  obtain ⟨hsolves, _⟩ := (h.inv hinv).holds
  have hdenote := hsolves.denote
  rw [Engine.activeCuts, hactive] at hdenote
  exact ⟨hactive, hdenote⟩

/-- The aggregated cuts are two and those of the round. -/
theorem Reached.onAggregated (hinv : Inv setting .ready start.toMoment)
    (h : Reached setting start (.solved .aggregated) s) : s.OnAggregated := by
  obtain ⟨hsolves, hactive, _⟩ := (h.inv hinv).holds
  have hdenote := hsolves.denote
  rw [Engine.activeCuts, hactive] at hdenote
  have hheaded : s.Headed := h.heads hinv
  obtain _ | @⟨_, _, t, _, hreached, hstep⟩ := h
  cases hstep with
  | @solveAggregated _ added _ planes _ _ hplanes =>
    obtain ⟨_, haggregated⟩ := hreached.augments hinv
    obtain ⟨first, second, hcuts⟩ := haggregated rfl
    have hfew : added.length ≤ 2 := hreached.length_gathered_le hinv
    have hlength := hplanes.length_eq
    rw [hcuts, List.length_cons, List.length_cons] at hlength
    have hcount : (t.resolved setting planes .aggregated).solver.cuts = added.length + 2 := by
      rw [Solver.cuts, subproblem_resolved]
      exact hlength.symm
    refine ⟨hactive, hdenote, hheaded.aggregated, ?_, ?_, saved_resolved ..⟩
    · rw [hcount]
      exact Nat.le_add_left _ _
    · rw [hcount]
      exact Nat.add_le_add_right hfew 2

/-- In a round the solver has weights. -/
theorem Reached.weights_ne_nil {added : List (Cut α)} (hinv : Inv setting .ready start.toMoment)
    (h : Reached setting start (.augmented false added) s) : s.solver.weights ≠ [] := by
  obtain _ | @⟨_, _, t, _, hreached, hstep⟩ := h
  have hinv' := hreached.inv hinv
  have hsame := hstep.solver_eq hinv' rfl
  cases hstep with
  | augment =>
    obtain ⟨hsolves, ⟨_, hactive⟩, _⟩ := hinv'.holds
    have hheaded : t.Headed := hreached.heads hinv
    have hlength := hsolves.length_weights
    obtain hfull | ⟨hfalse, _⟩ := hactive
    · obtain ⟨p, rest, _, hcuts⟩ := hheaded.full
      rw [Engine.activeCuts, hfull, hcuts] at hlength
      rw [hsame]
      exact List.ne_nil_of_length_pos (hlength ▸ Nat.succ_pos _)
    · cases hfalse

/-- So the solve on planes behind the old ones is a warm one from these. -/
theorem Reached.solvedWarm {added : List (Cut α)} {planes : List (Plane α)}
    (hinv : Inv setting .ready start.toMoment) (hempty : start.journal = #[])
    (h : Reached setting start (.augmented false added) s)
    (hevents : events = (s.continued setting planes).journal.toList ++ after) :
    (s.continued setting planes).SolvedWarm setting events after s.solver := by
  have hcomes := (s.madeBy_continued setting planes).comesOf hinv hempty h rfl hevents
  have hne := h.weights_ne_nil hinv
  have hlength : s.solver.weights.length = s.solver.cuts := by
    refine h.of_solves (P := fun solver => solver.weights.length = solver.cuts) ?_ hinv id
    intro solver warm ask
    rw [Solver.length_solveBy_weights, Solver.cuts, Solver.cuts, Solver.solveBy_subproblem]
  refine ⟨⟨planes, _, hcomes⟩, ?_, fun earlier c htold => ?_⟩
  · rw [saved_continued, if_neg (by rwa [List.isEmpty_iff])]
  · have hasked := (hcomes.asked_iff c).mp ⟨earlier, htold⟩
    have hcuts : (s.continued setting planes).solver.cuts = (s.solver.extended planes).cuts := by
      rw [Solver.cuts, subproblem_continued]
      rfl
    rw [Solver.request_of_consultation _ true _ hasked, Solver.equalWeights, hcuts]
    exact Solver.warmStart_extended hlength hne planes

/-- A round aggregates if there is no mark when it begins. -/
theorem Resolving.switched_eq {aggregating : Bool} {added : List (Cut α)} {t u : SearchState α}
    {r : Moment α} (h : Resolving setting start r aggregating added t kind u)
    (hinv : Inv setting .ready start.toMoment) (hon : setting.options.tryAggregation = true) :
    r.engine.switched = !aggregating := by
  have haggregating : (setting.options.tryAggregation && !t.engine.switched) = aggregating :=
    (h.reached.inv hinv).holds.aggregating_eq
  rw [← h.pending.switched_eq, ← haggregating, hon, Bool.true_and, Bool.not_not]

/-- The solve of a round goes as its mark and the number of points say. -/
theorem Resolving.resolution {aggregating : Bool} {added : List (Cut α)} {t u : SearchState α}
    {r : Moment α} (h : Resolving setting start r aggregating added t kind u)
    (hinv : Inv setting .ready start.toMoment) (hempty : start.journal = #[])
    (hon : setting.options.tryAggregation = true)
    (hevents : events = u.journal.toList ++ after) :
    ∃ threshold, Search.pointThreshold setting.options u.workspace.dimension = .ok threshold ∧
      Resolution setting threshold events after r u.toMoment := by
  have hmark := h.switched_eq hinv hon
  obtain ⟨hreached, hstep, hpending⟩ := h
  have hinv' := hreached.inv hinv
  have hnext := hreached.step hstep
  have hbundle := hstep.bundle_eq hinv' rfl
  have hdimension := (hstep.advances hinv').grows.dimension_eq
  cases hstep with
  | solveAggregated hthreshold hfew =>
    have hcold := hreached.solvedCold hinv hempty rfl hevents
    rw [hpending.solver_eq] at hcold
    exact ⟨_, hthreshold, .aggregated hmark hfew (hnext.onAggregated hinv) hcold⟩
  | @solveSwitching _ t₁ _ threshold planes hthreshold hmany hnote =>
    have hq := ((Search.note_leads _ _).of_run hnote).quiet setting.oracle
    have hcold := hreached.solvedCold hinv hempty hq.journal_eq hevents
    rw [hq.solver_eq', hpending.solver_eq] at hcold
    rw [← hbundle] at hmany
    exact ⟨threshold, hdimension ▸ hthreshold, .switching hmark hmany (hnext.onFull hinv rfl) hcold⟩
  | solveWarm hthreshold =>
    have hwarm := hreached.solvedWarm hinv hempty hevents
    rw [hpending.solver_eq] at hwarm
    exact ⟨_, hthreshold, .warm hmark (hnext.onFull hinv rfl) hwarm⟩

/-! ## The mark -/

/-- Before the first round there is no mark. -/
theorem Reached.switched_of_early (hinv : Inv setting .ready start.toMoment)
    (hstart : start.engine.switched = false) (h : Reached setting start b s) (hb : b.Early) :
    s.engine.switched = false := by
  induction h with
  | start => exact hstart
  | step hreached hstep ih =>
    rw [hstep.switched_eq (hreached.inv hinv) (by rintro rfl; exact hb)]
    exact ih (hstep.early hb).1

/-- The mark is made after the solve that ends aggregation, and is never taken back. -/
theorem Step.switched (hstep : Step setting a s b s') (hinv : Inv setting a s.toMoment)
    (h : a = .solved .switching ∨ s.engine.switched = true) : s'.engine.switched = true := by
  have hkept := hstep.switched_eq hinv
  rcases h with rfl | hmark
  · cases hstep with
    | markSwitch => rfl
    | nextRound hkind => cases hkind
    | failSolver hkind => obtain hfull | hround := hkind <;> [cases hfull; cases hround]
    | fallBack hkind =>
      obtain ⟨hfull, _⟩ | ⟨hround, _⟩ := hkind
      · cases hfull
      · cases hround
  · by_cases hb : b = .solved .switched
    · subst hb
      cases hstep
      rfl
    · exact (hkept hb).trans hmark

/-- From the mark on, and from the solve that brings it, all that is written has it. -/
theorem Reached.marked_of_continues (hinv : Inv setting .ready start.toMoment)
    (h : Reached setting start a s) (ha : a = .solved .switching ∨ s.engine.switched = true)
    (hon : Continues setting (a, s) (b, s')) :
    (b = .solved .switching ∨ s'.engine.switched = true) ∧
      ∃ more, s'.journal.toList = s.journal.toList ++ more ∧
        ∀ event ∈ more, ∀ m, event.moment? = some m → m.engine.switched = true := by
  refine hon.induct (P := fun b t => (b = .solved .switching ∨ t.engine.switched = true) ∧
    ∃ more, t.journal.toList = s.journal.toList ++ more ∧
      ∀ event ∈ more, ∀ m, event.moment? = some m → m.engine.switched = true) ⟨ha, [], ?_, ?_⟩ ?_
  · rw [List.append_nil]
  · exact fun event hevent => absurd hevent List.not_mem_nil
  · rintro b c t u hcontinues hstep ⟨hmark, more, hmore, hmarked⟩
    have hinv' := (h.continues hinv hcontinues).1.inv hinv
    have hnext := hstep.switched hinv' hmark
    obtain ⟨new, hnew, hfits, _⟩ := hstep.records hinv'
    refine ⟨.inr hnext, more ++ new, by rw [hnew, hmore, List.append_assoc], ?_⟩
    intro event hevent m hm
    rcases List.mem_append.mp hevent with hold | hlast
    · exact hmarked event hold m hm
    · have hfit := hfits event hlast
      cases event with
      | consulted => cases hm
      | solved | tested =>
        cases hm
        rw [hfit.1]
        exact hnext
      | roundBegan =>
        cases hm
        obtain ⟨rfl, first, rfl⟩ := hfit
        exact hmark.resolve_left nofun

/-- With the mark every solve is a fallback, or one on the full cuts with planes behind those of
the last solve. -/
theorem Step.solve_of_switched (hstep : Step setting a s (.solved kind) s')
    (h : Reached setting start a s) (hinv : Inv setting .ready start.toMoment)
    (hstart : start.engine.switched = false) (hgain : (Stage.solved kind).gain = 1)
    (hmark : s'.engine.switched = true) :
    (∃ cut, s'.engine.active = .own [cut]) ∨ s'.OnFull ∧
      ∃ added planes, a = .augmented false added ∧ s' = s.continued setting planes := by
  have hnext := h.step hstep
  have hinv' := h.inv hinv
  have hearly := hnext.switched_of_early hinv hstart
  have hsame := hstep.switched_eq hinv'
  have hoff : ∀ {added : List (Cut α)}, kind ≠ .switched → a ≠ .augmented true added := by
    rintro added hkind rfl
    have haggregating : (setting.options.tryAggregation && !s.engine.switched) = true :=
      hinv'.holds.aggregating_eq
    rw [← hsame fun hsolved => hkind (Stage.solved.inj hsolved), hmark, Bool.not_true,
      Bool.and_false] at haggregating
    cases haggregating
  cases hstep with
  | solveGradient | solveFull => cases (hearly trivial).symm.trans hmark
  | fallBack => exact .inl ⟨_, rfl⟩
  | solveAggregated | solveSwitching =>
    exact absurd rfl (hoff nofun)
  | markSwitch => cases hgain
  | solveWarm => exact .inr ⟨hnext.onFull hinv rfl, _, _, rfl, rfl⟩

end Steps

section Call

variable {setting : Setting α} {entry start s final : SearchState α} {b : Stage α}
  {events before before' after after' : List (Event α)} {r r' m m' : Moment α} {event : Event α}

/-- The stages at which a call may come to its end. -/
def Stage.Stops : Stage α → Prop
  | .ended _ | .augmented _ _ => True
  | _ => False

/-- Whatever becomes of a call, it ends as a search that has done nothing yet, or as one that
stops. -/
theorem CallResult.stopped {result : EStateM.Result (Fault α) (SearchState α) Outcome}
    (h : CallResult setting entry result) :
    ∃ s, Quiet setting.oracle s (finalState result) ∧
      (Fresh entry s ∨ ∃ start stage, Opens setting entry start ∧ Reached setting start stage s ∧
        stage.Stops) := by
  cases h with
  | unevaluated hfresh hcloses => exact ⟨_, hcloses.quiet setting.oracle, .inl hfresh⟩
  | ended hopens hreached hcloses | timeUp hopens hreached hcloses =>
    exact ⟨_, hcloses.quiet setting.oracle, .inr ⟨_, _, hopens, hreached, trivial⟩⟩
  | overflowed hopens hoverflows =>
    obtain ⟨_, _, _, hreached⟩ := hoverflows
    exact ⟨_, .refl _ _, .inr ⟨_, _, hopens, hreached, trivial⟩⟩

/-- Of two rounds that are resolved, one begins after the solve of the other. -/
theorem Resolves.eq_or_mem (h : Resolves events before r m after)
    (h' : Resolves events before' r' m' after') :
    before = before' ∨ .roundBegan r' ∈ after ∨ .roundBegan r ∈ after' := by
  have hlater : ∀ {between more rest after : List (Event α)} {r r' m : Moment α},
      roundsOf between = [] →
      .roundBegan r :: (between ++ .solved m :: after) = more ++ .roundBegan r' :: rest →
        more = [] ∨ .roundBegan r' ∈ after := by
    intro between more rest after r r' m hnone heq
    cases more with
    | nil => exact .inl rfl
    | cons event more =>
      have hmem : Event.roundBegan r' ∈ between ++ .solved m :: after := by
        rw [(List.cons.inj heq).2]
        exact List.mem_append_right _ List.mem_cons_self
      rcases List.mem_append.mp hmem with hbetween | hafter
      · rw [← mem_roundsOf, hnone] at hbetween
        exact absurd hbetween List.not_mem_nil
      · rcases List.mem_cons.mp hafter with hsolved | hafter
        · cases hsolved
        · exact .inr hafter
  obtain ⟨between, hevents, hrounds, _⟩ := h
  obtain ⟨between', hevents', hrounds', _⟩ := h'
  rcases List.append_eq_append_iff.mp (hevents.symm.trans hevents') with
    ⟨more, rfl, hmore⟩ | ⟨more, rfl, hmore⟩
  · refine (hlater hrounds hmore).imp ?_ .inl
    rintro rfl
    exact (List.append_nil _).symm
  · refine (hlater hrounds' hmore).imp ?_ .inr
    rintro rfl
    exact List.append_nil _

/-- From an event with the mark on, all have it. -/
theorem Reached.marked_of_split (hinv : Inv setting .ready start.toMoment)
    (hempty : start.journal = #[]) (h : Reached setting start b s) (hb : b.Stops)
    (hsplit : s.journal.toList = before ++ event :: after) (hevent : event.moment? = some m)
    (hmark : m.engine.switched = true) : Marked after s := by
  obtain ⟨a, c, t, u, hwriting, hon⟩ := h.of_split hinv hempty hevent hsplit
  have hreached := hwriting.reached.step hwriting.step
  have hnow : u.engine.switched = true := by
    cases event with
    | consulted => cases hevent
    | solved =>
      cases hevent
      rw [hwriting.of_solved.1]
      exact hmark
    | tested =>
      cases hevent
      rw [hwriting.of_tested.1]
      exact hmark
    | roundBegan =>
      cases hevent
      have hmark' : t.engine.switched = true := by
        rw [hwriting.of_roundBegan.1]
        exact hmark
      exact hwriting.step.switched (hwriting.reached.inv hinv) (.inr hmark')
  obtain ⟨hend, more, hmore, hmarked⟩ := hreached.marked_of_continues hinv (.inr hnow) hon
  rw [hsplit, hwriting.journal_eq, List.append_assoc] at hmore
  obtain rfl := (List.cons.inj (List.append_cancel_left hmore)).2
  refine ⟨hmarked, hend.resolve_left ?_⟩
  rintro rfl
  exact hb.elim

/-- From a round that goes over to the full cuts on, all have the mark. -/
theorem Reached.marked_of_resolves (hinv : Inv setting .ready start.toMoment)
    (hempty : start.journal = #[]) (h : Reached setting start b s) (hb : b.Stops)
    (hresolves : Resolves s.journal.toList before r m after)
    (hmark : r.engine.switched = false) (hactive : m.engine.active = .full)
    (hon : setting.options.tryAggregation = true) : Marked after s := by
  obtain ⟨aggregating, added, t, kind, u, hresolving, rfl, ⟨earlier, hu, hs⟩, hcontinues⟩ :=
    h.of_resolves hinv hempty hresolves
  have hswitching : kind = .switching := by
    have hmark' := hmark.symm.trans (hresolving.switched_eq hinv hon)
    cases hresolving.step with
    | solveAggregated => cases hactive
    | solveSwitching => rfl
    | solveWarm => cases hmark'
  subst hswitching
  obtain ⟨hend, more, hmore, hmarked⟩ := (hresolving.reached.step
    hresolving.step).marked_of_continues hinv (.inl rfl) hcontinues
  rw [hs, hu, List.append_assoc] at hmore
  obtain rfl := (List.cons.inj (List.append_cancel_left hmore)).2
  refine ⟨hmarked, hend.resolve_left ?_⟩
  rintro rfl
  exact hb.elim

/-- With aggregation on, this is how the rounds of a call are resolved, and how aggregation
ends. -/
structure SwitchesOnce (setting : Setting α) (final : SearchState α) : Prop where
  aggregated : ∀ m, Event.solved m ∈ final.journal.toList →
    m.engine.active = .aggregated → m.OnAggregated
  resolution : ∀ before r m after, Resolves final.journal.toList before r m after →
    ∃ threshold, Search.pointThreshold setting.options m.workspace.dimension = .ok threshold ∧
      Resolution setting threshold final.journal.toList after r m
  /-- A round that aggregates and is resolved on the full cuts is the last that aggregates. -/
  switching : ∀ before r m after, Resolves final.journal.toList before r m after →
    r.engine.switched = false → m.engine.active = .full → Marked after final
  once : ∀ before before' r r' m m' after after',
    Resolves final.journal.toList before r m after → r.engine.switched = false →
    m.engine.active = .full → Resolves final.journal.toList before' r' m' after' →
    r'.engine.switched = false → m'.engine.active = .full → before = before'
  /-- The mark is never taken back. -/
  marked : ∀ before event after m, final.journal.toList = before ++ event :: after →
    event.moment? = some m → m.engine.switched = true → Marked after final
  /-- After the switch each solve is a fallback or a warm one on the full cuts, from the weights
  of the solve before it. -/
  warm : ∀ before m after, final.journal.toList = before ++ .solved m :: after →
    m.engine.switched = true → (∃ cut, m.engine.active = .own [cut]) ∨
      m.OnFull ∧ ∃ last, (solvesOf before).getLast? = some last ∧
        m.SolvedWarm setting final.journal.toList after last.solver

namespace SwitchesOnce

/-- Where the journal is empty there is nothing to say. -/
theorem of_nil (h : final.journal.toList = []) : SwitchesOnce setting final := by
  have hsplit : ∀ {before after : List (Event α)} {event : Event α},
      final.journal.toList ≠ before ++ event :: after := by
    intro before after event hsplit
    rw [h] at hsplit
    exact List.append_ne_nil_of_right_ne_nil _ (List.cons_ne_nil _ _) hsplit.symm
  have hsolved : ∀ m, Event.solved m ∉ final.journal.toList := by
    rw [h]
    exact fun _ => List.not_mem_nil
  exact ⟨fun m hm => absurd hm (hsolved m), fun _ _ _ _ ⟨_, hround, _⟩ => absurd hround hsplit,
    fun _ _ _ _ ⟨_, hround, _⟩ => absurd hround hsplit,
    fun _ _ _ _ _ _ _ _ ⟨_, hround, _⟩ => absurd hround hsplit,
    fun _ _ _ _ hevent => absurd hevent hsplit, fun _ _ _ hsolve => absurd hsolve hsplit⟩

/-- What is said of a call is about its journal and its mark in the end. -/
theorem of_eq (h : SwitchesOnce setting s) (hjournal : final.journal = s.journal)
    (hswitched : final.engine.switched = s.engine.switched) : SwitchesOnce setting final := by
  obtain ⟨haggregated, hresolution, hswitching, honce, hmarked, hwarm⟩ := h
  have hkept : ∀ {after : List (Event α)}, Marked after s → Marked after final :=
    fun h => ⟨h.1, hswitched.trans h.2⟩
  rw [← hjournal] at haggregated hresolution hswitching honce hmarked hwarm
  exact ⟨haggregated, hresolution, fun before r m after h hmark hactive =>
    hkept (hswitching before r m after h hmark hactive), honce,
    fun before event after m h hevent hmark =>
      hkept (hmarked before event after m h hevent hmark), hwarm⟩

end SwitchesOnce

/-- Where a search stops, its rounds were resolved in this way. -/
theorem Reached.switchesOnce (hopens : Opens setting entry start)
    (h : Reached setting start b s) (hb : b.Stops)
    (hon : setting.options.tryAggregation = true) : SwitchesOnce setting s := by
  have hinv := hopens.inv
  have hempty := hopens.journal_eq
  have hmarked : ∀ before r m after, Resolves s.journal.toList before r m after →
      r.engine.switched = false → m.engine.active = .full → Marked after s :=
    fun _ _ _ _ hresolves hmark hactive =>
      h.marked_of_resolves hinv hempty hb hresolves hmark hactive hon
  constructor
  case aggregated =>
    intro m hm hactive
    obtain ⟨kind, journal, hreached⟩ := h.occurs hinv hempty _ hm
    obtain ⟨_, hfits⟩ := (hreached.inv hinv).holds
    cases kind with
    | aggregated => exact hreached.onAggregated hinv
    | gradient =>
      obtain ⟨plane, hown⟩ := hfits
      cases hown.symm.trans hactive
    | switched | warm => cases hfits.1.symm.trans hactive
    | full | switching | fallback => cases (show m.engine.active = _ from hfits).symm.trans hactive
  case resolution =>
    intro before r m after hresolves
    obtain ⟨_, _, _, _, _, hresolving, rfl, ⟨earlier, hu, hs⟩, _⟩ :=
      h.of_resolves hinv hempty hresolves
    exact hresolving.resolution hinv hempty hon
      (by rw [hs, hu, List.append_assoc, List.singleton_append])
  case switching => exact hmarked
  case once =>
    intro before before' r r' m m' after after' hresolves hmark hactive hresolves' hmark' hactive'
    rcases hresolves.eq_or_mem hresolves' with heq | hlater | hlater
    · exact heq
    · cases ((hmarked _ _ _ _ hresolves hmark hactive).1 _ hlater _ rfl).symm.trans hmark'
    · cases ((hmarked _ _ _ _ hresolves' hmark' hactive').1 _ hlater _ rfl).symm.trans hmark
  case marked =>
    intro before event after m hsplit hevent hmark
    exact h.marked_of_split hinv hempty hb hsplit hevent hmark
  case warm =>
    intro before m after hsplit hmark
    obtain ⟨a, c, t, u, hwriting, _⟩ := h.of_split hinv hempty rfl hsplit
    obtain ⟨rfl, hgain, ⟨kind, rfl⟩, asked, hbefore, _, hunsolved⟩ := hwriting.of_solved
    have hu := hwriting.journal_eq
    refine (hwriting.step.solve_of_switched hwriting.reached hinv hopens.switched_eq hgain
      hmark).imp_right ?_
    rintro ⟨hfull, added, planes, rfl, rfl⟩
    obtain ⟨last, hlast, hsolver⟩ := hwriting.reached.solver_of_last hinv id
    have hwarm : (t.continued setting planes).SolvedWarm setting s.journal.toList after t.solver :=
      hwriting.reached.solvedWarm hinv hempty
        (by rw [hsplit, hu, List.append_assoc, List.singleton_append])
    refine ⟨hfull, last, ?_, hsolver ▸ hwarm⟩
    rw [hbefore, solvesOf_append, hunsolved, List.append_nil]
    exact hlast

/-- In every call that tries aggregation the solves on aggregated cuts are cold and have from
two to four cuts, the first of them the one at the current point. A round that begins before
the switch is resolved on the aggregated cuts exactly if there are fewer points in the bundle
than the threshold, with those of the round, and else on the full cuts, which is the switch.
There is one switch at most and it is never taken back. After it each solve is a fallback or
a warm one on the full cuts: the minimizer is asked to start from the weights of the solve
before it, with zeros for the new planes. -/
theorem aggregation_switches_once (hw : entry.workspace.WellFormed setting.oracle)
    (hon : setting.options.tryAggregation = true) :
    SwitchesOnce setting (finalState (Search.computeDirection setting entry)) := by
  obtain ⟨s, hquiet, hfresh | ⟨start, stage, hopens, hreached, hstops⟩⟩ :=
    (Search.computeDirection_cases hw).stopped
  · exact .of_nil (by rw [hquiet.journal_eq, hfresh.journal_eq])
  · exact (hreached.switchesOnce hopens hstops hon).of_eq hquiet.journal_eq hquiet.switched_eq

end Call

/-- Across the valley two rounds aggregate. The first is resolved on the aggregated cuts, the
second is the switch, and the third solves warm: the numbers of planes, whether the solve was
warm, and the mark. The minimizer is asked to start from equal weights, and the last time from
the weights of the solve before with a zero behind them. -/
theorem aggregation_switches_once_across_valley :
    SwitchesOnce condensing
        (finalState (Search.computeDirection condensing acrossValley)) ∧
      (solvesOf (finalState (Search.computeDirection condensing acrossValley)).journal.toList).map
          (fun m => (m.solver.cuts, m.solver.saved.isSome, m.engine.switched)) =
        [(1, false, false), (2, false, false), (3, false, false), (4, false, false),
          (5, true, true)] ∧
      (Search.consultations
          (finalState (Search.computeDirection condensing acrossValley)).journal).map
          (·.request.start) =
        [[1 / 2, 1 / 2], [1 / 3, 1 / 3, 1 / 3], [1 / 4, 1 / 4, 1 / 4, 1 / 4],
          [3 / 4, 1 / 4, 0, 0, 0]] ∧
      (roundsOf (finalState (Search.computeDirection condensing acrossValley)).journal.toList).map
          (fun m => m.engine.switched) = [false, false, true, true] := by
  have hw : acrossValley.workspace.WellFormed condensing.oracle := wellFormed_acrossValley
  refine ⟨aggregation_switches_once hw rfl, ?_⟩
  decide +kernel

end NonsmoothDescent
