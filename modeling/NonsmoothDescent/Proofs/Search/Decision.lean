import NonsmoothDescent.Proofs.Search.Order
import NonsmoothDescent.Proofs.Search.Setup
import NonsmoothDescent.Proofs.Search.Stationarity

/-!
# What becomes of failed solves

A search decides nothing on a solve that failed. In exact arithmetic the solve on the cut
at the current point alone cannot fail, and it does not need the minimizer. The gradient
step rests on such a solve, and a solve that failed is either the end of the search or
replaced by one. So whenever a trial is tested, cuts are aggregated or new cuts are made,
the last solve was a success and its weights are a weighting.

The journal shows this in its order: a solve that failed is its last event or followed at
once by the solve in its place, and after that a round begins whose cuts are the one cut
at the current point.
-/

namespace NonsmoothDescent

variable {K : Type} [Field K] [LinearOrder K] [FloorRing K]

/-! ## Solves on one plane -/

/-- The last solve was a success, and its weights are a weighting of the planes. -/
structure Solver.Sure (s : Solver K) : Prop where
  status_eq : s.status = .success
  isWeighting : IsWeighting s.cuts s.weights

/-- The solver has given all weight to its only plane, without the minimizer. -/
structure Solver.Alone (s : Solver K) (p : Plane K) : Prop where
  planes_eq : s.subproblem.planes = [p]
  status_eq : s.status = .success
  weights_eq : s.weights = [1]
  iterations_eq : s.iterations = 0
  combination_eq : s.combination = p.slope
  step_eq : s.step = p.slope.map fun g => s.subproblem.bound.clip (-g)

/-- A plane alone takes all weight, unless a failure is rehearsed. -/
theorem Solver.alone_solveBy {s : Solver K} {p : Plane K} (hplanes : s.subproblem.planes = [p])
    (hlength : p.slope.length = s.dimension) (hdrill : s.drill = none) (warm : Bool)
    (ask : Request K → Answer K) : (s.solveBy warm ask).solver.Alone p := by
  have hcuts : s.cuts = 1 := by rw [cuts, hplanes, List.length_singleton]
  have hcombination : s.subproblem.combination [1] = p.slope := by
    change (Subproblem.mix s.dimension s.subproblem.planes [1]).slope = _
    rw [hplanes, Subproblem.mix_single hlength]
  rw [s.solveBy_of_cuts_eq_one warm ask hcuts hdrill]
  refine ⟨hplanes, s.store_status .., rfl, rfl, hcombination, ?_⟩
  change s.subproblem.stepOf (s.subproblem.combination [1]) = _
  rw [hcombination]
  rfl

section Steps

variable {setting : Setting K} {a b : Stage K} {s s' start : SearchState K} {m : Moment K}

/-- A cold solve on the current plane alone has its step. -/
theorem alone_resolved {p : Plane K} (hs : s.Sound setting.oracle)
    (hcurrent : s.workspace.CurrentPlane p) (hdrill : s.solver.drill = none)
    (active : ActiveCuts K) : (s.resolved setting [p] active).solver.Alone p := by
  have hlength : p.slope.length = (s.solver.given false [p]).dimension :=
    (hcurrent.denotes hs.wellFormed).length_eq.trans s.dimension_solver.symm
  have hgiven := (Solver.Alike.given s.solver false [p]).drill_eq_none hdrill
  rw [solver_resolved]
  exact Solver.alone_solveBy rfl hlength hgiven _ _

/-- The stages at which it is settled what becomes of the last solve. -/
def Stage.Settled : Stage K → Prop
  | .ready | .opened | .ended _ => False
  | .solved kind => kind.Single
  | _ => True

/-- Each step to a settled stage has a success behind it. -/
theorem Step.success (hstep : Step setting a s b s') (hinv : Inv setting a s.toMoment)
    (hdrill : s.solver.drill = none) (ha : a.Settled → s.solver.status = .success)
    (hb : b.Settled) : s'.solver.status = .success := by
  have hsame := hstep.solver_eq hinv
  cases hstep with
  | solveGradient hon hcurrent =>
    exact (alone_resolved hinv.base.toSound hcurrent hdrill _).status_eq
  | @fallBack _ s₁ _ _ _ _ _ _ hnote hcurrent =>
    have hk := keeps_of_note setting.oracle hnote
    have hnone : s₁.solver.drill = none := hk.solver_eq' ▸ hdrill
    exact (alone_resolved (hinv.base.toSound.keeps hk) hcurrent hnone _).status_eq
  | enterLoop hstatus => exact hsame rfl ▸ hstatus
  | nextRound hkind hstatus => exact hstatus
  | restart => exact hsame rfl ▸ ha (.fallback _ _)
  | testGradient => exact hsame rfl ▸ ha .gradient
  | solveFull | solveAggregated | solveSwitching | solveWarm | markSwitch => cases hb
  | acceptGradient | rejectGradient | omitGradient | failSolver | failTrial | acceptFull
  | reachLimit | runOut | acceptShort => exact hb.elim
  | _ => exact hsame rfl ▸ ha trivial

/-- At a settled stage the last solve was a success. -/
theorem Reached.success (hinv : Inv setting .ready start.toMoment)
    (hdrill : start.solver.drill = none) (h : Reached setting start b s) (hb : b.Settled) :
    s.solver.status = .success := by
  induction h with
  | start => exact hb.elim
  | step hreached hstep ih =>
    exact hstep.success (hreached.inv hinv) ((hreached.alike hinv).drill_eq_none hdrill) ih hb

/-- Where it is settled what becomes of the last solve, it was a success with a weighting. -/
theorem Reached.sure [IsStrictOrderedRing K] (hinv : Inv setting .ready start.toMoment)
    (hdrill : start.solver.drill = none) (h : Reached setting start b s) (hb : b.Settled) :
    s.solver.Sure := by
  have hweighs := h.weighs hinv
  refine ⟨h.success hinv hdrill hb, ?_⟩
  cases b with
  | ready | opened | ended => exact hb.elim
  | solved kind => exact (hweighs (.inr hb)).isWeighting
  | _ => exact hweighs.isWeighting

end Steps

/-! ## The order of solves -/

/-- The plane has the value and the gradient of the objective at a point. -/
structure Oracle.PlaneAt (o : Oracle K) (x : List K) (p : Plane K) : Prop where
  objective_eq : (o.evaluateObjective x).1 = some p.bias
  gradient_eq : (o.evaluateGradient x).1 = some p.slope

/-- A solve that failed and the one in its place, on the plane at a point alone. -/
structure Moment.ReplacedBy (setting : Setting K) (x : List K) (radius : K) (p : Plane K)
    (m m' : Moment K) : Prop where
  status_ne : m.solver.status ≠ .success
  allowed : setting.options.failOnSolverFailure = false
  planeAt : setting.oracle.PlaneAt x p
  alone : m'.solver.Alone p
  bound_eq : m'.solver.subproblem.bound = .ofRadius (some radius)
  active_eq : m'.engine.active = .own [p.toCut]
  /-- It is not the first solve. -/
  later : 1 < m'.engine.solves

/-- A cut is all there is in each list. -/
structure Engine.Holds (e : Engine K) (cut : Cut K) : Prop where
  fullCuts_eq : e.fullCuts = [cut]
  aggregatedCuts_eq : e.aggregatedCuts = [cut]
  activeCuts_eq : e.activeCuts = [cut]

/-- A round begins with the result of the last solve, and if that was on a cut alone, with
this cut in each list. -/
structure Moment.BeginsAfter (m m' : Moment K) : Prop where
  solver_eq : m'.solver = m.solver
  restarted : ∀ cut, m.engine.active = .own [cut] → m'.engine.Holds cut

/-- A question to the minimizer is followed by its solve. A solve that failed is followed
by the one in its place, one that succeeded by a test, if it is the first, or a round. -/
def Event.GoesOn (setting : Setting K) (x : List K) (radius : K) : Event K → Event K → Prop
  | .consulted c, .solved m => c.request.subproblem = m.solver.subproblem ∧ 2 ≤ m.solver.cuts
  | .consulted _, _ | .solved _, .consulted _ => False
  | .solved m, .solved m' => ∃ p, m.ReplacedBy setting x radius p m'
  | .solved m, .roundBegan m' => m.solver.status = .success ∧ m.BeginsAfter m'
  | .solved m, .tested _ _ => m.solver.status = .success ∧ m.engine.solves = 1
  | _, _ => True

/-- The last solve at a stage just after it. -/
structure Moment.SolvedAt (m : Moment K) (kind : SolveKind K) (s : SearchState K) : Prop where
  solver_eq : s.solver = m.solver
  active_eq : s.engine.active = m.engine.active
  solves_eq : s.engine.solves = m.engine.solves
  pos : 0 < m.engine.solves
  first : kind = .gradient → m.engine.solves = 1

/-- What a solve tells of the stages after it, as long as nothing else is written. -/
def Stage.AfterSolve (setting : Setting K) (m : Moment K) : Stage K → SearchState K → Prop
  | .solved kind, s => m.SolvedAt kind s
  | .round _, s => m.solver.status = .success ∧ m.BeginsAfter s.toMoment
  | .ended outcome, _ => m.solver.status ≠ .success ∧ outcome = .solverFailure ∧
    setting.options.failOnSolverFailure = true
  | _, _ => False

/-- What the last event tells of a stage. The question to the minimizer is never last. -/
def Event.TellsSolve (setting : Setting K) : Event K → Stage K → SearchState K → Prop
  | .solved m, b, s => b.AfterSolve setting m s
  | .consulted _, _, _ => False
  | _, _, _ => True

section Order

variable {setting : Setting K} {a b : Stage K} {s s' start : SearchState K} {m : Moment K}

/-- A solve is written alone if there is one plane at most, else behind the question. -/
theorem Writes.solved_cases {new : List (Event K)} (h : Writes setting a s b s' new)
    (hb : b.gain = 1) :
    s'.solver.cuts < 2 ∧ new = [.solved s'.toMoment] ∨
      ∃ c : Consultation K, c.request.subproblem = s'.solver.subproblem ∧ 2 ≤ s'.solver.cuts ∧
        new = [.consulted c, .solved s'.toMoment] := by
  cases h with
  | nothing hnot => exact absurd (Stage.tells_of_gain hb) hnot
  | tested htested => cases htested <;> cases hb
  | began => cases hb
  | @solved _ _ t _ warm =>
    have hsubproblem : (t.solved setting warm).solver.subproblem = t.solver.subproblem := by
      have hsolver := t.solver_solved setting warm
      change (t.toMoment.solved setting warm).solver.subproblem = _
      rw [hsolver, Moment.answer, Solver.solveBy_subproblem]
    have hcuts : (t.solved setting warm).solver.cuts = t.solver.cuts := by
      rw [Solver.cuts, hsubproblem]
      rfl
    rw [Moment.answer, Solver.consultation_solveBy, hcuts]
    by_cases hfew : t.solver.cuts < 2
    · rw [if_pos hfew]
      exact .inl ⟨hfew, rfl⟩
    · rw [if_neg hfew]
      exact .inr ⟨_, hsubproblem.symm, not_lt.mp hfew, rfl⟩

/-- The plane of the current point is the one that the oracle gives there. -/
theorem Workspace.CurrentPlane.planeAt {o : Oracle K} {w : Workspace K} {p : Plane K}
    (h : w.CurrentPlane p) (hw : w.WellFormed o) : o.PlaneAt w.currentSample.position p where
  objective_eq := (hw.faithful _ hw.current_lt).objective_eq h.objective_eq
  gradient_eq := (hw.faithful _ hw.current_lt).gradient_eq h.gradient_eq

/-- The search is ready only where it starts. -/
theorem Reached.eq_start (h : Reached setting start .ready s) : s = start := by
  obtain _ | ⟨_, hstep⟩ := h
  · rfl
  · cases hstep

variable {entry : SearchState K}

/-- A solve has just been made when it is written. -/
theorem Opens.solvedAt (hopens : Opens setting entry start) (h : Reached setting start a s)
    {kind : SolveKind K} (hstep : Step setting a s (.solved kind) s')
    (hkind : (Stage.solved kind).gain = 1) : s'.toMoment.SolvedAt kind s' := by
  have hcount := (hstep.advances (h.inv hopens.inv)).solves_eq
  rw [hkind] at hcount
  refine ⟨rfl, rfl, rfl, by rw [hcount]; exact Nat.succ_pos _, ?_⟩
  rintro rfl
  cases hstep with
  | solveGradient =>
    obtain rfl := h.eq_start
    rw [hcount, hopens.solves_eq]

/-- Only a solve in place of one that failed follows another at once. -/
theorem Moment.SolvedAt.replacedBy {kind : SolveKind K} (hm : m.SolvedAt kind s)
    (hw : entry.workspace.WellFormed setting.oracle) (hopens : Opens setting entry start)
    (hdrill : start.solver.drill = none) (h : Reached setting start (.solved kind) s)
    (hstep : Step setting (.solved kind) s b s') (hb : b.gain = 1) :
    ∃ p, m.ReplacedBy setting entry.workspace.currentSample.position
      entry.workspace.radii.trust p s'.toMoment := by
  have hinv := h.inv hopens.inv
  have hcount := (hstep.advances hinv).solves_eq
  have halike := (h.step hstep).alike hopens.inv
  have hgrows := hopens.grows.trans (h.grows hopens.inv)
  cases hstep with
  | @fallBack _ s₁ _ p _ _ hstatus hgo hnote hcurrent =>
    have hk := keeps_of_note setting.oracle hnote
    have hs := hinv.base.toSound.keeps hk
    have hnone : s₁.solver.drill = none :=
      hk.solver_eq' ▸ (h.alike hopens.inv).drill_eq_none hdrill
    have hposition := ((hgrows.trans hk.grows).currentSample hw.current_lt).position_eq
    refine ⟨p, hm.solver_eq ▸ hstatus, hgo, ?_, alone_resolved hs hcurrent hnone _,
      halike.bound_eq.trans hopens.bound_eq, rfl, ?_⟩
    · rw [← hposition]
      exact hcurrent.planeAt hs.wellFormed
    · rw [hcount, hm.solves_eq]
      exact Nat.succ_lt_succ hm.pos
  | _ => cases hb

/-- While nothing is written after a solve, it is settled what becomes of it. -/
theorem Stage.AfterSolve.step (hm : a.AfterSolve setting m s) (hopens : Opens setting entry start)
    (hdrill : start.solver.drill = none) (h : Reached setting start a s)
    (hstep : Step setting a s b s') (hb : ¬ b.Tells) : b.AfterSolve setting m s' := by
  have hinv := h.inv hopens.inv
  have hholds := hinv.holds
  have hsame := hstep.solver_eq hinv (Stage.gain_of_not_tells hb)
  cases hstep with
  | enterLoop hstatus =>
    refine ⟨hm.solver_eq ▸ hstatus, hsame.trans hm.solver_eq, fun cut hcut => ?_⟩
    cases hcut.symm.trans (hm.active_eq.symm.trans hholds.2)
  | markSwitch => exact ⟨hsame.trans hm.solver_eq, hm.active_eq, hm.solves_eq, hm.pos, nofun⟩
  | nextRound hkind hstatus =>
    refine ⟨hm.solver_eq ▸ hstatus, hm.solver_eq, fun cut hcut => ?_⟩
    cases hkind <;> cases hcut.symm.trans (hm.active_eq.symm.trans hholds.2.1)
  | failSolver _ hstatus hfail => exact ⟨hm.solver_eq ▸ hstatus, rfl, hfail⟩
  | @restart _ s₁ p _ hnote =>
    have hsuccess := h.success hopens.inv hdrill (.fallback p _)
    refine ⟨hm.solver_eq ▸ hsuccess, hsame.trans hm.solver_eq, fun cut hcut => ?_⟩
    cases hcut.symm.trans (hm.active_eq.symm.trans hholds.2)
    exact ⟨rfl, rfl, rfl⟩
  | solveGradient | testGradient | solveFull | fallBack | beginRound | testFull | testShort
  | solveAggregated | solveSwitching | solveWarm => exact absurd trivial hb
  | _ => exact hm.elim

/-- A solve that follows another at once is in its place. -/
theorem Stage.AfterSolve.replacedBy (hm : a.AfterSolve setting m s)
    (hw : entry.workspace.WellFormed setting.oracle) (hopens : Opens setting entry start)
    (hdrill : start.solver.drill = none) (h : Reached setting start a s)
    (hstep : Step setting a s b s') (hb : b.gain = 1) :
    ∃ p, m.ReplacedBy setting entry.workspace.currentSample.position
      entry.workspace.radii.trust p s'.toMoment := by
  cases a with
  | solved kind => exact Moment.SolvedAt.replacedBy hm hw hopens hdrill h hstep hb
  | round => cases hstep; cases hb
  | ended => cases hstep
  | _ => exact hm.elim

/-- Only the first solve is tested at once, and only if it succeeded. -/
theorem Stage.AfterSolve.success_of_tested {evaluated : Bool} (hm : a.AfterSolve setting m s)
    (hopens : Opens setting entry start) (hdrill : start.solver.drill = none)
    (h : Reached setting start a s) (hstep : Step setting a s b s')
    (hb : b.TestedAt evaluated) : m.solver.status = .success ∧ m.engine.solves = 1 := by
  cases hstep with
  | testGradient =>
    have hsuccess := h.success hopens.inv hdrill .gradient
    exact ⟨hm.solver_eq ▸ hsuccess, hm.first rfl⟩
  | testFull | testShort => exact hm.elim
  | _ => cases hb

/-- Whether an event may come next is in doubt only after a solve. -/
theorem Event.TellsSolve.goesOn {x : List K} {radius : K} {event event' : Event K}
    (h : event.TellsSolve setting a s)
    (hsolved : ∀ m, a.AfterSolve setting m s → (Event.solved m).GoesOn setting x radius event') :
    event.GoesOn setting x radius event' := by
  cases event with
  | solved m => exact hsolved m h
  | consulted => exact h.elim
  | tested | roundBegan => cases event' <;> trivial

/-- The solves of a search obey this order. -/
theorem solveLaw (hw : entry.workspace.WellFormed setting.oracle)
    (hopens : Opens setting entry start) (hdrill : start.solver.drill = none) :
    OrderLaw setting start (Event.TellsSolve setting)
      (Event.GoesOn setting entry.workspace.currentSample.position
        entry.workspace.radii.trust) where
  kept {a b s s' event} hreached hstep hb h := by
    cases event with
    | solved m => exact Stage.AfterSolve.step h hopens hdrill hreached hstep hb
    | consulted => exact h.elim
    | tested | roundBegan => trivial
  written {a b s s' new} hreached hstep hwrites event hevent := by
    cases hwrites with
    | nothing => cases hevent
    | solved hkind =>
      rw [List.getLast?_append_of_ne_nil _ (List.cons_ne_nil _ _)] at hevent
      cases hevent
      exact hopens.solvedAt hreached hstep hkind
    | tested | began =>
      cases hevent
      trivial
  follows {a b s s' new} hreached hstep hwrites := by
    have hreplaced : ∀ m, a.AfterSolve setting m s → b.gain = 1 →
        ∃ p, m.ReplacedBy setting entry.workspace.currentSample.position
          entry.workspace.radii.trust p s'.toMoment :=
      fun m hm hb => hm.replacedBy hw hopens hdrill hreached hstep hb
    have hcases := hwrites.solved_cases
    cases hwrites with
    | nothing => exact ⟨.nil, fun _ _ _ h => by cases h⟩
    | solved hkind =>
      rcases hcases hkind with ⟨_, hnew⟩ | ⟨c, hsubproblem, hmany, hnew⟩
      · rw [hnew]
        refine ⟨.singleton _, fun event h event' hevent' => ?_⟩
        cases hevent'
        exact Event.TellsSolve.goesOn h fun m hm => hreplaced m hm hkind
      · rw [hnew]
        refine ⟨.cons_cons ⟨hsubproblem, hmany⟩ (.singleton _), fun event h event' hevent' => ?_⟩
        cases hevent'
        refine Event.TellsSolve.goesOn h fun m hm => ?_
        -- the solve in place of a failed one has one plane, so there is no question
        obtain ⟨p, hreplaced⟩ := hreplaced m hm hkind
        rw [Solver.cuts, hreplaced.alone.planes_eq] at hmany
        exact absurd hmany (by simp)
    | tested hb =>
      refine ⟨.singleton _, fun event h event' hevent' => ?_⟩
      cases hevent'
      exact Event.TellsSolve.goesOn h fun m hm =>
        hm.success_of_tested hopens hdrill hreached hstep hb
    | began =>
      refine ⟨.singleton _, fun event h event' hevent' => ?_⟩
      cases hevent'
      exact Event.TellsSolve.goesOn h fun m hm => hm

end Order

/-! ## Calls -/

/-- A notice of the use of solves has a good reason: cuts are aggregated with a weighting,
and solves are only replaced where that is allowed, which never fails. -/
def Notice.Justified (options : Options K) : Notice K → Prop
  | .aggregated count weights _ => IsWeighting count weights
  | .fallingBack _ => options.failOnSolverFailure = false
  | .fallbackFailed _ => False
  | _ => True

section Call

variable {setting : Setting K} {entry start : SearchState K}
  {result : EStateM.Result (Fault K) (SearchState K) Outcome}

/-- What a call notes of the use of solves is drawn from stages of its search. -/
theorem CallResult.consequences (h : CallResult setting entry result) :
    ∃ new, (finalState result).consequences = entry.consequences ++ new ∧
      ∀ n ∈ new, ∃ start a t, Opens setting entry start ∧ Reached setting start a t ∧
        n.Drawn setting a t := by
  have hreach : ∀ {start s : SearchState K} {b : Stage K}, Opens setting entry start →
      Reached setting start b s → (finalState result).consequences = s.consequences →
      ∃ new, (finalState result).consequences = entry.consequences ++ new ∧
        ∀ n ∈ new, ∃ start a t, Opens setting entry start ∧ Reached setting start a t ∧
          n.Drawn setting a t := by
    intro start s b hopens hreached hsame
    obtain ⟨new, hnew, hdrawn⟩ := hreached.consequences
    refine ⟨new, by rw [hsame, hnew, hopens.consequences_eq], fun n hn => ?_⟩
    obtain ⟨a, t, ht, hdraws⟩ := hdrawn n hn
    exact ⟨start, a, t, hopens, ht, hdraws⟩
  cases h with
  | unevaluated hfresh _ _ _ haccount =>
    have hsame := (Search.consequences_account haccount).trans hfresh.consequences_eq
    exact ⟨[], hsame.trans (List.append_nil _).symm, nofun⟩
  | ended hopens hreached _ _ _ haccount =>
    exact hreach hopens hreached (Search.consequences_account haccount)
  | timeUp hopens hreached _ _ haccount =>
    exact hreach hopens hreached (Search.consequences_account haccount)
  | overflowed hopens hoverflows =>
    obtain ⟨_, _, _, hreached⟩ := hoverflows
    exact hreach hopens hreached rfl

variable (hw : entry.workspace.WellFormed setting.oracle) (hdrill : entry.solver.drill = none)
include hdrill

/-- All that a call notes of the use of solves is justified. -/
theorem Opens.justified [IsStrictOrderedRing K] (hopens : Opens setting entry start) {a : Stage K}
    {t : SearchState K} (h : Reached setting start a t) {n : Notice K} (hn : n.Drawn setting a t) :
    n.Justified setting.options := by
  have hnone : start.solver.drill = none := hopens.drill_eq.trans hdrill
  cases n with
  | aggregated count weights slope =>
    obtain ⟨rfl, rfl, hon, evaluated, rfl⟩ := hn
    obtain ⟨hsolves, hround, _⟩ := (h.inv hopens.inv).holds
    have hlength := hsolves.denote.length_eq
    rw [hround.activeCuts_eq hon] at hlength
    change IsWeighting t.engine.aggregatedCuts.length t.solver.weights
    rw [hlength]
    exact (h.sure hopens.inv hnone trivial).isWeighting
  | fallingBack status => exact hn.2.2
  | fallbackFailed status =>
    obtain ⟨rfl, hstatus, p, first, rfl⟩ := hn
    exact hstatus (h.success hopens.inv hnone (.fallback p first))
  | _ => trivial

include hw

/-- If the last event is a solve, it failed and the call ends for it. -/
theorem CallResult.failed_of_getLast? (h : CallResult setting entry result) {m : Moment K}
    (hlast : (finalState result).journal.toList.getLast? = some (.solved m)) :
    m.solver.status ≠ .success ∧ setting.options.failOnSolverFailure = true ∧
      ∃ s, result = .ok .solverFailure s := by
  have hlaw := fun start (hopens : Opens setting entry start) =>
    solveLaw hw hopens (hopens.drill_eq.trans hdrill)
  cases h with
  | unevaluated hfresh hcloses =>
    rw [finalState_ok, (hcloses.quiet setting.oracle).journal_eq, hfresh.journal_eq] at hlast
    cases hlast
  | ended hopens hreached hcloses =>
    obtain ⟨hstatus, houtcome, hfail⟩ :=
      (hlaw _ hopens).told_last hopens hreached (hcloses.quiet setting.oracle) hlast
    exact ⟨hstatus, hfail, _, by rw [houtcome]⟩
  | timeUp hopens hreached hcloses =>
    obtain ⟨_, houtcome, _⟩ :=
      (hlaw _ hopens).told_last hopens hreached (hcloses.quiet setting.oracle) hlast
    cases houtcome
  | overflowed hopens hoverflows =>
    obtain ⟨_, _, _, hreached⟩ := hoverflows
    exact ((hlaw _ hopens).told_last hopens hreached (.refl setting.oracle _) hlast).elim

/-- The events of a call obey the order of solves. -/
theorem CallResult.isChain_goesOn (h : CallResult setting entry result) :
    (finalState result).journal.toList.IsChain
      (Event.GoesOn setting entry.workspace.currentSample.position entry.workspace.radii.trust) :=
  h.isChain fun _ hopens => solveLaw hw hopens (hopens.drill_eq.trans hdrill)

/-- A solve that failed is replaced where that is allowed, and ends the call elsewhere. -/
theorem CallResult.after_failure (h : CallResult setting entry result) {m : Moment K}
    (hm : Event.solved m ∈ (finalState result).journal.toList)
    (hstatus : m.solver.status ≠ .success) :
    (setting.options.failOnSolverFailure = true →
      (finalState result).journal.toList.getLast? = some (.solved m) ∧
        ∃ s, result = .ok .solverFailure s) ∧
    (setting.options.failOnSolverFailure = false →
      ∃ m', [Event.solved m, Event.solved m'] <:+: (finalState result).journal.toList) := by
  have hchain := h.isChain_goesOn hw hdrill
  have hlast := h.failed_of_getLast? hw hdrill (m := m)
  obtain ⟨before, after, hjournal⟩ := List.append_of_mem hm
  rw [hjournal] at hchain hlast ⊢
  cases after with
  | nil =>
    obtain ⟨_, hfail, hresult⟩ := hlast List.getLast?_concat
    exact ⟨fun _ => ⟨List.getLast?_concat, hresult⟩, fun hgo => Bool.noConfusion (hfail ▸ hgo)⟩
  | cons event after =>
    have hnext := (List.isChain_append_cons_cons.mp hchain).2.1
    cases event with
    | solved m' =>
      obtain ⟨p, hreplaced⟩ := hnext
      refine ⟨fun hfail => Bool.noConfusion (hfail ▸ hreplaced.allowed), fun _ => ⟨m', ?_⟩⟩
      exact ⟨before, after, by simp⟩
    | consulted => exact hnext.elim
    | tested => exact absurd hnext.1 hstatus
    | roundBegan => exact absurd hnext.1 hstatus

/-- After a solve in place of another a round begins. -/
theorem CallResult.after_replacement (h : CallResult setting entry result) {m m' : Moment K}
    (hpair : [Event.solved m, Event.solved m'] <:+: (finalState result).journal.toList) :
    ∃ p, m.ReplacedBy setting entry.workspace.currentSample.position
        entry.workspace.radii.trust p m' ∧
      ∃ m'', [Event.solved m, Event.solved m', Event.roundBegan m''] <:+:
          (finalState result).journal.toList ∧
        m''.solver = m'.solver ∧ m''.engine.Holds p.toCut := by
  have hchain := h.isChain_goesOn hw hdrill
  have hlast := h.failed_of_getLast? hw hdrill (m := m')
  obtain ⟨before, after, hjournal⟩ := hpair
  rw [← hjournal, List.append_assoc] at hchain hlast ⊢
  obtain ⟨⟨p, hreplaced⟩, hrest⟩ :=
    List.isChain_cons_cons.mp (List.isChain_append.mp hchain).2.1
  refine ⟨p, hreplaced, ?_⟩
  cases after with
  | nil => exact absurd hreplaced.alone.status_eq (hlast (by simp)).1
  | cons event after =>
    have hnext := (List.isChain_cons_cons.mp hrest).1
    cases event with
    | solved =>
      obtain ⟨_, hagain⟩ := hnext
      exact absurd hreplaced.alone.status_eq hagain.status_ne
    | consulted => exact hnext.elim
    | tested => exact absurd hnext.2 hreplaced.later.ne'
    | roundBegan m'' =>
      obtain ⟨_, hsolver, hrestarted⟩ := hnext
      exact ⟨m'', ⟨before, after, by simp⟩, hsolver, hrestarted _ hreplaced.active_eq⟩

end Call

/-- In exact arithmetic, and unless failures are rehearsed, a failed solve decides nothing.
Every test, every stage at which a solve is settled and every aggregation comes after a
success with a weighting. A solve that failed ends the call if it is to fail then, and
nothing is replaced. Otherwise the next event is the solve in its place, on the cut at the
current point alone: a success without a question to the minimizer, with all weight on
this cut and the step against the gradient, as far as the radius allows. With this solve
the next round begins, and the cut is then all there is in each list. -/
theorem failed_solves_decide_nothing [IsStrictOrderedRing K] {setting : Setting K}
    {entry : SearchState K} (hw : entry.workspace.WellFormed setting.oracle)
    (hdrill : entry.solver.drill = none) :
    (∀ m evaluated, Event.tested m evaluated ∈
        (finalState (Search.computeDirection setting entry)).journal.toList → m.solver.Sure) ∧
    (∀ start stage s, Opens setting entry start → Reached setting start stage s →
      stage.Settled → s.solver.Sure) ∧
    (∃ new, (finalState (Search.computeDirection setting entry)).consequences =
        entry.consequences ++ new ∧ ∀ n ∈ new, n.Justified setting.options) ∧
    (∀ m, Event.solved m ∈
        (finalState (Search.computeDirection setting entry)).journal.toList →
      m.solver.status ≠ .success →
        (setting.options.failOnSolverFailure = true →
          (finalState (Search.computeDirection setting entry)).journal.toList.getLast? =
              some (.solved m) ∧
            ∃ s, Search.computeDirection setting entry = .ok .solverFailure s) ∧
        (setting.options.failOnSolverFailure = false →
          ∃ m', [Event.solved m, Event.solved m'] <:+:
            (finalState (Search.computeDirection setting entry)).journal.toList)) ∧
    (∀ m m', [Event.solved m, Event.solved m'] <:+:
        (finalState (Search.computeDirection setting entry)).journal.toList →
      ∃ p, m.ReplacedBy setting entry.workspace.currentSample.position
          entry.workspace.radii.trust p m' ∧
        ∃ m'', [Event.solved m, Event.solved m', Event.roundBegan m''] <:+:
            (finalState (Search.computeDirection setting entry)).journal.toList ∧
          m''.solver = m'.solver ∧ m''.engine.Holds p.toCut) ∧
    ∀ c event, [Event.consulted c, event] <:+:
        (finalState (Search.computeDirection setting entry)).journal.toList →
      ∃ m, event = .solved m ∧ c.request.subproblem = m.solver.subproblem ∧
        2 ≤ m.solver.cuts := by
  have hcall := Search.computeDirection_cases hw
  generalize Search.computeDirection setting entry = result at hcall ⊢
  refine ⟨fun m evaluated hm => ?_, fun start stage s hopens hreached hsettled => ?_, ?_,
    fun m => hcall.after_failure hw hdrill, fun m m' => hcall.after_replacement hw hdrill,
    fun c event hpair => ?_⟩
  · obtain ⟨start, hopens, stage, journal, htested, hreached⟩ := hcall.cases_of_event hm
    have hsettled : stage.Settled := by cases htested <;> trivial
    exact hreached.sure hopens.inv (hopens.drill_eq.trans hdrill) hsettled
  · exact hreached.sure hopens.inv (hopens.drill_eq.trans hdrill) hsettled
  · obtain ⟨new, hnew, hdrawn⟩ := hcall.consequences
    refine ⟨new, hnew, fun n hn => ?_⟩
    obtain ⟨start, a, t, hopens, ht, hdraws⟩ := hdrawn n hn
    exact hopens.justified hdrill ht hdraws
  · have hnext := next_of_pair (hcall.isChain_goesOn hw hdrill) hpair
    cases event with
    | solved m => exact ⟨m, rfl, hnext⟩
    | consulted | tested | roundBegan => exact hnext.elim

/-- A search across the valley whose minimizer always fails. -/
def stalling : Setting ℚ where
  oracle := valley
  options := { tryGradientStep := false, iterationLimit := 2 }
  rule := .never
  clock _ := 0
  minimizer _ _ := ⟨[], 4, 1, "stalled"⟩

/-- The first solve has two planes and fails. The next round begins with the cut at the
current point and a step of the length of the radius. -/
theorem failed_solve_replaced_in_valley : ∃ m m' m'' p,
    [Event.solved m, Event.solved m', Event.roundBegan m''] <:+:
        (finalState (Search.computeDirection stalling acrossValley)).journal.toList ∧
      m.solver.cuts = 2 ∧ m.ReplacedBy stalling [1 / 100] 1 p m' ∧
      m''.engine.Holds p.toCut ∧ p.slope = [1] ∧ p.bias = 1 / 100 := by
  have hfails :
      ((solvesOf (finalState (Search.computeDirection stalling acrossValley)).journal.toList).any
        fun m => decide (m.solver.cuts = 2 ∧ m.solver.status ≠ .success)) = true := by
    decide +kernel
  obtain ⟨m, hevent, hfailed⟩ := exists_solved_of_any hfails
  have hw : acrossValley.workspace.WellFormed stalling.oracle := wellFormed_acrossValley
  obtain ⟨_, _, _, hfailure, hreplacement, _⟩ := failed_solves_decide_nothing hw rfl
  obtain ⟨hcuts, hstatus⟩ := of_decide_eq_true hfailed
  obtain ⟨m', hpair⟩ := (hfailure m hevent hstatus).2 rfl
  obtain ⟨p, hreplaced, m'', hbegins, _, hholds⟩ := hreplacement m m' hpair
  have hslope : (valley.evaluateGradient [1 / 100]).1 = some [1] := by decide +kernel
  have hbias : (valley.evaluateObjective [1 / 100]).1 = some (1 / 100) := by decide +kernel
  exact ⟨m, m', m'', p, hbegins, hcuts, hreplaced, hholds,
    Option.some.inj (hreplaced.planeAt.gradient_eq.symm.trans hslope),
    Option.some.inj (hreplaced.planeAt.objective_eq.symm.trans hbias)⟩

end NonsmoothDescent
