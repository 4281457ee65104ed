import NonsmoothDescent.Proofs.Search.Anchor
import NonsmoothDescent.Proofs.Search.Meaning
import NonsmoothDescent.Proofs.Search.Resolve

/-!
# Rejected steps are cut off

A full step that was evaluated and rejected does not fall by the share of its squared
length that the test asks for. The model that gave it promised a fall by the whole of it,
up to the optimality error. So with a small error the value at the end of the step lies
above the model. The linearization there takes this value at the step. With its cut, which
has a place in the bundle as the trial point has, the model of the next solve is larger at
the step than the old one. All this is in the order of values only and asks nothing of the
objective.
-/

namespace NonsmoothDescent

section Tests

variable {α : Type} [Scalar α]

/-- The stages of a round from its first test on. -/
def Stage.Tried : Stage α → Prop
  | .tested _ _ | .rejected _ | .sampling _ _ | .sampled _ _ | .shortTested _ _ _ _ | .chosen _ _
  | .augmented _ _ => True
  | _ => False

variable {setting : Setting α} {b : Stage α} {start s u : SearchState α}
  {before after : List (Event α)} {r m : Moment α} {evaluated : Bool}

/-- From the first test of a round on, and until its solve, the last event is a test. -/
theorem Reached.last_tested (hinv : Inv setting .ready start.toMoment)
    (h : Reached setting start b s) (hb : b.Tried) :
    ∃ m evaluated, s.journal.toList.getLast? = some (.tested m evaluated) := by
  induction h with
  | start => exact hb.elim
  | step hreached hstep ih =>
    obtain ⟨new, hjournal, hwrites⟩ := hstep.writes (hreached.inv hinv)
    rw [hjournal]
    cases hwrites with
    | tested => exact ⟨_, _, List.getLast?_concat⟩
    | solved | began => exact hb.elim
    | nothing hsilent =>
      rw [List.append_nil]
      refine ih ?_
      cases hstep with
      | goOn | aggregate | omitAggregation | sampleFull | omitFull | omitShort | sampleShort
      | augment => trivial
      | testFull | testShort => exact (hsilent trivial).elim
      | _ => exact hb.elim

/-- The full step of a round was tested, and the search is just behind the test. -/
structure FullTest (setting : Setting α) (start : SearchState α) (r m : Moment α)
    (evaluated : Bool) (u : SearchState α) : Prop where
  toMoment_eq : u.toMoment = m
  reached : Reached setting start (.tested evaluated (m.accepting setting evaluated 1)) u
  pending : r.Pending setting.options.downshift m []
  trial_eq : m.workspace.trial = r.workspace.trial
  trial_lt : r.workspace.trial < r.workspace.samples.size

/-- When a round has begun its trial point is the one with which it began. -/
theorem Reached.trial_of_begun {first : Bool} (hinv : Inv setting .ready start.toMoment)
    (h : Reached setting start (.begun first evaluated) s)
    (hlast : (roundsOf s.journal.toList).getLast? = some r) :
    s.workspace.trial = r.workspace.trial ∧ r.workspace.trial < r.workspace.samples.size := by
  obtain _ | ⟨hreached, hstep⟩ := h
  have hinv' := hreached.inv hinv
  rw [hstep.roundsOf_eq hinv'] at hlast
  cases hstep with
  | beginRound hflush hevaluate =>
    obtain rfl := Option.some.inj (List.getLast?_concat.symm.trans hlast)
    obtain ⟨_, hsame, _⟩ := Search.begun_of_run hinv'.base.toSound hflush hevaluate
    exact ⟨hsame, hinv'.base.trial_lt⟩

/-- The test of the full step is made in the round that has just begun. -/
theorem FullTest.of_step {first accepted : Bool} {t : SearchState α}
    (hinv : Inv setting .ready start.toMoment)
    (h : Reached setting start (.begun first evaluated) t)
    (hlast : (roundsOf t.journal.toList).getLast? = some r)
    (hstep : Step setting (.begun first evaluated) t (.tested evaluated accepted) u) :
    FullTest setting start r u.toMoment evaluated u := by
  obtain ⟨r', hlast', hpending⟩ := h.pending hinv trivial
  obtain rfl := Option.some.inj (hlast'.symm.trans hlast)
  obtain ⟨htrial, hlt⟩ := h.trial_of_begun hinv hlast
  have hreached := h.step hstep
  have hpending' := hpending.step (h.inv hinv) hstep trivial trivial
  cases hstep with
  | testFull =>
    exact ⟨rfl, hreached, hpending', (Moment.asked_trial setting t.toMoment).trans htrial, hlt⟩

/-- The first test after the beginning of a round is that of its full step. -/
theorem Reached.fullTest (hinv : Inv setting .ready start.toMoment)
    (hempty : start.journal = #[]) (h : Reached setting start b s)
    (hsplit : s.journal.toList = before ++ .roundBegan r :: .tested m evaluated :: after) :
    ∃ u, FullTest setting start r m evaluated u := by
  rw [List.append_cons] at hsplit
  obtain ⟨a, c, t, u, hwriting, _⟩ := h.of_split hinv hempty rfl hsplit
  obtain ⟨rfl, htested⟩ := hwriting.of_tested
  have hreached := hwriting.reached
  have hstep := hwriting.step
  have hjournal := hwriting.journal_eq_before (fun _ h => by cases h)
  have hlast : t.journal.toList.getLast? = some (.roundBegan r) := by
    rw [hjournal, List.getLast?_concat]
  have hbegan : (roundsOf t.journal.toList).getLast? = some r := by
    rw [hjournal, roundsOf_append]
    exact List.getLast?_concat
  clear hwriting
  cases htested with
  | gradient accepted =>
    cases hstep with
    | testGradient =>
      rw [hreached.roundsOf_eq_nil hinv hempty trivial] at hbegan
      cases hbegan
  | short aggregating cuts accepted =>
    cases hstep with
    | testShort =>
      obtain ⟨_, _, htest⟩ := hreached.last_tested hinv trivial
      cases hlast.symm.trans htest
  | full accepted =>
    have hfull : ∃ first, a = .begun first evaluated := by
      cases hstep with
      | testFull => exact ⟨_, rfl⟩
    obtain ⟨first, rfl⟩ := hfull
    exact ⟨u, .of_step hinv hreached hbegan hstep⟩

/-- The cut that the full step has got, later to be found in its place, was in hand when the
round was resolved. -/
theorem FullTest.mem_added {aggregating : Bool} {added : List (Cut α)} {kind : SolveKind α}
    {t v : SearchState α} {cut : Cut α} {p : Plane α} {w : Workspace α}
    (h : FullTest setting start r m evaluated u) (hinv : Inv setting .ready start.toMoment)
    (hresolving : Resolving setting start r aggregating added t kind v)
    (hon : Continues setting (.solved kind, v) (b, s)) (hlater : s.workspace.Grows w)
    (hbundle : w.bundle = s.workspace.bundle)
    (hcut : cut.Samples setting.options.downshift w m.workspace.bundle.size m.workspace.trial p) :
    cut ∈ added ∧ cut.Denotes t.workspace p := by
  obtain ⟨hreached, hstep, hpending⟩ := hresolving
  have hinv' := hreached.inv hinv
  have hsolve := (hstep.advances hinv').grows
  have hafter := hsolve.trans ((hreached.step hstep).continues hinv hon).2
  have hplace : m.workspace.bundle.size < t.workspace.bundle.size := by
    by_contra hlate
    have hnew : (Stage.solved kind).TrialNew t.workspace.samples.size v.toMoment :=
      Stage.TrialNew.step (a := .augmented aggregating added) trivial hinv' le_rfl hstep
    have hid := hcut.id_eq
    rw [hbundle] at hid
    rw [← hstep.bundle_eq hinv' rfl] at hlate
    have hle := ((hreached.step hstep).le_of_placed hinv hsolve.size_le hnew hon).2 _ _
      (not_lt.mp hlate) hid
    rw [h.trial_eq] at hle
    exact absurd (h.trial_lt.trans_le hpending.grows.size_le) (not_lt.mpr hle)
  have hid : t.workspace.bundle[m.workspace.bundle.size]? = some m.workspace.trial := by
    rw [← (hafter.trans hlater).bundle_getElem? hplace]
    exact hcut.id_eq
  obtain ⟨cut', hmem, p', hsamples⟩ :=
    hpending.sampled _ _ h.pending.grows.bundle_size_le hid
  have hkept := hsamples.grows hinv'.base.wellFormed (hafter.trans hlater)
  obtain rfl := Option.some.inj (hkept.plane_eq.symm.trans hcut.plane_eq)
  obtain rfl := hkept.cut_eq.trans hcut.cut_eq.symm
  exact ⟨hmem, hsamples.denotes hinv'.base.wellFormed⟩

end Tests

variable {K : Type} [Field K] [LinearOrder K] [FloorRing K]

/-- The bias of the plane is that of the linearization at one point, seen from another. -/
def Plane.Linearizes (o : Oracle K) (x z : List K) (p : Plane K) : Prop :=
  ∃ value, (o.evaluateObjective z).1 = some value ∧
    p.bias = value + Vec.dot p.slope (Vec.sub x z)

/-- At the end of a step a linearization takes the value that was evaluated there. -/
theorem Plane.Linearizes.value_eq {o : Oracle K} {x d : List K} {p : Plane K} {value : K}
    (h : p.Linearizes o x (Vec.add x d)) (hlength : d.length = x.length)
    (hvalue : (o.evaluateObjective (Vec.add x d)).1 = some value) :
    p.bias + Vec.dot p.slope d = value := by
  obtain ⟨value', hvalue', hbias⟩ := h
  obtain rfl := Option.some.inj (hvalue'.symm.trans hvalue)
  have hsum : x.length = (Vec.add x d).length := by rw [Vec.length_add, hlength, min_self]
  rw [hbias, Vec.dot_sub_right hsum, Vec.dot_add_right hlength.symm]
  ring

/-- No plane lies above the model. -/
theorem Subproblem.le_model {q : Subproblem K} {p : Plane K} (hp : p ∈ q.planes) (d : List K) :
    p.bias + Vec.dot p.slope d ≤ q.model d :=
  Vec.le_maximum (List.mem_map_of_mem (f := fun p : Plane K => p.bias + Vec.dot p.slope d) hp)

section Cutoff

variable [IsStrictOrderedRing K] {setting : Setting K} {entry start s u : SearchState K}
  {r t : Moment K}

/-- Where a trial was evaluated and rejected, its value is not lower than the current one by
more than the margin. -/
theorem le_of_rejected {m : Moment K} (hsolves : m.Solves setting.oracle) {trial current : K}
    (htrial : m.workspace.trialSample.objective.value? = some trial)
    (hcurrent : m.workspace.currentSample.objective.value? = some current)
    (hrejected : m.accepting setting true 1 = false) :
    current - m.workspace.margin setting.options 1 ≤ trial := by
  by_contra hlow
  have hdecreases : Search.decreases setting.options m.workspace m.solver 1 = true :=
    (decreases_iff hsolves.direction_eq).mpr ⟨trial, current, htrial, hcurrent, not_le.mp hlow⟩
  rw [Moment.accepting, hdecreases] at hrejected
  cases hrejected

/-- The end of the full step is evaluated, and lies above the model that gave the step. -/
theorem Opens.model_lt (hopens : Opens setting entry start)
    (hw : entry.workspace.WellFormed setting.oracle) (ho : setting.options.Accepted)
    (h : FullTest setting start r t true u) (hrejected : t.accepting setting true 1 = false)
    (herror : r.solver.optimalityError <
      (1 - setting.options.acceptanceTolerance / 2) * Vec.normSq r.solver.step) :
    ∃ value, (setting.oracle.evaluateObjective
        (Vec.add entry.workspace.currentSample.position r.solver.step)).1 = some value ∧
      r.solver.subproblem.model r.solver.step < value := by
  obtain ⟨rfl, hreached, hpending, _⟩ := h
  obtain ⟨hsolves, _, hknown⟩ := (hreached.inv hopens.inv).holds
  obtain ⟨trial, htrial⟩ := Workspace.isKnown_iff.mp (hknown rfl)
  obtain ⟨current, hcurrent⟩ := hsolves.objective
  have hhigh := le_of_rejected hsolves htrial hcurrent hrejected
  rw [Workspace.margin_eq, hsolves.direction_eq] at hhigh
  have hweighted : u.solver.Weighted := hreached.weighs hopens.inv
  have hpositive : u.solver.subproblem.bound.Positive := by
    rw [(hreached.alike hopens.inv).bound_eq, hopens.bound_eq]
    exact StepBound.positive_ofRadius _
  have hmodel := Subproblem.model_stepAt_le (Moment.wellFormed_subproblem hsolves.denote)
    hpositive hweighted.isWeighting
    (hopens.plane_bias_le ho hreached hsolves.toAligned hcurrent)
  rw [← hweighted.step_eq, ← hweighted.optimalityError_eq] at hmodel
  rw [← hpending.solver_eq] at herror ⊢
  have hend : u.workspace.trialSample.position =
      Vec.add entry.workspace.currentSample.position u.solver.step := by
    have hplaced : u.TrialAt 1 := hreached.placed hopens.inv
    have hgrows := hopens.grows.trans (hreached.grows hopens.inv)
    rw [hplaced, Sample.position_moved, (hgrows.currentSample hw.current_lt).position_eq,
      Vec.scale_one]
  refine ⟨trial, ?_, by linarith⟩
  rw [← hend]
  exact (hsolves.wellFormed.faithful _ hsolves.trial_lt).objective_eq htrial

end Cutoff

/-- In every call, on any objective: a round whose full step was evaluated and rejected,
although the optimality error of the solve that gave the step is below a share of its
squared length, has an end of the step above the model. If the trial has got a cut there and
the bias of this cut is that of the linearization, the cut takes the value that was
evaluated. So the solve of the round, if there is one, works on a model that is larger at
the step. -/
theorem rejected_step_cut_off [IsStrictOrderedRing K] {setting : Setting K}
    {entry : SearchState K} (hw : entry.workspace.WellFormed setting.oracle)
    (ho : setting.options.Accepted) {before after : List (Event K)} {r t : Moment K} {cut : Cut K}
    {p : Plane K}
    (hjournal : (finalState (Search.computeDirection setting entry)).journal.toList =
      before ++ .roundBegan r :: .tested t true :: after)
    (hrejected : t.accepting setting true 1 = false)
    (herror : r.solver.optimalityError <
      (1 - setting.options.acceptanceTolerance / 2) * Vec.normSq r.solver.step)
    (hcut : cut.Samples setting.options.downshift
      (finalState (Search.computeDirection setting entry)).workspace
      t.workspace.bundle.size t.workspace.trial p)
    (hlinearizes : p.Linearizes setting.oracle entry.workspace.currentSample.position
      (Vec.add entry.workspace.currentSample.position r.solver.step)) :
    ∃ value, (setting.oracle.evaluateObjective
        (Vec.add entry.workspace.currentSample.position r.solver.step)).1 = some value ∧
      p.bias + Vec.dot p.slope r.solver.step = value ∧
      r.solver.subproblem.model r.solver.step < value ∧
      ∀ m rest, Resolves
          (finalState (Search.computeDirection setting entry)).journal.toList before r m rest →
        p ∈ m.solver.subproblem.planes ∧
          r.solver.subproblem.model r.solver.step < m.solver.subproblem.model r.solver.step := by
  obtain ⟨s, hends, hcourse⟩ := (Search.computeDirection_cases hw).closing
  generalize finalState (Search.computeDirection setting entry) = final at *
  have hquiet : Quiet setting.oracle s final ∧
      final.workspace.bundle = s.workspace.bundle := by
    rcases hends with rfl | hcloses
    · exact ⟨.refl _ _, rfl⟩
    · exact ⟨hcloses.quiet setting.oracle, hcloses.bundle_eq⟩
  obtain ⟨hquiet, hbundle⟩ := hquiet
  rw [hquiet.journal_eq] at hjournal ⊢
  obtain hfresh | ⟨start, stage, hopens, hreached⟩ := hcourse
  · rw [hfresh.journal_eq] at hjournal
    exact absurd hjournal.symm (List.append_ne_nil_of_right_ne_nil _ (List.cons_ne_nil _ _))
  obtain ⟨u, htest⟩ := hreached.fullTest hopens.inv hopens.journal_eq hjournal
  obtain ⟨value, hvalue, hlt⟩ := hopens.model_lt hw ho htest hrejected herror
  have hlength : r.solver.step.length = entry.workspace.currentSample.position.length := by
    have hstepped := (htest.reached.inv hopens.inv).holds.1.length_step
    have hgrows := hopens.grows.trans (htest.reached.grows hopens.inv)
    rw [htest.toMoment_eq, htest.pending.solver_eq, ← htest.toMoment_eq] at hstepped
    exact (hstepped.trans hgrows.dimension_eq).trans (hw.length_position _ hw.current_lt).symm
  have hend := hlinearizes.value_eq hlength hvalue
  refine ⟨value, hvalue, hend, hlt, fun m rest hresolves => ?_⟩
  obtain ⟨aggregating, added, v, kind, v', hresolving, rfl, _, hon⟩ :=
    hreached.of_resolves hopens.inv hopens.journal_eq hresolves
  obtain ⟨hadded, hdenotes⟩ :=
    htest.mem_added hopens.inv hresolving hon hquiet.grows hbundle hcut
  have hmem := hresolving.mem_planes hopens.inv hadded hdenotes
  exact ⟨hmem, hlt.trans_le (hend ▸ Subproblem.le_model hmem _)⟩

/-- The slope on one side of the valley, with no point in the bundle yet. -/
def aloneOnSlope : SearchState ℚ :=
  { acrossValley with workspace := { acrossValley.workspace with bundle := #[] } }

/-- The start alone on the slope is well formed. -/
theorem wellFormed_aloneOnSlope : aloneOnSlope.workspace.WellFormed condensing.oracle :=
  { wellFormed_acrossValley with bundle_lt := nofun }

/-- The state after the search that begins there. -/
def pastValley : SearchState ℚ := finalState (Search.computeDirection condensing aloneOnSlope)

/-- The plane at the trial point of a moment, as far as it is known in the end. -/
def trialPlane? (t : Moment ℚ) : Option (Plane ℚ) :=
  (pastValley.workspace.sampleAt t.workspace.trial).plane? condensing.options.downshift
    pastValley.workspace.currentSample

/-- Events at which a round begins, its full step is evaluated, and the solve of the round is
made: the moments of the three. -/
def resolvedRound? : List (Event ℚ) → Option (Moment ℚ × Moment ℚ × Moment ℚ)
  | .roundBegan r :: .tested t true :: .consulted _ :: .solved m :: _ => some (r, t, m)
  | _ => none

/-- What is found is a round that is tested, asks the minimizer and is resolved. -/
theorem eq_of_resolvedRound? {events : List (Event ℚ)} {r t m : Moment ℚ}
    (h : resolvedRound? events = some (r, t, m)) :
    ∃ c rest, events = .roundBegan r :: .tested t true :: .consulted c :: .solved m :: rest := by
  unfold resolvedRound? at h
  split at h
  · cases h
    exact ⟨_, _, rfl⟩
  · cases h

/-- The step downhill goes beyond the valley. The cut at its end takes the value there, and on
the aggregated cuts and this one the model is larger at the step. -/
theorem rejected_step_cut_off_beyond_valley :
    ∃ (before rest : List (Event ℚ)) (r m : Moment ℚ),
      Resolves pastValley.journal.toList before r m rest ∧ r.solver.step = [-1] ∧
      m.solver.cuts = 3 ∧ r.solver.subproblem.model [-1] < 99 / 100 ∧
      r.solver.subproblem.model [-1] < m.solver.subproblem.model [-1] := by
  have hfound : ((resolvedRound? (pastValley.journal.toList.drop 3)).any fun (r, t, m) =>
      decide (t.accepting condensing true 1 = false ∧ r.solver.step = [-1] ∧
        r.solver.optimalityError = 0 ∧ m.solver.cuts = 3 ∧
        pastValley.workspace.bundle[t.workspace.bundle.size]? = some t.workspace.trial ∧
        (trialPlane? t).any (fun p => decide (p.slope = [-1] ∧ p.bias = -1 / 100)) = true)) =
      true := by
    decide +kernel
  have hvalue : (valley.evaluateObjective (Vec.add [1 / 100] [-1])).1 = some (99 / 100) := by
    decide +kernel
  obtain ⟨⟨r, t, m⟩, hround, hchecked⟩ := (Option.any_eq_true _ _).mp hfound
  obtain ⟨hrejected, hstep, herror, hcuts, hplace, hsampled⟩ := of_decide_eq_true hchecked
  obtain ⟨⟨slope, bias⟩, hplane, hsame⟩ := (Option.any_eq_true _ _).mp hsampled
  obtain ⟨rfl, rfl⟩ := of_decide_eq_true hsame
  obtain ⟨c, rest, hevents⟩ := eq_of_resolvedRound? hround
  have hjournal : pastValley.journal.toList = pastValley.journal.toList.take 3 ++ _ :=
    (List.take_append_drop 3 _).symm
  rw [hevents] at hjournal
  have hresolves : Resolves pastValley.journal.toList (pastValley.journal.toList.take 3) r m
      rest := ⟨[.tested t true, .consulted c], hjournal, rfl, rfl⟩
  have hshare : r.solver.optimalityError <
      (1 - condensing.options.acceptanceTolerance / 2) * Vec.normSq r.solver.step := by
    rw [herror, hstep]
    decide +kernel
  have hlinearizes : Plane.Linearizes valley [1 / 100] (Vec.add [1 / 100] r.solver.step)
      ⟨[-1], -1 / 100⟩ := by
    rw [hstep]
    exact ⟨99 / 100, hvalue, by decide +kernel⟩
  obtain ⟨value, hend, _, hlt, hresolved⟩ := rejected_step_cut_off wellFormed_aloneOnSlope
    accepted_condensing hjournal hrejected hshare ⟨hplace, hplane, rfl⟩ hlinearizes
  rw [hstep] at hend hlt hresolved
  obtain rfl := Option.some.inj (hend.symm.trans hvalue)
  exact ⟨_, rest, r, m, hresolves, hstep, hcuts, hlt, (hresolved m rest hresolves).2⟩

end NonsmoothDescent
