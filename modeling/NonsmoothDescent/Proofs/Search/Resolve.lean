import NonsmoothDescent.Proofs.Search.Reporting

/-!
# From a round to its solve

While a round is under way the solver is the one with which it began, and each place that
is new in the bundle has a cut among those that the round has gathered, two at most. The
next solve that the journal tells of resolves the round: it was made when the gathered
cuts had been added to the lists.
-/

namespace NonsmoothDescent

variable {α : Type}

namespace Stage

/-- The cuts that the round at a stage has gathered. -/
def gathered : Stage α → List (Cut α)
  | .sampled _ cuts | .shortTested _ cuts _ _ | .chosen _ cuts | .augmented _ cuts => cuts
  | _ => []

/-- The most cuts that a round may have gathered at a stage. -/
def room : Stage α → Nat
  | .sampled _ _ | .shortTested _ _ _ _ => 1
  | .chosen _ _ | .augmented _ _ => 2
  | _ => 0

end Stage

variable [Scalar α]

/-- What has become of the moment at which a round began, as long as it is under way. -/
structure Moment.Pending (downshift : α) (r m : Moment α) (gathered : List (Cut α)) : Prop where
  solver_eq : m.solver = r.solver
  switched_eq : m.engine.switched = r.engine.switched
  grows : r.workspace.Grows m.workspace
  /-- Each place that is new in the bundle has its cut. -/
  sampled : ∀ place id, r.workspace.bundle.size ≤ place →
    m.workspace.bundle[place]? = some id →
    ∃ cut ∈ gathered, ∃ plane, cut.Samples downshift m.workspace place id plane

section Steps

variable {setting : Setting α} {a b : Stage α} {s s' start : SearchState α} {r : Moment α}
  {held cuts : List (Cut α)} {evaluated : Bool}

/-- Only the step that marks the switch changes the mark. -/
theorem Step.switched_eq (hstep : Step setting a s b s') (h : Inv setting a s.toMoment)
    (hb : b ≠ .solved .switched) : s'.engine.switched = s.engine.switched := by
  have hkeeps := hstep.keeps h
  have hnote : ∀ {notices : List (Notice α)} {t t' : SearchState α},
      Search.note notices t = .ok () t' → t'.engine.switched = t.engine.switched :=
    fun hr => (keeps_of_note setting.oracle hr).switched_eq
  cases hstep with
  | solveGradient | enterLoop | nextRound | solveAggregated | solveWarm => rfl
  | solveFull hcollect hr =>
    have hk := ((Search.collectCuts_leads h.base.toSound).of_run hcollect).1.toKeeps
    exact (hnote hr).trans hk.switched_eq
  | fallBack _ _ _ hr | restart hr | solveSwitching _ _ hr =>
    have hsame := hnote hr
    exact hsame
  | markSwitch => exact absurd rfl hb
  | aggregate hon hr =>
    obtain ⟨_, s₁, _, hlogs, _, rfl⟩ := (h.aggregate_leads hon).of_run hr
    exact (hlogs.quiet setting.oracle).switched_eq
  | augment hr =>
    exact (((Search.reportRound_leads setting _).of_run hr).quiet setting.oracle).switched_eq
  | _ => exact (hkeeps trivial).switched_eq

/-- With a cut at the trial point comes the place that it samples. -/
theorem Moment.Pending.trialCut (h : r.Pending setting.options.downshift s.toMoment held)
    (hs : s.Sound setting.oracle) (hknown : s.TrialKnown evaluated)
    (hr : Search.trialCut setting evaluated s = .ok cuts s') :
    r.Pending setting.options.downshift s'.toMoment (held ++ cuts) := by
  obtain ⟨hq, hsize, hcuts⟩ := (Search.trialCut_leads hs hknown).of_run hr
  refine ⟨hq.solver_eq'.trans h.solver_eq, hq.switched_eq.trans h.switched_eq,
    h.grows.trans hq.grows, fun place id hplace hid => ?_⟩
  rcases Nat.lt_or_ge place s.workspace.bundle.size with hold | hnew
  · rw [hq.grows.bundle_getElem? hold] at hid
    obtain ⟨cut, hcut, plane, hsamples⟩ := h.sampled place id hplace hid
    exact ⟨cut, List.mem_append_left _ hcut, plane, hsamples.grows hs.wellFormed hq.grows⟩
  · have hlt : place < s'.workspace.bundle.size := (Array.getElem?_eq_some_iff.mp hid).1
    rw [hsize] at hlt
    rcases hcuts with rfl | ⟨cut, plane, rfl, hsamples⟩
    · exact absurd hlt (Nat.not_lt.mpr hnew)
    · obtain rfl : place = s.workspace.bundle.size :=
        Nat.le_antisymm (Nat.le_of_lt_succ hlt) hnew
      obtain rfl := Option.some.inj (hsamples.id_eq.symm.trans hid)
      exact ⟨cut, List.mem_append_right _ (List.mem_singleton_self cut), plane, hsamples⟩

/-- Each step of a round under way keeps what has become of its beginning. -/
theorem Moment.Pending.step (h : r.Pending setting.options.downshift s.toMoment a.gathered)
    (hinv : Inv setting a s.toMoment) (hstep : Step setting a s b s') (ha : a.Underway)
    (hb : b.Underway) : r.Pending setting.options.downshift s'.toMoment b.gathered := by
  have hs := hinv.base.toSound
  have hholds := hinv.holds
  have hsame : b.places = 0 → b.gain = 0 → b ≠ .solved .switched →
      r.Pending setting.options.downshift s'.toMoment a.gathered := by
    intro hplaces hgain hmark
    have hgrows := (hstep.advances hinv).grows
    refine ⟨(hstep.solver_eq hinv hgain).trans h.solver_eq,
      (hstep.switched_eq hinv hmark).trans h.switched_eq, h.grows.trans hgrows,
      fun place id hplace hid => ?_⟩
    rw [hstep.bundle_eq hinv hplaces] at hid
    obtain ⟨cut, hcut, plane, hsamples⟩ := h.sampled place id hplace hid
    exact ⟨cut, hcut, plane, hsamples.grows hs.wellFormed hgrows⟩
  cases hstep with
  | beginRound => exact ha.elim
  | testFull | goOn | aggregate | omitAggregation | testShort | augment =>
    exact hsame rfl rfl nofun
  | omitFull | omitShort => exact h
  | sampleFull _ hcut => exact h.trialCut hs hholds.2.2 hcut
  | sampleShort hcut => exact h.trialCut hs hholds.2.2.2 hcut
  | _ => exact hb.elim

/-- A round has gathered nothing when it begins. -/
theorem Step.pending_of_begins {first : Bool}
    (hstep : Step setting a s (.begun first evaluated) s') (hinv : Inv setting a s.toMoment) :
    s.toMoment.Pending setting.options.downshift s'.toMoment [] := by
  have hk := hstep.keeps hinv trivial
  refine ⟨hk.solver_eq', hk.switched_eq, hk.grows, fun place id hplace hid => ?_⟩
  rw [hstep.bundle_eq hinv rfl] at hid
  exact absurd (Array.getElem?_eq_some_iff.mp hid).1 (Nat.not_lt.mpr hplace)

omit [Scalar α] in
/-- A round under way has just begun, or began before. -/
theorem Stage.Underway.begins_or (hb : b.Underway) :
    (∃ first evaluated, b = .begun first evaluated) ∨ b.begins = 0 := by
  cases b with
  | begun first evaluated => exact .inl ⟨first, evaluated, rfl⟩
  | _ => exact .inr rfl

/-- A round that began before was under way before. -/
theorem Step.underway (hstep : Step setting a s b s') (hb : b.Underway) (hbegins : b.begins = 0) :
    a.Underway := by
  cases hstep with
  | beginRound => cases hbegins
  | testFull | goOn | aggregate | omitAggregation | sampleFull | omitFull | testShort | omitShort
  | sampleShort | augment => trivial
  | _ => exact hb.elim

/-- The round that is under way is the last one that the journal tells of. -/
theorem Reached.pending (hinv : Inv setting .ready start.toMoment)
    (h : Reached setting start b s) (hb : b.Underway) :
    ∃ r, (roundsOf s.journal.toList).getLast? = some r ∧
      r.Pending setting.options.downshift s.toMoment b.gathered := by
  induction h with
  | start => exact hb.elim
  | step hreached hstep ih =>
    have hinv' := hreached.inv hinv
    have hrounds := hstep.roundsOf_eq hinv'
    rcases hb.begins_or with ⟨first, evaluated, rfl⟩ | hbegins
    · rw [hrounds]
      exact ⟨_, List.getLast?_concat, hstep.pending_of_begins hinv'⟩
    · have ha := hstep.underway hb hbegins
      obtain ⟨r, hlast, hpending⟩ := ih ha
      rw [hrounds, hbegins, if_neg Nat.zero_ne_one, List.append_nil]
      exact ⟨r, hlast, hpending.step hinv' hstep ha hb⟩

/-- A trial point gives one cut at most. -/
theorem length_trialCut_le (hs : s.Sound setting.oracle) (hknown : s.TrialKnown evaluated)
    (hr : Search.trialCut setting evaluated s = .ok cuts s') : cuts.length ≤ 1 := by
  obtain ⟨_, _, rfl | ⟨_, _, rfl, _⟩⟩ := (Search.trialCut_leads hs hknown).of_run hr
  · exact Nat.zero_le _
  · exact Nat.le_refl _

/-- A round gathers one cut from the full step and one from the shortened step at most. -/
theorem Reached.length_gathered_le (hinv : Inv setting .ready start.toMoment)
    (h : Reached setting start b s) : b.gathered.length ≤ b.room := by
  induction h with
  | start => exact Nat.le_refl _
  | @step a b s s' hreached hstep ih =>
    obtain ⟨hbase, hholds, _⟩ := hreached.inv hinv
    cases hstep with
    | sampleFull _ hcut => exact length_trialCut_le hbase.toSound hholds.2.2 hcut
    | omitFull => exact Nat.zero_le _
    | testShort | augment => exact ih
    | omitShort => exact Nat.le_succ_of_le ih
    | sampleShort hcut =>
      rw [Stage.gathered, List.length_append]
      exact Nat.add_le_add ih (length_trialCut_le hbase.toSound hholds.2.2.2 hcut)
    | _ => exact Nat.le_refl _

/-- What the lists consist of once a round has aggregated, and once its cuts were added. -/
def Stage.Augments : Stage α → Engine α → Prop
  | .sampling aggregating _, e | .sampled aggregating _, e | .shortTested aggregating _ _ _, e
  | .chosen aggregating _, e => aggregating = true →
    ∃ first second, e.aggregatedCuts = [first, second]
  | .augmented aggregating added, e => (∃ old, e.fullCuts = old ++ added) ∧
    (aggregating = true → ∃ first second, e.aggregatedCuts = first :: second :: added)
  | _, _ => True

/-- Each step keeps what the lists consist of. -/
theorem Stage.Augments.step (h : a.Augments s.engine) (hinv : Inv setting a s.toMoment)
    (hstep : Step setting a s b s') : b.Augments s'.engine := by
  have hkeeps := hstep.keeps hinv
  cases hstep with
  | aggregate hon hr =>
    intro _
    obtain ⟨current, s₁, _, _, _, rfl⟩ := (hinv.aggregate_leads hon).of_run hr
    exact ⟨current.toCut, s.combined.toCut, rfl⟩
  | omitAggregation => exact nofun
  | sampleFull | omitFull | testShort | omitShort | sampleShort =>
    intro hon
    obtain ⟨first, second, hcuts⟩ := h hon
    exact ⟨first, second, (hkeeps trivial).aggregatedCuts_eq.trans hcuts⟩
  | @augment _ _ aggregating added hr =>
    have hk := (((Search.reportRound_leads setting _).of_run hr).quiet setting.oracle).toKeeps
    refine ⟨⟨s.engine.fullCuts, hk.fullCuts_eq⟩, ?_⟩
    rintro rfl
    obtain ⟨first, second, hcuts⟩ := h rfl
    refine ⟨first, second, hk.aggregatedCuts_eq.trans ?_⟩
    change s.engine.aggregatedCuts ++ added = _
    rw [hcuts]
    rfl
  | _ => trivial

/-- So the lists consist of it at each stage. -/
theorem Reached.augments (hinv : Inv setting .ready start.toMoment)
    (h : Reached setting start b s) : b.Augments s.engine := by
  induction h with
  | start => trivial
  | step hreached hstep ih => exact ih.step (hreached.inv hinv) hstep

/-- A search that goes on with a new trial point puts only new samples into the bundle. -/
theorem Reached.le_of_placed {n : Nat} (hinv : Inv setting .ready start.toMoment)
    (h : Reached setting start a s) (hn : n ≤ s.workspace.samples.size)
    (ha : a.TrialNew n s.toMoment) (hon : Continues setting (a, s) (b, s')) :
    b.TrialNew n s'.toMoment ∧ ∀ place id, s.workspace.bundle.size ≤ place →
      s'.workspace.bundle[place]? = some id → n ≤ id := by
  refine hon.induct (P := fun b t => b.TrialNew n t.toMoment ∧ ∀ place id,
    s.workspace.bundle.size ≤ place → t.workspace.bundle[place]? = some id → n ≤ id)
    ⟨ha, fun place id hplace hid => ?_⟩ ?_
  · exact absurd (Array.getElem?_eq_some_iff.mp hid).1 (Nat.not_lt.mpr hplace)
  · rintro b c t u hcontinues hstep ⟨hnew, hplaced⟩
    obtain ⟨hreached, hgrows⟩ := h.continues hinv hcontinues
    have hinv' := hreached.inv hinv
    refine ⟨hnew.step hinv' (hn.trans hgrows.size_le) hstep, fun place id hplace hid => ?_⟩
    rw [← Array.getElem?_toList] at hid
    rcases hstep.bundle_cases hinv' hnew with hsame | ⟨htrial, hpush, _⟩
    · rw [hsame, Array.getElem?_toList] at hid
      exact hplaced place id hplace hid
    · rw [hpush, List.getElem?_append] at hid
      split at hid
      · rw [Array.getElem?_toList] at hid
        exact hplaced place id hplace hid
      · rw [List.mem_singleton.mp (List.mem_of_getElem? hid)]
        exact htrial.le_trial

end Steps

/-! ## Rounds that are resolved -/

/-- Among events, a round began at a moment, and the next solve is that of another. -/
def Resolves (events before : List (Event α)) (r m : Moment α) (after : List (Event α)) : Prop :=
  ∃ between, events = before ++ .roundBegan r :: (between ++ .solved m :: after) ∧
    roundsOf between = [] ∧ solvesOf between = []

/-- The step that resolves a round: a solve, from the cuts that the round has gathered. -/
structure Resolving (setting : Setting α) (start : SearchState α) (r : Moment α)
    (aggregating : Bool) (added : List (Cut α)) (t : SearchState α) (kind : SolveKind α)
    (u : SearchState α) : Prop where
  reached : Reached setting start (.augmented aggregating added) t
  step : Step setting (.augmented aggregating added) t (.solved kind) u
  pending : r.Pending setting.options.downshift t.toMoment added

section Resolves

variable {setting : Setting α} {b : Stage α} {start s : SearchState α}
  {events before after : List (Event α)} {r m : Moment α}

/-- No more rounds are resolved than have begun. -/
theorem length_resolvedRounds_le (events : List (Event α)) :
    (resolvedRounds events).length ≤ (roundsOf events).length := by
  induction events with
  | nil => exact Nat.le_refl _
  | cons event events ih =>
    cases event with
    | roundBegan m =>
      rw [resolvedRounds]
      split
      · exact Nat.le_succ_of_le ih
      · exact Nat.succ_le_succ ih
    | consulted | solved | tested => exact ih

/-- A solve in a round under way comes from the cuts that were added. -/
theorem Step.of_underway {kind : SolveKind α} {a : Stage α} {t u : SearchState α}
    (hstep : Step setting a t (.solved kind) u) (ha : a.Underway) :
    ∃ aggregating added, a = .augmented aggregating added := by
  cases hstep with
  | solveAggregated | solveSwitching | solveWarm => exact ⟨_, _, rfl⟩
  | _ => exact ha.elim

/-- The solve that resolves a round was made by such a step, and the search went on. -/
theorem Reached.of_resolves (hinv : Inv setting .ready start.toMoment)
    (hempty : start.journal = #[]) (h : Reached setting start b s)
    (hresolves : Resolves s.journal.toList before r m after) :
    ∃ (aggregating : Bool) (added : List (Cut α)) (t : SearchState α) (kind : SolveKind α)
      (u : SearchState α), Resolving setting start r aggregating added t kind u ∧
        u.toMoment = m ∧ (∃ earlier, u.journal.toList = earlier ++ [.solved m] ∧
          s.journal.toList = earlier ++ .solved m :: after) ∧
        Continues setting (.solved kind, u) (b, s) := by
  obtain ⟨between, hevents, hrounds, hsolves⟩ := hresolves
  have hsplit : s.journal.toList = (before ++ .roundBegan r :: between) ++ .solved m :: after := by
    rw [hevents, List.append_assoc, List.cons_append]
  obtain ⟨a, c, t, u, hwriting, hcontinues⟩ := h.of_split hinv hempty rfl hsplit
  obtain ⟨hu, _, ⟨kind, rfl⟩, asked, hbefore, hasked, hunsolved⟩ := hwriting.of_solved
  have hunresolved : resolvedRounds t.journal.toList = resolvedRounds before := by
    rw [← resolvedRounds_append_of_unsolved hunsolved, ← hbefore]
    exact resolvedRounds_append_of_unsolved hsolves
  have hbegan : roundsOf t.journal.toList = roundsOf before ++ [r] := by
    have hall : roundsOf t.journal.toList ++ roundsOf asked =
        roundsOf before ++ (r :: roundsOf between) := by
      rw [← roundsOf_append, ← hbefore, roundsOf_append]
      rfl
    rwa [hasked, hrounds, List.append_nil] at hall
  have ha : a.Underway := by
    by_contra hover
    have hgoing : ∀ outcome, a ≠ .ended outcome := by
      rintro outcome rfl
      cases hwriting.step
    have hsame := (hwriting.reached.rounds hinv hempty).2 hover hgoing
    have hlength := length_resolvedRounds_le before
    rw [← hunresolved, hsame, hbegan, List.length_append, List.length_singleton] at hlength
    exact Nat.lt_irrefl _ hlength
  obtain ⟨aggregating, added, rfl⟩ := hwriting.step.of_underway ha
  obtain ⟨r', hlast, hpending⟩ := hwriting.reached.pending hinv ha
  rw [hbegan, List.getLast?_concat] at hlast
  obtain rfl := Option.some.inj hlast
  exact ⟨aggregating, added, t, kind, u, ⟨hwriting.reached, hwriting.step, hpending⟩, hu,
    ⟨_, hwriting.journal_eq, hsplit⟩, hcontinues⟩

variable {aggregating : Bool} {added : List (Cut α)} {t u : SearchState α} {kind : SolveKind α}

/-- The solve works on the planes of all cuts that the round has gathered. -/
theorem Resolving.mem_planes (h : Resolving setting start r aggregating added t kind u)
    (hinv : Inv setting .ready start.toMoment) {cut : Cut α} (hcut : cut ∈ added) {p : Plane α}
    (hdenotes : cut.Denotes t.workspace p) : p ∈ u.solver.subproblem.planes := by
  obtain ⟨⟨old, hfull⟩, haggregated⟩ := h.reached.augments hinv
  have hmem : ∀ {cuts : List (Cut α)} {planes : List (Plane α)},
      Cut.DenoteAll t.workspace cuts planes → cut ∈ cuts → p ∈ planes := by
    intro cuts planes hplanes hmem
    obtain ⟨q, hq, hsame⟩ := hplanes.exists_mem hmem
    exact hdenotes.unique hsame ▸ hq
  have hb := (h.reached.inv hinv).base.wellFormed.bundle_lt
  cases h.step with
  | solveAggregated _ _ hplanes =>
    obtain ⟨first, second, hcuts⟩ := haggregated rfl
    rw [subproblem_resolved]
    refine hmem hplanes ?_
    rw [hcuts]
    exact List.mem_cons_of_mem _ (List.mem_cons_of_mem _ hcut)
  | solveSwitching _ _ hnote hplanes =>
    have hk := keeps_of_note setting.oracle hnote
    obtain ⟨q, hq, hsame⟩ := hplanes.exists_mem
      (by rw [hk.fullCuts_eq, hfull]; exact List.mem_append_right _ hcut)
    rw [subproblem_resolved, (hdenotes.grows hk.grows hb).unique hsame]
    exact hq
  | solveWarm _ hplanes =>
    rw [subproblem_continued]
    exact List.mem_append_right _ (hmem hplanes hcut)

end Resolves

end NonsmoothDescent
