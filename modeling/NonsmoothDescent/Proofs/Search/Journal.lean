import NonsmoothDescent.Proofs.Search.Run
import NonsmoothDescent.Proofs.Search.Setup

/-!
# What the journal tells

A step to a solve writes that solve to the journal, a step to a test that test, and a
step that begins a round that round; all other steps write nothing. So every moment in
the journal is a moment at a stage that the search reaches, and the solves are told in
the order in which they are made.
-/

namespace NonsmoothDescent

variable {α : Type} [Scalar α]

/-- The moments of the solves that a list of events tells of. -/
def solvesOf (events : List (Event α)) : List (Moment α) :=
  events.filterMap fun
    | .solved m => some m
    | _ => none

/-- The solves of joined lists are joined. -/
@[simp] theorem solvesOf_append (events more : List (Event α)) :
    solvesOf (events ++ more) = solvesOf events ++ solvesOf more :=
  List.filterMap_append ..

/-- The solves of a list are those that it tells of. -/
theorem mem_solvesOf {events : List (Event α)} {m : Moment α} :
    m ∈ solvesOf events ↔ Event.solved m ∈ events := by
  refine List.mem_filterMap.trans ⟨fun ⟨event, hevent, hm⟩ => ?_, fun h => ⟨_, h, rfl⟩⟩
  cases event <;> cases hm
  exact hevent

/-- A solve that was searched for among events. -/
theorem exists_solved_of_any {events : List (Event α)} {p : Moment α → Bool}
    (h : (solvesOf events).any p = true) : ∃ m, Event.solved m ∈ events ∧ p m = true := by
  obtain ⟨m, hm, hp⟩ := List.any_eq_true.mp h
  exact ⟨m, mem_solvesOf.mp hm, hp⟩

/-- The moments at which rounds began, of those that a list of events tells of. -/
def roundsOf (events : List (Event α)) : List (Moment α) :=
  events.filterMap fun
    | .roundBegan m => some m
    | _ => none

/-- The rounds of joined lists are joined. -/
@[simp] theorem roundsOf_append (events more : List (Event α)) :
    roundsOf (events ++ more) = roundsOf events ++ roundsOf more :=
  List.filterMap_append ..

/-- The rounds of a list are those that it tells of. -/
theorem mem_roundsOf {events : List (Event α)} {m : Moment α} :
    m ∈ roundsOf events ↔ Event.roundBegan m ∈ events := by
  refine List.mem_filterMap.trans ⟨fun ⟨event, hevent, hm⟩ => ?_, fun h => ⟨_, h, rfl⟩⟩
  cases event <;> cases hm
  exact hevent

/-- The stages just after an acceptance test. -/
inductive Stage.TestedAt (evaluated : Bool) : Stage α → Prop where
  | gradient (accepted : Bool) : TestedAt evaluated (.gradientTested accepted)
  | full (accepted : Bool) : TestedAt evaluated (.tested evaluated accepted)
  | short (aggregating : Bool) (cuts : List (Cut α)) (accepted : Bool) :
    TestedAt evaluated (.shortTested aggregating cuts evaluated accepted)

/-- An event that a step between two stages may write. -/
def Event.Fits (a : Stage α) (s : SearchState α) (b : Stage α) (s' : SearchState α) :
    Event α → Prop
  | .consulted _ => True
  | .solved m => m = s'.toMoment ∧ ∃ kind, b = .solved kind
  | .tested m evaluated => m = s'.toMoment ∧ b.TestedAt evaluated
  | .roundBegan m => m = s.toMoment ∧ ∃ first, a = .round first

/-- A step to such a stage writes to the journal. -/
def Stage.Tells : Stage α → Prop
  | .solved .switched => False
  | .solved _ | .gradientTested _ | .begun _ _ | .tested _ _ | .shortTested _ _ _ _ => True
  | _ => False

/-- The events that a step writes to the journal: a solve, after what was asked for it, a
test, the beginning of a round, or nothing. -/
inductive Writes (setting : Setting α) :
    Stage α → SearchState α → Stage α → SearchState α → List (Event α) → Prop where
  | nothing {a b : Stage α} {s s' : SearchState α} (hb : ¬ b.Tells) : Writes setting a s b s' []
  | solved {a : Stage α} {s t : SearchState α} {kind : SolveKind α} {warm : Bool}
      (hkind : (Stage.solved kind).gain = 1) :
      Writes setting a s (.solved kind) (t.solved setting warm)
        (((t.answer setting warm).consultation.map Event.consulted).toList ++
          [.solved (t.solved setting warm).toMoment])
  | tested {a b : Stage α} {s s' : SearchState α} {evaluated : Bool} (hb : b.TestedAt evaluated) :
      Writes setting a s b s' [.tested s'.toMoment evaluated]
  | began {s s' : SearchState α} {first evaluated : Bool} :
      Writes setting (.round first) s (.begun first evaluated) s' [.roundBegan s.toMoment]

section Writes

variable {setting : Setting α} {a b : Stage α} {s s' t : SearchState α}

/-- A step that leaves the journal writes nothing. -/
theorem writes_nothing (h : s'.journal = s.journal) (hb : ¬ b.Tells) :
    ∃ new, s'.journal.toList = s.journal.toList ++ new ∧ Writes setting a s b s' new :=
  ⟨[], by rw [h, List.append_nil], .nothing hb⟩

/-- A test is written behind the old journal. -/
theorem writes_tested {evaluated : Bool} (h : t.journal = s.journal) (hb : b.TestedAt evaluated) :
    ∃ new, (t.tested setting evaluated).journal.toList = s.journal.toList ++ new ∧
      Writes setting a s b (t.tested setting evaluated) new := by
  refine ⟨_, ?_, .tested hb⟩
  rw [← h]
  exact Array.toList_push

/-- A solve is written behind the old journal and the question for it. -/
theorem writes_solved {warm : Bool} {kind : SolveKind α} (h : t.journal = s.journal)
    (hkind : (Stage.solved kind).gain = 1) :
    ∃ new, (t.solved setting warm).journal.toList = s.journal.toList ++ new ∧
      Writes setting a s (.solved kind) (t.solved setting warm) new := by
  refine ⟨_, ?_, .solved hkind⟩
  rw [← h, ← List.append_assoc]
  change ((t.journal ++ ((t.answer setting warm).consultation.map Event.consulted).toList).push
    _).toList = _
  rw [Array.toList_push, Array.toList_appendList]
  rfl

/-- So is a cold solve on new planes. -/
theorem writes_resolved {kind : SolveKind α} {planes : List (Plane α)} {active : ActiveCuts α}
    (h : t.journal = s.journal) (hkind : (Stage.solved kind).gain = 1) :
    ∃ new, (t.resolved setting planes active).journal.toList = s.journal.toList ++ new ∧
      Writes setting a s (.solved kind) (t.resolved setting planes active) new :=
  writes_solved h hkind

/-- The beginning of a round is written behind the old journal. -/
theorem writes_begun {first evaluated : Bool} (h : s'.journal = (s.logged .roundBegan).journal) :
    ∃ new, s'.journal.toList = s.journal.toList ++ new ∧
      Writes setting (.round first) s (.begun first evaluated) s' new := by
  refine ⟨_, ?_, .began⟩
  rw [h]
  exact Array.toList_push

/-- What every step writes. -/
theorem Step.writes (hstep : Step setting a s b s') (h : Inv setting a s.toMoment) :
    ∃ new, s'.journal.toList = s.journal.toList ++ new ∧ Writes setting a s b s' new := by
  have hbase := h.base
  have hholds := h.holds
  have hquiet := hstep.quiet h
  have hnote : ∀ {notices : List (Notice α)} {t t' : SearchState α},
      Search.note notices t = .ok () t' → t'.journal = t.journal :=
    fun hr => (((Search.note_leads _ _).of_run hr).quiet setting.oracle).journal_eq
  have htry : ∀ {stepsize : α} {evaluated : Bool} {t : SearchState α},
      s.Stepped → Search.tryStep setting stepsize s = .ok evaluated t → t.journal = s.journal :=
    fun hs hr =>
      ((Search.tryStep_leads hbase.toSound _ hs.length_direction).of_run hr).1.journal_eq
  cases hstep with
  | solveGradient | solveAggregated | solveWarm => exact writes_solved rfl rfl
  | solveFull hcollect hr hplanes =>
    have hq := ((Search.collectCuts_leads hbase.toSound).of_run hcollect).1
    exact writes_resolved ((hnote hr).trans hq.journal_eq) rfl
  | fallBack _ _ _ hr | solveSwitching _ _ hr => exact writes_resolved (hnote hr) rfl
  | testGradient hr =>
    exact writes_tested (htry (Moment.Solves.toStepped hholds.1) hr) (.gradient _)
  | testFull hfirst => exact writes_tested rfl (.full _)
  | testShort hon hnorm hr =>
    exact writes_tested (htry (Moment.Solves.toStepped hholds.1) hr) (.short _ _ _)
  | enterLoop | markSwitch | nextRound | omitAggregation => exact writes_nothing rfl id
  | restart hr =>
    have hjournal := hnote hr
    exact writes_nothing hjournal id
  | beginRound hflush hevaluate =>
    have hq := (Search.begun_of_run hbase.toSound hflush hevaluate).1
    exact writes_begun hq.journal_eq
  | aggregate hon haggregate =>
    obtain ⟨_, s₁, _, hlogs, _, rfl⟩ := (h.aggregate_leads hon).of_run haggregate
    exact writes_nothing (hlogs.quiet setting.oracle).journal_eq id
  | augment hreport =>
    exact writes_nothing
      (((Search.reportRound_leads setting _).of_run hreport).quiet setting.oracle).journal_eq id
  | _ => exact writes_nothing (hquiet trivial).journal_eq id

end Writes

/-- What a step adds to the journal. -/
def Records (a : Stage α) (s : SearchState α) (b : Stage α) (s' : SearchState α) : Prop :=
  ∃ new, s'.journal.toList = s.journal.toList ++ new ∧ (∀ event ∈ new, event.Fits a s b s') ∧
    solvesOf new = if b.gain = 1 then [s'.toMoment] else []

section Records

variable {setting : Setting α} {a b : Stage α} {s s' : SearchState α} {new : List (Event α)}

omit [Scalar α] in
/-- A stage that tells nothing makes no solve. -/
theorem Stage.gain_of_not_tells (h : ¬ b.Tells) : b.gain = 0 := by
  cases b with
  | solved kind => cases kind <;> first | exact absurd trivial h | rfl
  | _ => rfl

omit [Scalar α] in
/-- A stage that makes a solve tells of it. -/
theorem Stage.tells_of_gain (h : b.gain = 1) : b.Tells := by
  by_contra hb
  exact zero_ne_one ((gain_of_not_tells hb).symm.trans h)

/-- All that is written fits the step. -/
theorem Writes.fits (h : Writes setting a s b s' new) : ∀ event ∈ new, event.Fits a s b s' := by
  intro event hevent
  cases h with
  | nothing => exact absurd hevent List.not_mem_nil
  | @solved _ _ t kind warm hkind =>
    rcases List.mem_append.mp hevent with hc | hs
    · obtain ⟨consultation, _, rfl⟩ := Option.map_eq_some_iff.mp (Option.mem_toList.mp hc)
      trivial
    · rw [List.mem_singleton.mp hs]
      exact ⟨rfl, kind, rfl⟩
  | tested hb =>
    rw [List.mem_singleton.mp hevent]
    exact ⟨rfl, hb⟩
  | @began _ _ first =>
    rw [List.mem_singleton.mp hevent]
    exact ⟨rfl, first, rfl⟩

/-- A step to a solve writes that solve and no other. -/
theorem Writes.solvesOf_eq (h : Writes setting a s b s' new) :
    solvesOf new = if b.gain = 1 then [s'.toMoment] else [] := by
  cases h with
  | nothing hb =>
    rw [Stage.gain_of_not_tells hb]
    rfl
  | @solved _ _ t kind warm hkind =>
    have hasked : solvesOf ((t.answer setting warm).consultation.map Event.consulted).toList =
        [] := by
      cases (t.answer setting warm).consultation <;> rfl
    rw [solvesOf_append, hasked, if_pos hkind]
    rfl
  | tested hb => cases hb <;> rfl
  | began => rfl

/-- What every step adds to the journal. -/
theorem Step.records (hstep : Step setting a s b s') (h : Inv setting a s.toMoment) :
    Records a s b s' := by
  obtain ⟨new, hjournal, hwrites⟩ := hstep.writes h
  exact ⟨new, hjournal, hwrites.fits, hwrites.solvesOf_eq⟩

/-- Only a solve counts iterations of the minimizer. -/
theorem Step.minimizerIterations_eq (hstep : Step setting a s b s') (h : Inv setting a s.toMoment)
    (hb : b.gain = 0) : s'.workspace.minimizerIterations = s.workspace.minimizerIterations := by
  obtain ⟨new, hjournal, hwrites⟩ := hstep.writes h
  have hwork : Search.minimizerWork s'.journal = Search.minimizerWork s.journal := by
    unfold Search.minimizerWork Search.consultations
    rw [hjournal, List.filterMap_append]
    cases hwrites with
    | solved hgain => cases hb.symm.trans hgain
    | nothing | tested | began => simp
  have huntold := (hstep.advances h).untold_eq
  unfold SearchState.untold at huntold
  omega

/-- The last solve is the one that a step has just made. -/
theorem Step.getLast?_solvesOf (hstep : Step setting a s b s') (h : Inv setting a s.toMoment)
    (hb : b.gain = 1) : (solvesOf s'.journal.toList).getLast? = some s'.toMoment := by
  obtain ⟨new, hjournal, _, hnew⟩ := hstep.records h
  rw [hjournal, solvesOf_append, hnew, if_pos hb, List.getLast?_append]
  rfl

end Records

section Rounds

/-- The number of rounds that a step to this stage begins. -/
def Stage.begins : Stage α → Nat
  | .begun _ _ => 1
  | _ => 0

/-- The stages before the first round. -/
def Stage.Early : Stage α → Prop
  | .ready | .solved .gradient | .gradientTested _ | .opened | .solved .full
  | .solved (.fallback _ true) | .round true => True
  | _ => False

variable {setting : Setting α} {a b : Stage α} {s s' start : SearchState α}

/-- Before the first round all stages before were so. -/
theorem Step.early (hstep : Step setting a s b s') (hb : b.Early) : a.Early ∧ b.begins = 0 := by
  cases hstep with
  | fallBack hkind =>
    obtain ⟨rfl, rfl⟩ | ⟨_, rfl⟩ := hkind
    · exact ⟨trivial, rfl⟩
    · exact False.elim hb
  | @restart _ _ _ first =>
    cases first
    · exact False.elim hb
    · exact ⟨trivial, rfl⟩
  | solveGradient | testGradient | rejectGradient | omitGradient | solveFull | enterLoop =>
    exact ⟨trivial, rfl⟩
  | _ => exact False.elim hb

/-- The journal tells of a round as soon as it has begun. -/
theorem Step.roundsOf_eq (hstep : Step setting a s b s') (h : Inv setting a s.toMoment) :
    roundsOf s'.journal.toList =
      roundsOf s.journal.toList ++ if b.begins = 1 then [s.toMoment] else [] := by
  obtain ⟨new, hjournal, hfits, _⟩ := hstep.records h
  have hsame : (∀ first, a ≠ .round first) →
      roundsOf s'.journal.toList = roundsOf s.journal.toList ++ [] := by
    intro ha
    rw [hjournal, roundsOf_append]
    refine congrArg _ (List.eq_nil_iff_forall_not_mem.mpr fun m hm => ?_)
    obtain ⟨_, first, hround⟩ := hfits _ (mem_roundsOf.mp hm)
    exact ha first hround
  cases hstep with
  | beginRound hflush hevaluate =>
    have hq := (Search.begun_of_run h.base.toSound hflush hevaluate).1
    have hpush : s'.journal = s.journal.push (.roundBegan s.toMoment) := hq.journal_eq
    rw [hpush, Array.toList_push, roundsOf_append]
    rfl
  | _ => exact hsame fun first hround => by cases hround

/-- Before the first round the journal tells of none. -/
theorem Reached.roundsOf_eq_nil (hinv : Inv setting .ready start.toMoment)
    (hempty : start.journal = #[]) (h : Reached setting start b s) (hb : b.Early) :
    roundsOf s.journal.toList = [] := by
  induction h with
  | start =>
    rw [hempty]
    rfl
  | step hreached hstep ih =>
    obtain ⟨ha, hbegins⟩ := hstep.early hb
    rw [hstep.roundsOf_eq (hreached.inv hinv), ih ha, hbegins]
    rfl

/-- The stages from the beginning of the first round on, while the search goes on. -/
def Stage.Late : Stage α → Prop
  | .ended _ => False
  | b => ¬ b.Early

/-- From the first round on all stages are so until the end. -/
theorem Step.late (hstep : Step setting a s b s') (hb : b.Late) : a.Late ∨ b.begins = 1 := by
  cases hstep with
  | beginRound => exact .inr rfl
  | @fallBack _ _ kind _ first hkind =>
    obtain ⟨rfl, rfl⟩ | ⟨hround, rfl⟩ := hkind
    · exact absurd trivial hb
    · cases hround <;> exact .inl id
  | @restart _ _ _ first =>
    cases first
    · exact .inl id
    · exact absurd trivial hb
  | nextRound hkind => cases hkind <;> exact .inl id
  | solveGradient | testGradient | rejectGradient | omitGradient | solveFull | enterLoop =>
    exact absurd trivial hb
  | acceptGradient | failSolver | failTrial | acceptFull | reachLimit | runOut | acceptShort =>
    exact False.elim hb
  | _ => exact .inl id

/-- From the first round on the journal tells of a round. -/
theorem Reached.roundsOf_ne_nil (hinv : Inv setting .ready start.toMoment)
    (h : Reached setting start b s) (hb : b.Late) : roundsOf s.journal.toList ≠ [] := by
  induction h with
  | start => exact absurd trivial hb
  | step hreached hstep ih =>
    rw [hstep.roundsOf_eq (hreached.inv hinv)]
    rcases hstep.late hb with ha | hbegins
    · exact List.append_ne_nil_of_left_ne_nil (ih ha) _
    · rw [if_pos hbegins]
      exact List.append_ne_nil_of_right_ne_nil _ (List.cons_ne_nil _ _)

/-- When the first round has begun the journal tells of this one alone. -/
theorem Reached.roundsOf_first {evaluated : Bool} (hinv : Inv setting .ready start.toMoment)
    (hempty : start.journal = #[]) (h : Reached setting start (.begun true evaluated) s) :
    ∃ m, roundsOf s.journal.toList = [m] := by
  obtain _ | ⟨hreached, hstep⟩ := h
  have hbegun := hstep.roundsOf_eq (hreached.inv hinv)
  cases hstep with
  | beginRound =>
    rw [hreached.roundsOf_eq_nil hinv hempty trivial] at hbegun
    exact ⟨_, hbegun⟩

end Rounds

section Reached

variable {setting : Setting α} {start s : SearchState α} {stage : Stage α}

/-- The event tells of a moment at a stage that the search reaches. -/
def Event.Occurs (setting : Setting α) (start : SearchState α) : Event α → Prop
  | .consulted _ => True
  | .solved m => ∃ kind journal, Reached setting start (.solved kind) ⟨m, journal⟩
  | .tested m evaluated => ∃ stage journal, Stage.TestedAt evaluated stage ∧
      Reached setting start stage ⟨m, journal⟩
  | .roundBegan m => ∃ first journal, Reached setting start (.round first) ⟨m, journal⟩

/-- All that the journal tells of occurs. -/
theorem Reached.occurs (hinv : Inv setting .ready start.toMoment) (hempty : start.journal = #[])
    (h : Reached setting start stage s) :
    ∀ event ∈ s.journal.toList, event.Occurs setting start := by
  induction h with
  | start =>
    rw [hempty]
    exact fun _ he => absurd he List.not_mem_nil
  | @step a b s t hreached hstep ih =>
    obtain ⟨new, hjournal, hfits, _⟩ := hstep.records (hreached.inv hinv)
    have ht := hreached.step hstep
    intro event hevent
    rw [hjournal] at hevent
    rcases List.mem_append.mp hevent with hold | hnew
    · exact ih event hold
    · have hfit := hfits event hnew
      cases event with
      | consulted _ => trivial
      | solved m =>
        obtain ⟨rfl, kind, rfl⟩ := hfit
        exact ⟨kind, t.journal, ht⟩
      | tested m evaluated =>
        obtain ⟨rfl, hb⟩ := hfit
        exact ⟨b, t.journal, hb, ht⟩
      | roundBegan m =>
        obtain ⟨rfl, first, rfl⟩ := hfit
        exact ⟨first, s.journal, hreached⟩

/-- A question to the minimizer is not the last that the journal tells of: the solve for which
it was asked comes with it. -/
theorem Reached.getLast?_ne_consulted (hinv : Inv setting .ready start.toMoment)
    (hempty : start.journal = #[]) (h : Reached setting start stage s) (c : Consultation α) :
    s.journal.toList.getLast? ≠ some (.consulted c) := by
  induction h with
  | start =>
    rw [hempty]
    exact nofun
  | step hreached hstep ih =>
    obtain ⟨new, hjournal, hwrites⟩ := hstep.writes (hreached.inv hinv)
    rw [hjournal]
    cases hwrites with
    | nothing => rwa [List.append_nil]
    | solved =>
      rw [← List.append_assoc, List.getLast?_concat]
      exact nofun
    | tested | began =>
      rw [List.getLast?_concat]
      exact nofun

/-- The journal tells of as many solves as the engine has counted. -/
theorem Reached.length_solvesOf (hinv : Inv setting .ready start.toMoment)
    (hempty : start.journal = #[]) (hsolves : start.engine.solves = 0)
    (h : Reached setting start stage s) :
    (solvesOf s.journal.toList).length = s.engine.solves := by
  induction h with
  | start =>
    rw [hempty, hsolves]
    rfl
  | @step a b s t hreached hstep ih =>
    obtain ⟨new, hjournal, _, hnew⟩ := hstep.records (hreached.inv hinv)
    have hcount := (hstep.advances (hreached.inv hinv)).solves_eq
    rw [hjournal, solvesOf_append, List.length_append, ih, hnew, hcount]
    rcases b.gain_eq with hb | hb <;> simp [hb]

/-- From the first solve on the solver is as the last solve has left it. -/
theorem Reached.solver_of_last (hinv : Inv setting .ready start.toMoment)
    (h : Reached setting start b s) (hb : ¬ b.Unsolved) :
    ∃ m, (solvesOf s.journal.toList).getLast? = some m ∧ m.solver = s.solver := by
  induction h with
  | start => exact absurd trivial hb
  | @step a b s s' hreached hstep ih =>
    have hinv' := hreached.inv hinv
    rcases b.gain_eq with hgain | hgain
    · obtain ⟨m, hlast, hsolver⟩ := ih fun ha => hb (hstep.unsolved ha hgain)
      obtain ⟨new, hjournal, _, hnew⟩ := hstep.records hinv'
      rw [hjournal, solvesOf_append, hnew, if_neg (by omega), List.append_nil]
      exact ⟨m, hlast, hsolver.trans (hstep.solver_eq hinv' hgain).symm⟩
    · exact ⟨s'.toMoment, hstep.getLast?_solvesOf hinv' hgain, rfl⟩

/-- An acceptance test is made on a moment at which the rule has just been asked, with
the radii at the start if the rule changes them only where it fires. -/
theorem Reached.asked {evaluated : Bool} (hinv : Inv setting .ready start.toMoment)
    (h : Reached setting start stage s) (hb : stage.TestedAt evaluated) :
    ∃ m : Moment α, s.toMoment = m.asked setting ∧
      (setting.rule.Steady → m.workspace.radii = start.workspace.radii) := by
  cases hb with
  | gradient accepted =>
    obtain _ | ⟨hreached, hstep⟩ := h
    cases hstep with
    | @testGradient _ s₁ _ htry =>
      obtain ⟨hsolves, _⟩ := (hreached.inv hinv).holds
      obtain ⟨hq, _⟩ :=
        (Search.tryStep_leads hsolves.toSound _ hsolves.length_direction).of_run htry
      exact ⟨s₁.toMoment, rfl, fun hsteady =>
        hq.radii_eq.trans (hreached.radii_eq hinv hsteady trivial)⟩
  | full accepted =>
    obtain _ | ⟨hreached, hstep⟩ := h
    cases hstep with
    | testFull => exact ⟨_, rfl, fun hsteady => hreached.radii_eq hinv hsteady trivial⟩
  | short aggregating cuts accepted =>
    obtain _ | ⟨hreached, hstep⟩ := h
    cases hstep with
    | @testShort _ s₁ _ _ _ _ _ htry =>
      obtain ⟨hsolves, _⟩ := (hreached.inv hinv).holds
      obtain ⟨hq, _⟩ :=
        (Search.tryStep_leads hsolves.toSound _ hsolves.length_direction).of_run htry
      exact ⟨s₁.toMoment, rfl, fun hsteady =>
        hq.radii_eq.trans (hreached.radii_eq hinv hsteady trivial)⟩

end Reached

section Call

variable {setting : Setting α} {entry s s' : SearchState α}

/-- Accounting for a search is quiet. -/
theorem Closes.quiet (h : Closes s s') (o : Oracle α) : Quiet o s s' := by
  obtain ⟨_, _, _, _, _, _, rfl⟩ := h
  refine ⟨⟨rfl, rfl, rfl, rfl, rfl, rfl, rfl, rfl, rfl, .of_eq rfl rfl rfl rfl, fun hw => ?_,
    fun ht => ht⟩, rfl, rfl, rfl⟩
  exact ⟨hw.dimension_eq, hw.length_position, hw.faithful, hw.current_lt, hw.bundle_lt⟩

/-- Accounting for a search leaves the bundle. -/
theorem Closes.bundle_eq (h : Closes s s') : s'.workspace.bundle = s.workspace.bundle := by
  obtain ⟨_, _, _, _, _, _, rfl⟩ := h
  rfl

/-- Whatever becomes of a call, it ends as a search that has done nothing yet, or as one
at some stage, accounted for or not. -/
theorem CallResult.closing {result : EStateM.Result (Fault α) (SearchState α) Outcome}
    (h : CallResult setting entry result) :
    ∃ s, (finalState result = s ∨ Closes s (finalState result)) ∧
      (Fresh entry s ∨
        ∃ start stage, Opens setting entry start ∧ Reached setting start stage s) := by
  cases h with
  | unevaluated hfresh hcloses => exact ⟨_, .inr hcloses, .inl hfresh⟩
  | ended hopens hreached hcloses => exact ⟨_, .inr hcloses, .inr ⟨_, _, hopens, hreached⟩⟩
  | timeUp hopens hreached hcloses => exact ⟨_, .inr hcloses, .inr ⟨_, _, hopens, hreached⟩⟩
  | overflowed hopens hoverflows =>
    obtain ⟨_, _, _, hreached⟩ := hoverflows
    exact ⟨_, .inl rfl, .inr ⟨_, _, hopens, hreached⟩⟩

/-- What is accounted for in the end is all that has changed since then. -/
theorem CallResult.course {result : EStateM.Result (Fault α) (SearchState α) Outcome}
    (h : CallResult setting entry result) :
    ∃ s, Quiet setting.oracle s (finalState result) ∧
      (Fresh entry s ∨
        ∃ start stage, Opens setting entry start ∧ Reached setting start stage s) := by
  obtain ⟨s, hsame | hcloses, hcourse⟩ := h.closing
  · exact ⟨s, hsame ▸ .refl _ _, hcourse⟩
  · exact ⟨s, hcloses.quiet setting.oracle, hcourse⟩

/-- After a call the workspace has grown and is as well formed as before. -/
theorem CallResult.grows {result : EStateM.Result (Fault α) (SearchState α) Outcome}
    (h : CallResult setting entry result) :
    entry.workspace.Grows (finalState result).workspace := by
  obtain ⟨s, hquiet, hfresh | ⟨start, stage, hopens, hreached⟩⟩ := h.course
  · exact hfresh.grows.trans hquiet.grows
  · exact (hopens.grows.trans (hreached.grows hopens.inv)).trans hquiet.grows

/-- After a call the workspace is well formed. -/
theorem CallResult.wellFormed {result : EStateM.Result (Fault α) (SearchState α) Outcome}
    (h : CallResult setting entry result) :
    (finalState result).workspace.WellFormed setting.oracle := by
  cases h with
  | unevaluated _ hcloses _ _ _ _ hw => exact (hcloses.quiet setting.oracle).wellFormed hw
  | ended hopens hreached hcloses =>
    exact (hcloses.quiet setting.oracle).wellFormed (hreached.inv hopens.inv).base.wellFormed
  | timeUp hopens hreached hcloses =>
    exact (hcloses.quiet setting.oracle).wellFormed (hreached.inv hopens.inv).base.wellFormed
  | overflowed hopens hoverflows =>
    obtain ⟨_, _, _, hreached⟩ := hoverflows
    exact (hreached.inv hopens.inv).base.wellFormed

/-- A call whose journal tells of something ran along the transition system. -/
theorem CallResult.cases_of_event {result : EStateM.Result (Fault α) (SearchState α) Outcome}
    (h : CallResult setting entry result) {event : Event α}
    (he : event ∈ (finalState result).journal.toList) :
    ∃ start, Opens setting entry start ∧ event.Occurs setting start := by
  obtain ⟨s, hquiet, hfresh | ⟨start, stage, hopens, hreached⟩⟩ := h.course
  · rw [hquiet.journal_eq, hfresh.journal_eq] at he
    exact absurd he List.not_mem_nil
  · rw [hquiet.journal_eq] at he
    exact ⟨start, hopens, hreached.occurs hopens.inv hopens.journal_eq event he⟩

/-- After a call the journal tells of as many solves as the engine has counted. -/
theorem CallResult.length_solvesOf {result : EStateM.Result (Fault α) (SearchState α) Outcome}
    (h : CallResult setting entry result) :
    (solvesOf (finalState result).journal.toList).length = (finalState result).engine.solves := by
  obtain ⟨s, hquiet, hfresh | ⟨start, stage, hopens, hreached⟩⟩ := h.course
  · rw [hquiet.journal_eq, hquiet.solves_eq, hfresh.journal_eq, hfresh.solves_eq]
    rfl
  · rw [hquiet.journal_eq, hquiet.solves_eq]
    exact hreached.length_solvesOf hopens.inv hopens.journal_eq hopens.solves_eq

/-- After a call all iterations of the minimizer that are counted stand in the journal. -/
theorem CallResult.minimizerIterations_eq (h : CallResult setting entry result) :
    (finalState result).workspace.minimizerIterations =
      Search.minimizerWork (finalState result).journal := by
  suffices huntold : (finalState result).untold = 0 from sub_eq_zero.mp huntold
  have hclosed : ∀ {s s' : SearchState α}, Closes s s' → s'.untold = s.untold :=
    fun h => (Gains.of_quiet (h.quiet setting.oracle)).untold_eq
  cases h with
  | unevaluated _ hcloses _ _ _ hclear => exact (hclosed hcloses).trans hclear.untold_eq
  | ended hopens hreached hcloses _ _ _ hclear | timeUp hopens hreached hcloses _ _ hclear =>
    exact (hclosed hcloses).trans ((hreached.untold_eq hopens.inv).trans hclear.untold_eq)
  | overflowed hopens hoverflows _ hclear =>
    obtain ⟨_, _, _, hreached⟩ := hoverflows
    exact (hreached.untold_eq hopens.inv).trans hclear.untold_eq

end Call

end NonsmoothDescent
