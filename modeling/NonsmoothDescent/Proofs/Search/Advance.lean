import NonsmoothDescent.Proofs.Search.Effects
import NonsmoothDescent.Proofs.RadiusRule

/-!
# What a step advances

Along the steps of a search the workspace grows, each solve counts one inner iteration
and what the minimizer reports, the solver changes only by solves, and the radii change only
where the rule is asked. So what the rule keeps of the radii, a search keeps. From a stage
with an accepted trial a search can only end, so with a rule that changes the radii only
where it fires they are, while the search goes on, those at its start.
-/

namespace NonsmoothDescent

variable {α : Type} [Scalar α]

namespace Stage

/-- The number of solves that a step to this stage makes. -/
def gain : Stage α → Nat
  | .solved .switched => 0
  | .solved _ => 1
  | _ => 0

omit [Scalar α] in
/-- A stage makes one solve or none. -/
theorem gain_eq (b : Stage α) : b.gain = 0 ∨ b.gain = 1 := by
  cases b with
  | solved kind => cases kind <;> simp [gain]
  | _ => exact .inl rfl

/-- A trial was accepted. -/
def Halting : Stage α → Prop
  | .gradientTested accepted | .tested _ accepted | .shortTested _ _ _ accepted =>
    accepted = true
  | _ => False

/-- The search goes on. -/
def Searching : Stage α → Prop
  | .gradientTested accepted | .tested _ accepted | .shortTested _ _ _ accepted =>
    accepted = false
  | .ended _ => False
  | _ => True

omit [Scalar α] in
/-- A search that goes on has not stopped. -/
theorem Searching.not_halting {b : Stage α} (h : b.Searching) : ¬ b.Halting := by
  cases b <;> simp_all [Searching, Halting]

end Stage

section Work

/-- The iterations that the minimizer has reported, as far as the journal goes. -/
def Search.minimizerWork (journal : Array (Event α)) : Int :=
  ((consultations journal).map fun c => c.answer.iterations).sum

/-- The minimizer iterations that are counted but not told of in the journal. -/
def SearchState.untold (s : SearchState α) : Int :=
  s.workspace.minimizerIterations - Search.minimizerWork s.journal

/-- Only questions add to the work of the minimizer. -/
theorem Search.minimizerWork_push (journal : Array (Event α)) {event : Event α}
    (h : ∀ c, event ≠ .consulted c) :
    minimizerWork (journal.push event) = minimizerWork journal := by
  unfold minimizerWork consultations
  rw [Array.toList_push, List.filterMap_append]
  cases event with
  | consulted c => exact absurd rfl (h c)
  | solved | tested | roundBegan => simp

/-- A question adds the iterations of its answer. -/
theorem Search.minimizerWork_append (journal : Array (Event α)) (asked : Option (Consultation α)) :
    minimizerWork (journal ++ (asked.map Event.consulted).toList) =
      minimizerWork journal + (asked.map fun c => c.answer.iterations).getD 0 := by
  unfold minimizerWork consultations
  rw [Array.toList_appendList, List.filterMap_append]
  cases asked <;> simp

/-- A solve counts what the minimizer reports, and nothing if it is not asked. -/
theorem Solver.iterations_solveBy (s : Solver α) (warm : Bool) (ask : Request α → Answer α) :
    (s.solveBy warm ask).solver.iterations =
      ((s.solveBy warm ask).consultation.map fun c => c.answer.iterations).getD 0 := by
  have hfrom : ∀ start, (s.solveFrom ask start).solver.iterations =
      ((s.solveFrom ask start).consultation.map fun c => c.answer.iterations).getD 0 := by
    intro start
    unfold solveFrom
    split
    · rfl
    · split
      · rfl
      · split <;> rfl
  have hrun : ∀ start, (s.run ask start).solver.iterations =
      ((s.run ask start).consultation.map fun c => c.answer.iterations).getD 0 := by
    intro start
    obtain ⟨_, _, hrehearse, _⟩ := rehearse_eq (s.solveFrom ask start).solver
    have hsame := congrArg Solver.iterations hrehearse
    exact hsame.trans (hfrom start)
  cases warm <;> exact hrun _

/-- A solve leaves nothing untold. -/
theorem SearchState.untold_solved (setting : Setting α) (warm : Bool) (s : SearchState α) :
    (s.solved setting warm).untold = s.untold := by
  have hcounted : (s.solved setting warm).workspace.minimizerIterations =
      s.workspace.minimizerIterations + (s.answer setting warm).solver.iterations := rfl
  have hjournal : (s.solved setting warm).journal =
      (s.journal ++ ((s.answer setting warm).consultation.map Event.consulted).toList).push
        (.solved (s.solved setting warm).toMoment) := rfl
  have hreported : (s.answer setting warm).solver.iterations = _ :=
    s.solver.iterations_solveBy warm (setting.minimizer s.engine.consultations)
  unfold untold
  rw [hcounted, hjournal, Search.minimizerWork_push _ (by simp), Search.minimizerWork_append,
    hreported]
  exact Int.add_sub_add_right ..

end Work

/-- The workspace has grown and a number of solves was made, with the same radii. -/
structure Gains (k : Nat) (s s' : SearchState α) : Prop where
  grows : s.workspace.Grows s'.workspace
  iterations_eq : s'.workspace.innerIterations = s.workspace.innerIterations + k
  solves_eq : s'.engine.solves = s.engine.solves + k
  radii_eq : s'.workspace.radii = s.workspace.radii
  untold_eq : s'.untold = s.untold

namespace Gains

variable {k l : Nat} {s s' s'' : SearchState α} {setting : Setting α}

/-- Gains add up. -/
theorem trans (h : Gains k s s') (h' : Gains l s' s'') : Gains (k + l) s s'' where
  grows := h.grows.trans h'.grows
  iterations_eq := by rw [h'.iterations_eq, h.iterations_eq, Nat.cast_add, add_assoc]
  solves_eq := by rw [h'.solves_eq, h.solves_eq, add_assoc]
  radii_eq := h'.radii_eq.trans h.radii_eq
  untold_eq := h'.untold_eq.trans h.untold_eq

/-- A quiet change gains nothing. -/
theorem of_quiet {o : Oracle α} (hq : Quiet o s s') : Gains 0 s s' where
  grows := hq.grows
  iterations_eq := by rw [hq.innerIterations_eq, Nat.cast_zero, add_zero]
  solves_eq := hq.solves_eq
  radii_eq := hq.radii_eq
  untold_eq := by
    unfold SearchState.untold
    rw [hq.minimizerIterations_eq, hq.journal_eq]

/-- Notices gain nothing. -/
theorem of_logs (h : Logs s s') (o : Oracle α) : Gains 0 s s' := of_quiet (h.quiet o)

/-- Nothing gains nothing. -/
theorem refl (o : Oracle α) (s : SearchState α) : Gains 0 s s := of_quiet (.refl o s)

/-- Changes of the lists and marks of the engine. -/
theorem of_withEngine (s : SearchState α) (f : Engine α → Engine α)
    (hf : (f s.engine).solves = s.engine.solves) : Gains 0 s (s.withEngine f) where
  grows := .refl _
  iterations_eq := (add_zero _).symm
  solves_eq := hf
  radii_eq := rfl
  untold_eq := rfl

/-- An event that is not a question gains nothing. -/
theorem of_logged (s : SearchState α) {event : Moment α → Event α}
    (h : ∀ m c, event m ≠ .consulted c) : Gains 0 s (s.logged event) :=
  ⟨.refl _, (add_zero _).symm, rfl, rfl,
    congrArg (s.workspace.minimizerIterations - ·) (Search.minimizerWork_push s.journal (h _))⟩

/-- A cold solve gains one. -/
theorem of_resolved (setting : Setting α) (planes : List (Plane α)) (active : ActiveCuts α)
    (s : SearchState α) : Gains 1 s (s.resolved setting planes active) :=
  ⟨Moment.grows_solved setting false (s.loaded planes active), rfl, rfl, rfl,
    SearchState.untold_solved setting false (s.on (s.loaded planes active))⟩

/-- A warm solve gains one. -/
theorem of_continued (setting : Setting α) (planes : List (Plane α)) (s : SearchState α) :
    Gains 1 s (s.continued setting planes) :=
  ⟨Moment.grows_solved setting true (s.extended planes), rfl, rfl, rfl,
    SearchState.untold_solved setting true (s.on (s.extended planes))⟩

end Gains

/-- What a step to a stage does in any case. -/
structure Advances (setting : Setting α) (b : Stage α) (s s' : SearchState α) : Prop where
  grows : s.workspace.Grows s'.workspace
  iterations_eq : s'.workspace.innerIterations = s.workspace.innerIterations + b.gain
  solves_eq : s'.engine.solves = s.engine.solves + b.gain
  /-- The radii are the same, or the rule gave them; if it fired, a trial was accepted. -/
  radii : s'.workspace.radii = s.workspace.radii ∨ ∃ checks status norm,
    s'.workspace.radii =
        (setting.rule.verdict checks s.workspace.radii status norm).radii ∧
      ((setting.rule.verdict checks s.workspace.radii status norm).fires = true → b.Halting)
  untold_eq : s'.untold = s.untold

section Advances

variable {setting : Setting α} {b : Stage α} {s s' : SearchState α}

/-- A number of solves with the same radii is such a step. -/
theorem Gains.advances (h : Gains b.gain s s') : Advances setting b s s' :=
  ⟨h.grows, h.iterations_eq, h.solves_eq, .inl h.radii_eq, h.untold_eq⟩

/-- With a steady rule the radii change only where a trial is accepted. -/
theorem Advances.radii_eq (h : Advances setting b s s') (hsteady : setting.rule.Steady)
    (hgo : ¬ b.Halting) : s'.workspace.radii = s.workspace.radii := by
  obtain hsame | ⟨checks, status, norm, hradii, hfires⟩ := h.radii
  · exact hsame
  · exact hradii.trans (hsteady _ _ _ _ (Bool.eq_false_iff.mpr (mt hfires hgo)))

/-- What the rule keeps of the radii, a step keeps. -/
theorem Advances.keeps_radii {P : Radii α → Prop} (h : Advances setting b s s')
    (hrule : setting.rule.Keeps P) (hs : P s.workspace.radii) : P s'.workspace.radii := by
  obtain hsame | ⟨checks, status, norm, hradii, _⟩ := h.radii
  · exact hsame ▸ hs
  · exact hradii ▸ hrule _ _ _ _ hs

/-- Asking the rule changes the radii, and if it fires the trial is accepted. -/
theorem advances_tested {evaluated : Bool} {stepsize : α} (h : Gains 0 s s') (hb : b.gain = 0)
    (hhalt : s'.passes setting evaluated stepsize = true → b.Halting) :
    Advances setting b s (s'.tested setting evaluated) where
  grows := h.grows.trans (Moment.keeps_asked setting s'.toMoment).grows
  iterations_eq := by
    rw [hb, ← h.iterations_eq]
    exact (Moment.keeps_asked setting s'.toMoment).innerIterations_eq
  solves_eq := by
    rw [hb, ← h.solves_eq]
    exact (Moment.keeps_asked setting s'.toMoment).solves_eq
  radii := by
    rw [← h.radii_eq]
    refine .inr ⟨_, _, _, rfl, fun hfires => hhalt ?_⟩
    have hfired : (s'.asked setting).engine.ruleRecord.fired = true := hfires
    unfold SearchState.passes Moment.accepting
    rw [hfired, Bool.or_true]
  untold_eq := by
    rw [← h.untold_eq]
    change (s'.asked setting).workspace.minimizerIterations -
      Search.minimizerWork (s'.journal.push (.tested _ _)) = _
    rw [Search.minimizerWork_push _ (by simp),
      (Moment.keeps_asked setting s'.toMoment).minimizerIterations_eq]
    rfl

end Advances

/-- Every step advances the search. -/
theorem Step.advances {setting : Setting α} {a b : Stage α} {s s' : SearchState α}
    (hstep : Step setting a s b s') (h : Inv setting a s.toMoment) :
    Advances setting b s s' := by
  have hbase := h.base
  have hholds := h.holds
  have hquiet := hstep.quiet h
  have hnote : ∀ {notices : List (Notice α)} {t t' : SearchState α},
      Search.note notices t = .ok () t' → Gains 0 t t' :=
    fun hr => .of_logs ((Search.note_leads _ _).of_run hr) setting.oracle
  have htry : ∀ {stepsize : α} {evaluated : Bool} {t : SearchState α},
      s.Stepped → Search.tryStep setting stepsize s = .ok evaluated t → Gains 0 s t :=
    fun hs hr => .of_quiet
      ((Search.tryStep_leads hbase.toSound _ hs.length_direction).of_run hr).1
  cases hstep with
  | solveGradient | solveAggregated => exact Gains.advances (Gains.of_resolved _ _ _ s)
  | solveFull hcollect hr hplanes =>
    have hq := ((Search.collectCuts_leads hbase.toSound).of_run hcollect).1
    exact Gains.advances (((Gains.of_quiet hq).trans (hnote hr)).trans
      ((Gains.of_withEngine _ _ rfl).trans (.of_resolved _ _ _ _)))
  | fallBack _ _ _ hr | solveSwitching _ _ hr =>
    exact Gains.advances ((hnote hr).trans (.of_resolved _ _ _ _))
  | solveWarm hthreshold hplanes => exact Gains.advances (Gains.of_continued _ _ s)
  | testGradient hr =>
    exact advances_tested (htry (Moment.Solves.toStepped hholds.1) hr) rfl id
  | testFull hfirst => exact advances_tested (.refl setting.oracle s) rfl id
  | testShort hon hnorm hr =>
    exact advances_tested (htry (Moment.Solves.toStepped hholds.1) hr) rfl id
  | enterLoop | markSwitch => exact Gains.advances (Gains.of_withEngine s _ rfl)
  | nextRound | omitAggregation => exact Gains.advances (Gains.refl setting.oracle s)
  | restart hr => exact Gains.advances ((hnote hr).trans (.of_withEngine _ _ rfl))
  | beginRound hflush hevaluate =>
    have hq := (Search.begun_of_run hbase.toSound hflush hevaluate).1
    have hlogged : Gains 0 s (s.logged .roundBegan) := .of_logged s (by simp)
    exact Gains.advances (hlogged.trans (.of_quiet hq))
  | aggregate hon haggregate =>
    obtain ⟨_, s₁, _, hlogs, _, rfl⟩ := (h.aggregate_leads hon).of_run haggregate
    exact Gains.advances ((Gains.of_logs hlogs setting.oracle).trans (.of_withEngine _ _ rfl))
  | augment hreport =>
    have hlogs := (Search.reportRound_leads setting _).of_run hreport
    exact Gains.advances ((Gains.of_withEngine s _ rfl).trans (.of_logs hlogs setting.oracle))
  | _ => exact Gains.advances (Gains.of_quiet (hquiet trivial))

section Course

variable {setting : Setting α} {a b : Stage α} {s s' start : SearchState α}

/-- A step that makes no solve leaves the solver alone. -/
theorem Step.solver_eq (hstep : Step setting a s b s') (h : Inv setting a s.toMoment)
    (hb : b.gain = 0) : s'.solver = s.solver := by
  by_cases hcalm : b.Calm
  · exact (hstep.keeps h hcalm).solver_eq'
  · cases hstep with
    | enterLoop hstatus => exact solver_withEngine _ rfl
    | markSwitch => exact solver_withEngine _ rfl
    | nextRound hkind hstatus => rfl
    | @restart _ s₁ _ _ hr =>
      have hsame : s₁.solver = s.solver := (keeps_of_note setting.oracle hr).solver_eq'
      exact (solver_withEngine _ rfl).trans hsame
    | aggregate hon hr =>
      obtain ⟨_, s₁, _, hlogs, _, rfl⟩ := (h.aggregate_leads hon).of_run hr
      exact (solver_withEngine _ rfl).trans (hlogs.quiet setting.oracle).solver_eq'
    | augment hr =>
      have hlogs := (Search.reportRound_leads setting _).of_run hr
      exact (hlogs.quiet setting.oracle).solver_eq'.trans (solver_withEngine _ rfl)
    | solveGradient | solveFull | fallBack | solveAggregated | solveSwitching | solveWarm =>
      cases hb
    | _ => exact absurd trivial hcalm

/-- A search that goes on went on before. -/
theorem Step.searching (hstep : Step setting a s b s') (hb : b.Searching) : a.Searching := by
  cases hstep with
  | rejectGradient | reachLimit | runOut | goOn | sampleShort => rfl
  | acceptGradient | acceptFull | acceptShort => exact False.elim hb
  | _ => trivial

/-- With a steady rule the radii are, while a search goes on, those at its start. -/
theorem Reached.radii_eq (hinv : Inv setting .ready start.toMoment)
    (h : Reached setting start b s) (hsteady : setting.rule.Steady) (hb : b.Searching) :
    s.workspace.radii = start.workspace.radii := by
  induction h with
  | start => rfl
  | step hreached hstep ih =>
    rw [(hstep.advances (hreached.inv hinv)).radii_eq hsteady hb.not_halting,
      ih (hstep.searching hb)]

/-- What the rule keeps of the radii holds at every stage if it holds at the start. -/
theorem Reached.keeps_radii {P : Radii α → Prop} (hinv : Inv setting .ready start.toMoment)
    (h : Reached setting start b s) (hrule : setting.rule.Keeps P)
    (hstart : P start.workspace.radii) : P s.workspace.radii := by
  induction h with
  | start => exact hstart
  | step hreached hstep ih => exact (hstep.advances (hreached.inv hinv)).keeps_radii hrule ih

/-- While a search goes on nothing is left untold that was not so before. -/
theorem Reached.untold_eq (hinv : Inv setting .ready start.toMoment)
    (h : Reached setting start b s) : s.untold = start.untold := by
  induction h with
  | start => rfl
  | step hreached hstep ih => exact (hstep.advances (hreached.inv hinv)).untold_eq.trans ih

/-- At every stage the workspace has grown from the start. -/
theorem Reached.grows (hinv : Inv setting .ready start.toMoment)
    (h : Reached setting start b s) : start.workspace.Grows s.workspace := by
  induction h with
  | start => exact .refl _
  | step hreached hstep ih => exact ih.trans (hstep.advances (hreached.inv hinv)).grows

end Course

end NonsmoothDescent
