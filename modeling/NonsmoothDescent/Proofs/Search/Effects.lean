import NonsmoothDescent.Proofs.Search.Invariant

/-!
# What steps leave alone

Most steps of a search touch neither solver nor cuts nor direction. The others are the
solves, the steps at which a round is entered, aggregation and the addition of new cuts,
and only a solve changes the solver. What depends on the solver alone need therefore be
looked at only where a solve is made. Of the steps that leave so much alone, all but the
tests and the beginnings of rounds are not told in the journal either.
-/

namespace NonsmoothDescent

variable {α : Type} [Scalar α]

/-- A step to such a stage leaves solver, cuts and direction alone. -/
def Stage.Calm : Stage α → Prop
  | .ready | .solved _ | .round _ | .sampling true _ | .augmented _ _ => False
  | _ => True

/-- Of a step to such a stage the journal, the radii and the rule know nothing. -/
def Stage.Silent : Stage α → Prop
  | .opened | .rejected _ | .sampled _ _ | .chosen _ _ | .ended _ => True
  | _ => False

section Effects

variable {setting : Setting α} {a b : Stage α} {s s' : SearchState α}

/-- Trying a step keeps cuts, solver and counters. -/
theorem keeps_of_tryStep {stepsize : α} {evaluated : Bool} (h : s.Solves setting.oracle)
    (hr : Search.tryStep setting stepsize s = .ok evaluated s') :
    Moment.Keeps setting.oracle s.toMoment s'.toMoment :=
  ((Search.tryStep_leads h.toSound _ h.length_direction).of_run hr).1.toKeeps

/-- Steps to silent stages are quiet. -/
theorem Step.quiet (hstep : Step setting a s b s') (h : Inv setting a s.toMoment)
    (hb : b.Silent) : Quiet setting.oracle s s' := by
  have hbase := h.base
  have hholds := h.holds
  cases hstep with
  | rejectGradient | omitGradient | failSolver | acceptFull | reachLimit | omitFull | omitShort =>
    exact .refl _ _
  | acceptGradient hr | failTrial hr | acceptShort hr =>
    exact ((Search.note_leads _ _).of_run hr).quiet setting.oracle
  | runOut _ hr | goOn _ hr => exact ((Search.elapsed_leads _ _).of_run hr).quiet setting.oracle
  | sampleFull hnear hcut => exact (valid_trialCut hbase.toSound hholds.2.2 hcut).1
  | sampleShort hcut => exact (valid_trialCut hbase.toSound hholds.2.2.2 hcut).1
  | _ => exact False.elim hb

/-- Steps to calm stages keep solver, cuts and direction. -/
theorem Step.keeps (hstep : Step setting a s b s') (h : Inv setting a s.toMoment) (hb : b.Calm) :
    Moment.Keeps setting.oracle s.toMoment s'.toMoment := by
  have hquiet := hstep.quiet h
  obtain ⟨hbase, hholds, _⟩ := h
  cases hstep with
  | testGradient hr => exact (keeps_of_tryStep hholds.1 hr).trans (Moment.keeps_asked setting _)
  | testShort hon hnorm hr =>
    exact (keeps_of_tryStep hholds.1 hr).trans (Moment.keeps_asked setting _)
  | testFull hfirst => exact Moment.keeps_asked setting s.toMoment
  | beginRound hflush hevaluate =>
    exact (Search.begun_of_run hbase.toSound hflush hevaluate).1.toKeeps
  | omitAggregation hoff => exact .refl _ _
  | solveGradient | solveFull | enterLoop | markSwitch | nextRound | fallBack | restart | aggregate
  | augment | solveAggregated | solveSwitching | solveWarm => exact False.elim hb
  | _ => exact (hquiet trivial).toKeeps

end Effects

end NonsmoothDescent
