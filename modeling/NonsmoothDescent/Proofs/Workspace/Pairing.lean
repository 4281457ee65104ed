import NonsmoothDescent.Proofs.Tandem
import NonsmoothDescent.Proofs.Workspace.Operations

/-!
# Workspaces of two runs

Two runs of one search may differ in what has no bearing on their course: the numbers of
their samples, how far their counters are, and, where only one of them evaluates gradients
along with objectives, whether the gradient at a trial point is known already. The relation
between their workspaces says how far they may differ, and the operations keep it. The
current point and the bundle are known equally well in both; a trial point that gets into
the bundle is so from then on.
-/

namespace NonsmoothDescent

variable {α : Type}

/-- How the second of two runs may differ from the first. -/
structure Pairing where
  /-- Below this number, samples have the same number in both runs. -/
  old : Nat := 0
  /-- The number of samples that only the second run has; they are numbered from `old` on. -/
  gap : Nat := 0
  /-- How many solves the second run is ahead. -/
  lead : Nat := 0
  /-- How many evaluations of the objective it is ahead. -/
  objectives : Nat := 0
  /-- How many evaluations of the gradient it is ahead. -/
  gradients : Nat := 0
  /-- Whether only the second run evaluates the gradient at trial points along with the
  objective; it is then at least as many evaluations of the gradient ahead. -/
  apart : Bool := false

namespace Pairing

variable {k : Pairing} {i j n : Nat}

/-- The number that a sample of the first run has in the second. -/
def rename (k : Pairing) (id : Nat) : Nat := if id < k.old then id else id + k.gap

/-- Samples that are made later have numbers behind the gap. -/
theorem rename_of_le (h : k.old ≤ n) : k.rename n = n + k.gap := if_neg (Nat.not_lt.mpr h)

/-- Samples with one number in the second run are one sample. -/
theorem rename_inj : k.rename i = k.rename j ↔ i = j := by
  unfold rename
  split <;> split <;> omega

/-- A sample of the first run is one of the second. -/
theorem rename_lt (h : i < n) (hn : k.old ≤ n) : k.rename i < n + k.gap := by
  unfold rename
  split <;> omega

end Pairing

/-- An evaluation is pending if it has not been made. -/
theorem Evaluation.isPending_iff {β : Type} {e : Evaluation β} :
    e.isPending = true ↔ e = .pending := by
  cases e <;> simp [isPending]

namespace Sample

variable [Scalar α]

/-- The same point in two runs, as well known in both; the gradient may be known in the
second one only if that is allowed. -/
structure Paired (o : Oracle α) (apart : Bool) (s t : Sample α) : Prop where
  position_eq : t.position = s.position
  objective_eq : t.objective = s.objective
  gradient : t.gradient = s.gradient ∨ apart = true ∧ s.gradient = .pending
  length_eq : s.position.length = o.dimension
  faithful : s.Faithful o
  faithful' : t.Faithful o

/-- After its evaluation a gradient is what the oracle gives. -/
theorem Faithful.evaluateGradient_eq {o : Oracle α} {s : Sample α} (h : s.Faithful o) :
    (s.evaluateGradient o).1 =
      { s with gradient := .ofOption (o.evaluateGradient s.position).1 } := by
  unfold Sample.evaluateGradient
  split
  · rfl
  · rename_i hpending
    have hknown := h.gradient.resolve_left fun hp => hpending (Evaluation.isPending_iff.mpr hp)
    rw [← hknown]

/-- So it is with an objective. -/
theorem Faithful.evaluateObjective_eq {o : Oracle α} {s : Sample α} (h : s.Faithful o) :
    (s.evaluateObjective o).1 =
      { s with objective := .ofOption (o.evaluateObjective s.position).1 } := by
  unfold Sample.evaluateObjective
  split
  · rfl
  · rename_i hpending
    have hknown := h.objective.resolve_left fun hp => hpending (Evaluation.isPending_iff.mpr hp)
    rw [← hknown]

namespace Paired

variable {o : Oracle α} {apart : Bool} {s t : Sample α}

/-- A faithful sample of the right length is paired with itself. -/
theorem refl (apart : Bool) (hl : s.position.length = o.dimension) (h : s.Faithful o) :
    Paired o apart s s := ⟨rfl, rfl, .inl rfl, hl, h, h⟩

/-- The samples differ in their gradients at most. -/
theorem eq_but_gradient (h : Paired o apart s t) : t = { s with gradient := t.gradient } := by
  obtain ⟨hposition, hobjective, _⟩ := h
  cases s
  cases t
  simp_all

/-- Paired samples with the same gradient are the same. -/
theorem eq_of_gradient (h : Paired o apart s t) (hg : t.gradient = s.gradient) : t = s := by
  rw [h.eq_but_gradient, hg]

/-- Where the runs evaluate alike, paired samples are the same. -/
theorem eq (h : Paired o apart s t) (hnot : apart = false) : t = s :=
  h.eq_of_gradient (h.gradient.resolve_right (by simp [hnot]))

/-- Paired samples stay so when both objectives are evaluated. -/
theorem evaluateObjective (h : Paired o apart s t) :
    Paired o apart (s.evaluateObjective o).1 (t.evaluateObjective o).1 := by
  have hs := h.faithful.evaluateObjective
  have ht := h.faithful'.evaluateObjective
  rw [h.faithful.evaluateObjective_eq] at hs ⊢
  rw [h.faithful'.evaluateObjective_eq] at ht ⊢
  exact ⟨h.position_eq, by rw [h.position_eq], h.gradient, h.length_eq, hs, ht⟩

/-- Once the gradient has been evaluated in both runs the point is known equally well. -/
theorem evaluateGradient_eq (h : Paired o apart s t) :
    (t.evaluateGradient o).1 = (s.evaluateGradient o).1 := by
  rw [h.faithful.evaluateGradient_eq, h.faithful'.evaluateGradient_eq, h.position_eq,
    h.objective_eq]

/-- Paired samples stay so when both gradients are evaluated. -/
theorem evaluateGradient (h : Paired o apart s t) :
    Paired o apart (s.evaluateGradient o).1 (t.evaluateGradient o).1 := by
  rw [h.evaluateGradient_eq]
  refine .refl apart ?_ h.faithful.evaluateGradient
  rw [h.faithful.evaluateGradient_eq]
  exact h.length_eq

/-- The second run may be the only one to evaluate the gradient if that is allowed. -/
theorem ahead (h : Paired o true s t) : Paired o true s (t.evaluateGradient o).1 := by
  have ht := h.faithful'.evaluateGradient
  rw [h.faithful'.evaluateGradient_eq] at ht ⊢
  refine ⟨h.position_eq, h.objective_eq, ?_, h.length_eq, h.faithful, ht⟩
  rw [h.position_eq]
  exact h.faithful.gradient.symm.imp Eq.symm fun hp => ⟨rfl, hp⟩

end Paired

end Sample

namespace Workspace

variable [Scalar α]

/-- The samples of two runs are paired, and the current point and the bundle points are
known equally well in both. -/
structure SamePoints (o : Oracle α) (k : Pairing) (w w' : Workspace α) : Prop where
  dimension_eq : o.dimension = w.dimension
  old_le : k.old ≤ w.samples.size
  size_eq : w'.samples.size = w.samples.size + k.gap
  paired : ∀ id < w.samples.size,
    Sample.Paired o k.apart (w.sampleAt id) (w'.sampleAt (k.rename id))
  current_lt : w.current < w.samples.size
  bundle_lt : ∀ id ∈ w.bundle.toList, id < w.samples.size
  current_eq : w'.current = k.rename w.current
  bundle_eq : w'.bundle = w.bundle.map k.rename
  currentSample_eq : w'.currentSample = w.currentSample
  bundleSample_eq : ∀ id ∈ w.bundle.toList, w'.sampleAt (k.rename id) = w.sampleAt id

/-- The figures of two runs agree, or are as far ahead in the second one as the pairing
says. -/
structure SameFigures (k : Pairing) (w w' : Workspace α) : Prop where
  dimension_eq : w'.dimension = w.dimension
  radii_eq : w'.radii = w.radii
  innerIterations_eq : w'.innerIterations = w.innerIterations + k.lead
  minimizerIterations_eq : w'.minimizerIterations = w.minimizerIterations
  totalInnerIterations_eq : k.lead = 0 → w'.totalInnerIterations = w.totalInnerIterations
  totalMinimizerIterations_eq : w'.totalMinimizerIterations = w.totalMinimizerIterations
  objectives_eq : w'.objectiveEvaluations = w.objectiveEvaluations + k.objectives
  gradients_eq : k.apart = false →
    w'.gradientEvaluations = w.gradientEvaluations + k.gradients
  gradients_le : k.apart = true →
    w.gradientEvaluations + k.gradients ≤ w'.gradientEvaluations
  jointEvaluation_eq : k.apart = false → w'.jointEvaluation = w.jointEvaluation
  jointEvaluation_apart : k.apart = true → w.jointEvaluation = false ∧ w'.jointEvaluation = true
  clockReadings_eq : w'.clockReadings = w.clockReadings
  startTime_eq : w'.startTime = w.startTime
  timeLimit_eq : w'.timeLimit = w.timeLimit
  searchTime_eq : w'.searchTime = w.searchTime

/-- Direction and trial point of two runs are the same. If the gradient at the trial point
is known in the second run only, then this run is ahead by that evaluation too; at points
that have other parts to play it is known in both. -/
structure SameTrial (k : Pairing) (w w' : Workspace α) : Prop where
  direction_eq : w'.direction = w.direction
  trial_lt : w.trial < w.samples.size
  trial_eq : w'.trial = k.rename w.trial
  lags : k.apart = true → w.trialSample.gradient = .pending →
    w'.trialSample.gradient ≠ .pending →
      w.gradientEvaluations + k.gradients < w'.gradientEvaluations
  settled : k.apart = true → w.trial = w.current ∨ w.trial ∈ w.bundle.toList →
    w'.trialSample.gradient ≠ .pending

/-- The workspaces of two runs match; direction and trial point do so as soon as both are
on the same course. -/
structure Matches (o : Oracle α) (k : Pairing) (aligned : Prop) (w w' : Workspace α) : Prop where
  points : SamePoints o k w w'
  figures : SameFigures k w w'
  trial : aligned → SameTrial k w w'

section Replacement

variable {o : Oracle α} {k : Pairing} {a : Prop} {w w' v v' : Workspace α} {id : SampleId}
  {e e' : Sample α}

omit [Scalar α] in
/-- A later workspace with another sample in place of one, and otherwise the same points. -/
structure Replaces (w v : Workspace α) (id : SampleId) (e : Sample α) : Prop where
  dimension_eq : v.dimension = w.dimension
  size_eq : v.samples.size = w.samples.size
  sampleAt_eq : ∀ i, v.sampleAt i = if i = id then e else w.sampleAt i
  bundle_eq : v.bundle = w.bundle
  current_eq : v.current = w.current
  trial_eq : v.trial = w.trial
  direction_eq : v.direction = w.direction

omit [Scalar α] in
/-- A workspace has each of its samples in its own place. -/
theorem Replaces.refl (w : Workspace α) (id : SampleId) : Replaces w w id (w.sampleAt id) := by
  refine ⟨rfl, rfl, fun i => ?_, rfl, rfl, rfl, rfl⟩
  split
  · rename_i hi
    rw [hi]
  · rfl

omit [Scalar α] in
/-- The trial point is new if it was replaced, and else as it was. -/
theorem Replaces.trialSample_eq (h : Replaces w v id e) :
    v.trialSample = if w.trial = id then e else w.trialSample := by
  rw [trialSample, h.trial_eq, h.sampleAt_eq]
  rfl

/-- Replacing a sample in both runs keeps their points the same, if the new samples are paired
and those of the current point and the bundle equal. -/
theorem SamePoints.replace (h : SamePoints o k w w') (hv : Replaces w v id e)
    (hv' : Replaces w' v' (k.rename id) e') (hpaired : Sample.Paired o k.apart e e')
    (hsame : id = w.current ∨ id ∈ w.bundle.toList → e' = e) : SamePoints o k v v' := by
  have hat : ∀ i, v'.sampleAt (k.rename i) = if i = id then e' else w'.sampleAt (k.rename i) := by
    intro i
    rw [hv'.sampleAt_eq]
    simp only [Pairing.rename_inj]
  refine ⟨?_, ?_, ?_, fun i hi => ?_, ?_, fun i hi => ?_, ?_, ?_, ?_, fun i hi => ?_⟩
  · rw [hv.dimension_eq, h.dimension_eq]
  · rw [hv.size_eq]
    exact h.old_le
  · rw [hv.size_eq, hv'.size_eq, h.size_eq]
  · rw [hat, hv.sampleAt_eq]
    rw [hv.size_eq] at hi
    split
    · exact hpaired
    · exact h.paired i hi
  · rw [hv.current_eq, hv.size_eq]
    exact h.current_lt
  · rw [hv.size_eq]
    exact h.bundle_lt i (hv.bundle_eq ▸ hi)
  · rw [hv.current_eq, hv'.current_eq, h.current_eq]
  · rw [hv.bundle_eq, hv'.bundle_eq, h.bundle_eq]
  · have hold := h.currentSample_eq
    unfold currentSample at hold ⊢
    rw [hv'.current_eq, h.current_eq, hat, hv.current_eq, hv.sampleAt_eq]
    split
    · rename_i hcurrent
      exact hsame (.inl hcurrent.symm)
    · rw [← h.current_eq]
      exact hold
  · rw [hv.bundle_eq] at hi
    rw [hat, hv.sampleAt_eq]
    split
    · rename_i heq
      exact hsame (.inr (heq ▸ hi))
    · exact h.bundleSample_eq i hi

end Replacement

section Evaluation

variable {o : Oracle α} {k : Pairing} {a : Prop} {w w' : Workspace α} {id : SampleId}

/-- The workspace after the objective was evaluated at a sample. -/
def withObjective (o : Oracle α) (id : SampleId) (w : Workspace α) : Workspace α :=
  { w with
    samples := w.samples.setIfInBounds id ((w.sampleAt id).evaluateObjective o).1
    objectiveEvaluations :=
      if (w.sampleAt id).objective.isPending then w.objectiveEvaluations + 1
      else w.objectiveEvaluations
    notices := w.notices ++ ((w.sampleAt id).evaluateObjective o).2 }

/-- The workspace after the gradient was evaluated at a sample. -/
def withGradient (o : Oracle α) (id : SampleId) (w : Workspace α) : Workspace α :=
  { w with
    samples := w.samples.setIfInBounds id ((w.sampleAt id).evaluateGradient o).1
    gradientEvaluations :=
      if (w.sampleAt id).gradient.isPending then w.gradientEvaluations + 1
      else w.gradientEvaluations
    notices := w.notices ++ ((w.sampleAt id).evaluateGradient o).2 }

/-- Evaluating an objective succeeds and sets it. -/
theorem evaluateObjective_run (o : Oracle α) (id : SampleId) (w : Workspace α) :
    evaluateObjective o id true w =
      .ok ((w.sampleAt id).evaluateObjective o).1.objective.isKnown (w.withObjective o id) := by
  unfold withObjective
  rw [← Bool.and_true (w.sampleAt id).objective.isPending]
  rfl

/-- Evaluating a gradient succeeds and sets it. -/
theorem evaluateGradient_run (o : Oracle α) (id : SampleId) (w : Workspace α) :
    evaluateGradient o id true w =
      .ok ((w.sampleAt id).evaluateGradient o).1.gradient.isKnown (w.withGradient o id) := by
  unfold withGradient
  rw [← Bool.and_true (w.sampleAt id).gradient.isPending]
  rfl

/-- Evaluating an objective replaces one sample. -/
theorem replaces_withObjective (hid : id < w.samples.size) :
    Replaces w (w.withObjective o id) id ((w.sampleAt id).evaluateObjective o).1 :=
  ⟨rfl, Array.size_setIfInBounds, fun i => sampleAt_set w _ i hid, rfl, rfl, rfl, rfl⟩

/-- Evaluating a gradient replaces one sample. -/
theorem replaces_withGradient (hid : id < w.samples.size) :
    Replaces w (w.withGradient o id) id ((w.sampleAt id).evaluateGradient o).1 :=
  ⟨rfl, Array.size_setIfInBounds, fun i => sampleAt_set w _ i hid, rfl, rfl, rfl, rfl⟩

/-- Evaluating the objective of a sample leaves its gradient. -/
theorem gradient_evaluateObjective (o : Oracle α) (s : Sample α) :
    (s.evaluateObjective o).1.gradient = s.gradient := by
  unfold Sample.evaluateObjective
  split <;> rfl

/-- Evaluating an objective leaves the gradient of the trial point. -/
theorem gradient_withObjective (hid : id < w.samples.size) :
    (w.withObjective o id).trialSample.gradient = w.trialSample.gradient := by
  rw [(replaces_withObjective hid).trialSample_eq]
  split
  · rename_i htrial
    rw [gradient_evaluateObjective, ← htrial]
    rfl
  · rfl

/-- After its evaluation a gradient is not pending. -/
theorem ne_pending_evaluateGradient {s : Sample α} (h : s.Faithful o) :
    (s.evaluateGradient o).1.gradient ≠ .pending := by
  rw [h.evaluateGradient_eq]
  cases (o.evaluateGradient s.position).1 <;> exact nofun

/-- A sample at which points of two runs are known equally well. -/
theorem SamePoints.same_at (h : SamePoints o k w w')
    (hid : id = w.current ∨ id ∈ w.bundle.toList) :
    id < w.samples.size ∧ w'.sampleAt (k.rename id) = w.sampleAt id := by
  rcases hid with rfl | hmem
  · refine ⟨h.current_lt, ?_⟩
    rw [← h.current_eq]
    exact h.currentSample_eq
  · exact ⟨h.bundle_lt id hmem, h.bundleSample_eq id hmem⟩

/-- A sample of the first run has its number in the second. -/
theorem SamePoints.rename_lt (h : SamePoints o k w w') (hid : id < w.samples.size) :
    k.rename id < w'.samples.size := by
  rw [h.size_eq]
  exact Pairing.rename_lt hid h.old_le

/-- Both runs evaluate the objective at a sample. -/
theorem Matches.withObjective (h : Matches o k a w w') (hid : id < w.samples.size) :
    Matches o k a (w.withObjective o id) (w'.withObjective o (k.rename id)) := by
  have hid' := h.points.rename_lt hid
  have hpaired := h.points.paired id hid
  refine ⟨h.points.replace (replaces_withObjective hid) (replaces_withObjective hid')
    hpaired.evaluateObjective fun hat => ?_, { h.figures with objectives_eq := ?_ }, fun ha => ?_⟩
  · rw [(h.points.same_at hat).2]
  · have hcount := h.figures.objectives_eq
    unfold Workspace.withObjective
    rw [hpaired.objective_eq]
    split
    · rw [hcount, Nat.add_right_comm]
    · exact hcount
  · have ht := h.trial ha
    refine ⟨ht.direction_eq, ?_, ht.trial_eq, ?_, ?_⟩
    · rw [(replaces_withObjective hid).size_eq]
      exact ht.trial_lt
    · rw [gradient_withObjective hid, gradient_withObjective hid']
      exact ht.lags
    · rw [gradient_withObjective hid']
      exact ht.settled

/-- A gradient is counted when it is evaluated for the first time. -/
theorem gradientEvaluations_withGradient (o : Oracle α) (id : SampleId) (w : Workspace α) :
    (w.withGradient o id).gradientEvaluations =
      w.gradientEvaluations + (if (w.sampleAt id).gradient.isPending then 1 else 0) := by
  unfold Workspace.withGradient
  dsimp only
  split <;> rfl

/-- The runs count the evaluation of a gradient alike, unless the second one is ahead by just
this evaluation; then it has counted it before. -/
theorem Matches.figures_withGradient (h : Matches o k a w w') (hid : id < w.samples.size)
    (hat : w'.sampleAt (k.rename id) = w.sampleAt id ∨ a ∧ id = w.trial) :
    SameFigures k (w.withGradient o id) (w'.withGradient o (k.rename id)) := by
  have hpaired := h.points.paired id hid
  refine { h.figures with gradients_eq := fun hnot => ?_, gradients_le := fun happart => ?_ }
  · rw [gradientEvaluations_withGradient, gradientEvaluations_withGradient, hpaired.eq hnot,
      h.figures.gradients_eq hnot, Nat.add_right_comm]
  · have hle := h.figures.gradients_le happart
    rw [gradientEvaluations_withGradient, gradientEvaluations_withGradient]
    rcases hpaired.gradient with hsame | ⟨_, hpending⟩
    · rw [hsame]
      omega
    · by_cases hboth : (w'.sampleAt (k.rename id)).gradient = .pending
      · rw [hboth, hpending]
        omega
      · obtain ⟨ha, rfl⟩ := hat.resolve_left fun hsame => hboth (hsame ▸ hpending)
        have ht := h.trial ha
        rw [← ht.trial_eq] at hboth ⊢
        have hlt := ht.lags happart hpending hboth
        have hpendings : (Evaluation.pending : Evaluation (List α)).isPending = true := rfl
        rw [hpending, if_pos hpendings]
        omega

/-- The trial points stay the same, and only the second run may know a gradient there that
the first one does not. -/
theorem Matches.trial_withGradient (h : Matches o k a w w') (hid : id < w.samples.size)
    (hat : w'.sampleAt (k.rename id) = w.sampleAt id ∨ a ∧ id = w.trial) (ha : a) :
    SameTrial k (w.withGradient o id) (w'.withGradient o (k.rename id)) := by
  have hid' := h.points.rename_lt hid
  have hpaired := h.points.paired id hid
  have ht := h.trial ha
  have hsettled : (w'.withGradient o (k.rename id)).trialSample.gradient =
      if w.trial = id then ((w'.sampleAt (k.rename id)).evaluateGradient o).1.gradient
      else w'.trialSample.gradient := by
    rw [(replaces_withGradient hid').trialSample_eq, ht.trial_eq]
    simp only [Pairing.rename_inj]
    split <;> rfl
  refine ⟨ht.direction_eq, ?_, ht.trial_eq, fun happart hpending hahead => ?_,
    fun happart hplace => ?_⟩
  · rw [(replaces_withGradient hid).size_eq]
    exact ht.trial_lt
  · rw [(replaces_withGradient hid).trialSample_eq] at hpending
    by_cases htrial : w.trial = id
    · rw [if_pos htrial] at hpending
      exact absurd hpending (ne_pending_evaluateGradient hpaired.faithful)
    · rw [if_neg htrial] at hpending
      rw [hsettled, if_neg htrial] at hahead
      have hlt := ht.lags happart hpending hahead
      have hsame := hat.resolve_right fun hboth => htrial hboth.2.symm
      rw [gradientEvaluations_withGradient, gradientEvaluations_withGradient, hsame]
      omega
  · rw [hsettled]
    split
    · exact ne_pending_evaluateGradient hpaired.faithful'
    · exact ht.settled happart hplace

/-- Both runs evaluate the gradient at a sample that they know equally well, or at the
trial point. -/
theorem Matches.withGradient (h : Matches o k a w w') (hid : id < w.samples.size)
    (hat : w'.sampleAt (k.rename id) = w.sampleAt id ∨ a ∧ id = w.trial) :
    Matches o k a (w.withGradient o id) (w'.withGradient o (k.rename id)) := by
  have hid' := h.points.rename_lt hid
  have hpaired := h.points.paired id hid
  have hpoints := h.points.replace (replaces_withGradient hid) (replaces_withGradient hid')
    hpaired.evaluateGradient fun _ => hpaired.evaluateGradient_eq
  exact ⟨hpoints, h.figures_withGradient hid hat, h.trial_withGradient hid hat⟩

/-- Only the second run evaluates the gradient, at the trial point. -/
theorem Matches.ahead (h : Matches o k a w w') (ha : a) (happart : k.apart = true) :
    Matches o k a w (w'.withGradient o w'.trial) := by
  have ht := h.trial ha
  have hid := ht.trial_lt
  have hid' := h.points.rename_lt hid
  have hpaired := h.points.paired w.trial hid
  rw [happart] at hpaired
  rw [ht.trial_eq]
  have hcount := gradientEvaluations_withGradient o (k.rename w.trial) w'
  have hle := h.figures.gradients_le happart
  have hnew : (w'.withGradient o (k.rename w.trial)).trialSample.gradient ≠ .pending := by
    rw [(replaces_withGradient hid').trialSample_eq, if_pos ht.trial_eq]
    exact ne_pending_evaluateGradient hpaired.faithful'
  refine ⟨h.points.replace (.refl w w.trial) (replaces_withGradient hid') ?_ fun hplace => ?_,
    { h.figures with
      gradients_eq := fun hnot => absurd (hnot.symm.trans happart) Bool.false_ne_true
      gradients_le := fun _ => hle.trans (hcount ▸ Nat.le_add_right _ _) }, fun _ => ?_⟩
  · rw [happart]
    exact hpaired.ahead
  · have hknown := ht.settled happart hplace
    have hsame := (h.points.same_at hplace).2
    rw [trialSample, ht.trial_eq] at hknown
    rw [hsame] at hknown ⊢
    have hnot : ¬ (w.sampleAt w.trial).gradient.isPending = true :=
      fun hp => hknown (Evaluation.isPending_iff.mp hp)
    unfold Sample.evaluateGradient
    rw [if_neg hnot]
  · refine ⟨ht.direction_eq, hid, ht.trial_eq, fun _ hpending _ => ?_, fun _ _ => hnew⟩
    by_cases hknown : w'.trialSample.gradient = .pending
    · rw [trialSample, ht.trial_eq] at hknown
      rw [hcount, hknown]
      exact Nat.lt_succ_of_le hle
    · exact (ht.lags happart hpending hknown).trans_le (hcount ▸ Nat.le_add_right _ _)

end Evaluation

section Lookup

variable {o : Oracle α} {k : Pairing} {w w' : Workspace α}

/-- Runs with the same points have as many of them in their bundles. -/
theorem SamePoints.bundle_size_eq (h : SamePoints o k w w') : w'.bundle.size = w.bundle.size := by
  rw [h.bundle_eq, Array.size_map]

/-- Runs with the same points report the same number of them. -/
theorem SamePoints.points_eq (h : SamePoints o k w w') : w'.points = w.points := by
  unfold points
  rw [h.bundle_eq, Array.toList_map, List.map_map]
  exact List.map_congr_left h.bundleSample_eq

/-- Places of the bundle stand for the same points in both runs. -/
theorem SamePoints.pointAt_eq (h : SamePoints o k w w') : w'.pointAt = w.pointAt := by
  funext i
  unfold pointAt
  rw [h.bundle_size_eq]
  cases Position.resolve? w.bundle.size i with
  | none => rfl
  | some place =>
    simp only [Option.bind_some, h.bundle_eq, Array.getElem?_map, Option.map_map]
    cases hid : w.bundle[place]? with
    | none => rfl
    | some id =>
      exact congrArg some (h.bundleSample_eq id
        (Array.mem_toList_iff.mpr (Array.mem_of_getElem? hid)))

end Lookup

section Changes

variable {o : Oracle α} {k : Pairing} {a : Prop} {w w' : Workspace α} {id : SampleId}
  {s : Sample α}

omit [Scalar α] in
/-- The workspace with one more sample, which is the trial point. -/
def withSample (s : Sample α) (w : Workspace α) : Workspace α :=
  { w with samples := w.samples.push s, trial := w.samples.size }

/-- A sample at a sum that can be formed is new. -/
theorem new_of_shifted {n : Nat} {base : Sample α} {x y : α} {d : Tensor α}
    (h : base.shifted n x y d = .ok s) :
    s.position.length = n ∧ s.objective = .pending ∧ s.gradient = .pending := by
  unfold Sample.shifted Sample.create at h
  dsimp only at h
  split at h
  · split at h
    · rename_i hlength
      cases h
      exact ⟨hlength, rfl, rfl⟩
    · cases h
  · cases h

/-- A trial point is made behind the samples there are, or the step does not fit and nothing
changes. -/
theorem makeTrial_run (t : α) (w : Workspace α) :
    makeTrial t w =
      match Sample.shifted w.dimension w.currentSample 1 t (Tensor.ofVector w.direction) with
      | .ok s => .ok () (w.withSample s)
      | .error fault => .error fault w := by
  change (orFault (Sample.shifted w.dimension w.currentSample 1 t (Tensor.ofVector w.direction))
    >>= fun s => addSample s >>= fun id => modify fun w => { w with trial := id }) w = _
  cases Sample.shifted w.dimension w.currentSample 1 t (Tensor.ofVector w.direction) <;> rfl

/-- The same new point in both runs keeps their points the same. -/
theorem SamePoints.withSample (h : SamePoints o k w w') (hlength : s.position.length = w.dimension)
    (hs : s.objective = .pending ∧ s.gradient = .pending) :
    SamePoints o k (w.withSample s) (w'.withSample s) := by
  have hsize : (w.withSample s).samples.size = w.samples.size + 1 := Array.size_push _
  have hsize' : (w'.withSample s).samples.size = w'.samples.size + 1 := Array.size_push _
  have hold : ∀ id < w.samples.size, (w.withSample s).sampleAt id = w.sampleAt id :=
    fun id hid => sampleAt_push_of_lt hid
  have hold' : ∀ id < w.samples.size,
      (w'.withSample s).sampleAt (k.rename id) = w'.sampleAt (k.rename id) :=
    fun id hid => sampleAt_push_of_lt (h.rename_lt hid)
  have hnew : (w.withSample s).sampleAt w.samples.size = s := sampleAt_push_size w s
  have hnew' : (w'.withSample s).sampleAt (k.rename w.samples.size) = s := by
    rw [Pairing.rename_of_le h.old_le, ← h.size_eq]
    exact sampleAt_push_size w' s
  refine ⟨h.dimension_eq, ?_, ?_, fun id hid => ?_, ?_, fun id hid => ?_, h.current_eq, h.bundle_eq,
    ?_, fun id hid => ?_⟩
  · rw [hsize]
    exact Nat.le_succ_of_le h.old_le
  · rw [hsize, hsize', h.size_eq, Nat.add_right_comm]
  · rcases Nat.lt_succ_iff_lt_or_eq.mp (hsize ▸ hid) with hlt | rfl
    · rw [hold id hlt, hold' id hlt]
      exact h.paired id hlt
    · rw [hnew, hnew']
      exact .refl k.apart (hlength.trans h.dimension_eq.symm) ⟨.inl hs.1, .inl hs.2⟩
  · rw [hsize]
    exact Nat.lt_succ_of_lt h.current_lt
  · rw [hsize]
    exact Nat.lt_succ_of_lt (h.bundle_lt id hid)
  · have hsame := h.currentSample_eq
    unfold currentSample at hsame ⊢
    change (w'.withSample s).sampleAt w'.current = (w.withSample s).sampleAt w.current
    rw [hold _ h.current_lt]
    rw [h.current_eq] at hsame ⊢
    rw [hold' _ h.current_lt, hsame]
  · rw [hold id (h.bundle_lt id hid), hold' id (h.bundle_lt id hid)]
    exact h.bundleSample_eq id hid

/-- With the same direction both runs make the same trial point. -/
theorem Matches.withSample (h : Matches o k a w w') (hd : w'.direction = w.direction)
    (hlength : s.position.length = w.dimension)
    (hs : s.objective = .pending ∧ s.gradient = .pending) :
    Matches o k True (w.withSample s) (w'.withSample s) := by
  refine ⟨h.points.withSample hlength hs, { h.figures with }, fun _ => ⟨hd, ?_, ?_, ?_, ?_⟩⟩
  · exact (Array.size_push s).symm ▸ Nat.lt_succ_self _
  · change w'.samples.size = k.rename w.samples.size
    rw [Pairing.rename_of_le h.points.old_le, h.points.size_eq]
  · intro _ _ hahead
    have hnew : (w'.withSample s).trialSample = s := sampleAt_push_size w' s
    rw [hnew] at hahead
    exact absurd hs.2 hahead
  · -- A new sample has no other part to play.
    rintro _ (hcurrent | hmem)
    · exact absurd h.points.current_lt (Nat.not_lt.mpr (Nat.le_of_eq hcurrent))
    · exact absurd (h.points.bundle_lt _ hmem) (Nat.lt_irrefl _)

/-- Both runs put a sample that they know equally well into the bundle. -/
theorem Matches.bundled (h : Matches o k a w w') (hid : id < w.samples.size)
    (hsame : w'.sampleAt (k.rename id) = w.sampleAt id)
    (hknown : (w'.sampleAt (k.rename id)).gradient ≠ .pending) :
    Matches o k a (w.bundled id) (w'.bundled (k.rename id)) := by
  have hp := h.points
  have hmem : ∀ i ∈ (w.bundled id).bundle.toList, i ∈ w.bundle.toList ∨ i = id := by
    intro i hi
    have hpush : i ∈ w.bundle.toList ++ [id] := Array.toList_push ▸ hi
    simpa using hpush
  refine ⟨⟨hp.dimension_eq, hp.old_le, hp.size_eq, hp.paired, hp.current_lt, fun i hi => ?_,
    hp.current_eq, ?_, hp.currentSample_eq, fun i hi => ?_⟩, { h.figures with }, fun ha => ?_⟩
  · rcases hmem i hi with hold | rfl
    · exact hp.bundle_lt i hold
    · exact hid
  · unfold Workspace.bundled
    rw [Array.map_push, hp.bundle_eq]
  · rcases hmem i hi with hold | rfl
    · exact hp.bundleSample_eq i hold
    · exact hsame
  · have ht := h.trial ha
    refine { ht with settled := fun happart hplace => ?_ }
    rcases hplace with hcurrent | hplace
    · exact ht.settled happart (.inl hcurrent)
    · rcases hmem _ hplace with hold | hnew
      · exact ht.settled happart (.inr hold)
      · change w'.trialSample.gradient ≠ .pending
        rw [trialSample, ht.trial_eq]
        exact hnew ▸ hknown

end Changes

end Workspace

end NonsmoothDescent
