import NonsmoothDescent.Proofs.Scalar
import NonsmoothDescent.Proofs.Vec
import NonsmoothDescent.Proofs.Workspace.Pairing
import NonsmoothDescent.LineSearch

/-!
# What a line search finds

A line search makes trial points and evaluates them; all else stays as it is. Where a
stepsize leads does not depend on those tried before, so the search ends with the first one
that passes, or with none. What it finds is a new sample with a known value. In exact
arithmetic this value is below the one at the current point, since the decrease that is
demanded is never negative.
-/

namespace NonsmoothDescent

namespace Workspace

variable {α : Type} [Scalar α]

/-- The sample that a stepsize leads to, with its objective evaluated. -/
def tried (o : Oracle α) (w : Workspace α) (t : α) : Sample α :=
  ((w.currentSample.moved t w.direction).evaluateObjective o).1

/-- The workspace after a stepsize was tried: its sample is new, and the trial point. -/
def afterTrial (o : Oracle α) (w : Workspace α) (t : α) : Workspace α :=
  { w with
    samples := w.samples.push (w.tried o t)
    trial := w.samples.size
    objectiveEvaluations := w.objectiveEvaluations + 1
    notices := w.notices ++ ((w.currentSample.moved t w.direction).evaluateObjective o).2 }

/-- After a trial the trial point is the sample that was tried. -/
theorem trialSample_afterTrial (o : Oracle α) (w : Workspace α) (t : α) :
    (w.afterTrial o t).trialSample = w.tried o t :=
  sampleAt_push_size w _

/-- To try a stepsize is to make a trial point and to evaluate it. -/
theorem withObjective_withTrial (o : Oracle α) (w : Workspace α) (t : α) :
    (w.withTrial t).withObjective o (w.withTrial t).trial = w.afterTrial o t := by
  have hnew : (w.withTrial t).sampleAt (w.withTrial t).trial =
      w.currentSample.moved t w.direction := w.trialSample_withTrial t
  have hset : (w.withTrial t).samples.setIfInBounds (w.withTrial t).trial (w.tried o t) =
      w.samples.push (w.tried o t) := by
    grind [withTrial]
  rw [withObjective, hnew, ← tried, hset]
  rfl

/-- Evaluating the trial that was made succeeds, and leads to the workspace after it. -/
theorem evaluateObjective_withTrial (o : Oracle α) (w : Workspace α) (t : α) :
    evaluateObjective o (w.withTrial t).trial true (w.withTrial t) =
      .ok (w.tried o t).objective.isKnown (w.afterTrial o t) := by
  have hnew : (w.withTrial t).sampleAt (w.withTrial t).trial =
      w.currentSample.moved t w.direction := w.trialSample_withTrial t
  rw [evaluateObjective_run, withObjective_withTrial, hnew]
  rfl

/-- The workspace after several stepsizes were tried, in order. -/
def afterTrials (o : Oracle α) (w : Workspace α) (stepsizes : List α) : Workspace α :=
  stepsizes.foldl (afterTrial o) w

section AfterTrials

variable {o : Oracle α} {w : Workspace α}

/-- A trial leaves the samples there were. -/
theorem sampleAt_afterTrial_of_lt (t : α) {id : SampleId} (hid : id < w.samples.size) :
    (w.afterTrial o t).sampleAt id = w.sampleAt id :=
  sampleAt_push_of_lt hid

/-- Where a stepsize leads does not depend on those that were tried before. -/
theorem tried_afterTrial (hcurrent : w.current < w.samples.size) (t : α) :
    (w.afterTrial o t).tried o = w.tried o := by
  have hsame : (w.afterTrial o t).currentSample = w.currentSample :=
    sampleAt_afterTrial_of_lt t hcurrent
  funext t'
  rw [tried, hsame]
  rfl

/-- Nothing but the new samples, the trial point, the count of evaluations and the notices
shows that stepsizes were tried. -/
theorem afterTrials_eq (hcurrent : w.current < w.samples.size) (stepsizes : List α) :
    ∃ trial notices, w.afterTrials o stepsizes =
      { w with
        samples := w.samples ++ (stepsizes.map (w.tried o)).toArray
        trial := trial
        objectiveEvaluations := w.objectiveEvaluations + stepsizes.length
        notices := notices } := by
  induction stepsizes generalizing w with
  | nil => exact ⟨w.trial, w.notices, by simp [afterTrials]⟩
  | cons t stepsizes ih =>
    have hcurrent' : (w.afterTrial o t).current < (w.afterTrial o t).samples.size :=
      Nat.lt_of_lt_of_le hcurrent (by simp [afterTrial])
    obtain ⟨trial, notices, heq⟩ := ih hcurrent'
    refine ⟨trial, notices, heq.trans ?_⟩
    rw [tried_afterTrial hcurrent]
    simp [afterTrial, Nat.add_right_comm, Nat.add_assoc]

/-- Each trial makes one sample. -/
theorem size_samples_afterTrials (hcurrent : w.current < w.samples.size) (stepsizes : List α) :
    (w.afterTrials o stepsizes).samples.size = w.samples.size + stepsizes.length := by
  obtain ⟨_, _, heq⟩ := afterTrials_eq (o := o) hcurrent stepsizes
  simp [heq]

/-- Trials are numbered in the order in which they are made. -/
theorem sampleAt_afterTrials (hcurrent : w.current < w.samples.size) {stepsizes : List α} {k : Nat}
    {t : α} (ht : stepsizes[k]? = some t) :
    (w.afterTrials o stepsizes).sampleAt (w.samples.size + k) = w.tried o t := by
  obtain ⟨_, _, heq⟩ := afterTrials_eq (o := o) hcurrent stepsizes
  simp [heq, sampleAt_eq, Array.getElem?_append, ht]

/-- The trial point is the one for the stepsize that was tried last. -/
theorem trial_afterTrials_concat (hcurrent : w.current < w.samples.size) (stepsizes : List α)
    (t : α) : (w.afterTrials o (stepsizes ++ [t])).trial = w.samples.size + stepsizes.length := by
  rw [← size_samples_afterTrials hcurrent, afterTrials, List.foldl_append]
  rfl

end AfterTrials

end Workspace

namespace LineSearch

section Generic

variable {α : Type} [Scalar α] {o : Oracle α} {w w' w'' : Workspace α}

/-- Trial points have been made and evaluated. -/
structure Tries (o : Oracle α) (w w' : Workspace α) : Prop where
  grows : w.Grows w'
  wellFormed : w.WellFormed o → w'.WellFormed o
  direction_eq : w'.direction = w.direction
  radii_eq : w'.radii = w.radii
  bundle_eq : w'.bundle = w.bundle

namespace Tries

/-- A workspace is itself after no trials. -/
theorem refl (o : Oracle α) (w : Workspace α) : Tries o w w := ⟨.refl w, id, rfl, rfl, rfl⟩

/-- Trials follow one another. -/
theorem trans (h : Tries o w w') (h' : Tries o w' w'') : Tries o w w'' where
  grows := h.grows.trans h'.grows
  wellFormed hw := h'.wellFormed (h.wellFormed hw)
  direction_eq := h'.direction_eq.trans h.direction_eq
  radii_eq := h'.radii_eq.trans h.radii_eq
  bundle_eq := h'.bundle_eq.trans h.bundle_eq

/-- To evaluate samples is to try. -/
theorem of_evaluates (h : w.Evaluates o w') : Tries o w w' := by
  have hgrows := h.grows
  have hwellFormed := h.wellFormed
  obtain ⟨_, _, _, _, rfl⟩ := h.eq
  exact ⟨hgrows, hwellFormed, rfl, rfl, rfl⟩

/-- To make a trial point is to try. -/
theorem withTrial (t : α) (hd : w.direction.length = w.dimension) :
    Tries o w (w.withTrial t) :=
  ⟨w.withTrial_grows t, fun hw => Workspace.withTrial_wellFormed hw t hd, rfl, rfl, rfl⟩

/-- Trials leave the length of the direction. -/
theorem length_direction (h : Tries o w w') (hd : w.direction.length = w.dimension) :
    w'.direction.length = w'.dimension := by rw [h.direction_eq, h.grows.dimension_eq, hd]

end Tries

/-- The sample was made by the line search and passes for one of these stepsizes. -/
structure Found (current : Option α) (slope : α) (stepsizes : List α) (w w' : Workspace α)
    (id : SampleId) : Prop where
  size_le : w.samples.size ≤ id
  id_lt : id < w'.samples.size
  isLower : ∃ stepsize ∈ stepsizes,
    isLower (w'.sampleAt id).objective.value? current stepsize slope = true

variable {current : Option α} {slope : α}

/-- A value that is not known is not low enough. -/
theorem isKnown_and_isLower (e : Evaluation α) (current : Option α) (t slope : α) :
    (e.isKnown && LineSearch.isLower e.value? current t slope) =
      LineSearch.isLower e.value? current t slope := by
  cases e <;> rfl

/-- An attempt makes one trial point and evaluates it. -/
theorem attempt_run (hc : w.currentSample.position.length = w.dimension)
    (hd : w.direction.length = w.dimension) (t : α) : attempt o current slope t w =
      .ok (LineSearch.isLower (w.tried o t).objective.value? current t slope)
        (w.afterTrial o t) := by
  have hsample : (w.afterTrial o t).sampleAt (w.withTrial t).trial = w.tried o t :=
    w.trialSample_afterTrial o t
  unfold attempt
  rw [bind_of_ok (Workspace.makeTrial_eq t hc hd)]
  change (Workspace.evaluateObjective o (w.withTrial t).trial true >>= fun known =>
    if known = true then get >>= fun w' => pure (LineSearch.isLower
      (w'.sampleAt (w.withTrial t).trial).objective.value? current t slope)
    else pure false) (w.withTrial t) = _
  rw [bind_of_ok (w.evaluateObjective_withTrial o t), ← isKnown_and_isLower, ← hsample]
  cases ((w.afterTrial o t).sampleAt (w.withTrial t).trial).objective.isKnown <;> rfl

/-- One trial is a try. -/
theorem Tries.afterTrial (t : α) (hd : w.direction.length = w.dimension) :
    Tries o w (w.afterTrial o t) := by
  have hmade : Tries o w (w.withTrial t) := .withTrial t hd
  obtain ⟨hevaluates, -⟩ := (Workspace.evaluateObjective_leads (w.withTrial_trial_lt t) true).of_run
    (w.evaluateObjective_withTrial o t)
  exact hmade.trans (.of_evaluates hevaluates)

/-- Several trials are tries. -/
theorem Tries.afterTrials (stepsizes : List α) (hd : w.direction.length = w.dimension) :
    Tries o w (w.afterTrials o stepsizes) := by
  induction stepsizes generalizing w with
  | nil => exact .refl o w
  | cons t stepsizes ih =>
    have hfirst : Tries o w (w.afterTrial o t) := .afterTrial t hd
    exact hfirst.trans (ih (hfirst.length_direction hd))

/-- The stepsize leads to a point that is low enough. -/
def Passes (o : Oracle α) (w : Workspace α) (current : Option α) (slope t : α) : Prop :=
  LineSearch.isLower (w.tried o t).objective.value? current t slope = true

instance (o : Oracle α) (w : Workspace α) (current : Option α) (slope t : α) :
    Decidable (Passes o w current slope t) :=
  inferInstanceAs (Decidable (_ = true))

/-- A stepsize that does not pass is given up for the next one. -/
theorem firstAcceptable_cons (hw : w.WellFormed o) (hd : w.direction.length = w.dimension)
    (t : α) (stepsizes : List α) : firstAcceptable o current slope (t :: stepsizes) w =
      if Passes o w current slope t then .ok (some w.samples.size) (w.afterTrial o t)
      else firstAcceptable o current slope stepsizes (w.afterTrial o t) := by
  rw [firstAcceptable, bind_of_ok (attempt_run (hw.length_position _ hw.current_lt) hd t)]
  by_cases hpasses : Passes o w current slope t
  · rw [if_pos hpasses, show LineSearch.isLower _ _ _ _ = true from hpasses]
    rfl
  · rw [if_neg hpasses, show LineSearch.isLower _ _ _ _ = false from eq_false_of_ne_true hpasses]
    rfl

/-- The attempts end with the first one that succeeds, or when all have failed. -/
theorem firstAcceptable_run (stepsizes : List α) (hw : w.WellFormed o)
    (hd : w.direction.length = w.dimension) :
    (∃ before t after, stepsizes = before ++ t :: after ∧
      (∀ s ∈ before, ¬Passes o w current slope s) ∧ Passes o w current slope t ∧
      firstAcceptable o current slope stepsizes w =
        .ok (some (w.samples.size + before.length)) (w.afterTrials o (before ++ [t]))) ∨
    ((∀ s ∈ stepsizes, ¬Passes o w current slope s) ∧
      firstAcceptable o current slope stepsizes w = .ok none (w.afterTrials o stepsizes)) := by
  induction stepsizes generalizing w with
  | nil => exact .inr ⟨nofun, rfl⟩
  | cons t stepsizes ih =>
    have hfirst : Tries o w (w.afterTrial o t) := .afterTrial t hd
    -- What passes is told of the workspace at the start, which a try leaves as it is.
    have hsame : ∀ s, Passes o (w.afterTrial o t) current slope s ↔ Passes o w current slope s :=
      fun s => by rw [Passes, Workspace.tried_afterTrial hw.current_lt, Passes]
    have hsize : (w.afterTrial o t).samples.size = w.samples.size + 1 := Array.size_push _
    have hrest := ih (hfirst.wellFormed hw) (hfirst.length_direction hd)
    simp only [hsame, hsize] at hrest
    rw [firstAcceptable_cons hw hd]
    by_cases hpasses : Passes o w current slope t
    · rw [if_pos hpasses]
      exact .inl ⟨[], t, stepsizes, rfl, nofun, hpasses, rfl⟩
    · rw [if_neg hpasses]
      rcases hrest with ⟨before, s, after, rfl, hbefore, hs, hrun⟩ | ⟨hall, hrun⟩
      · rw [Nat.add_right_comm, Nat.add_assoc] at hrun
        exact .inl ⟨t :: before, s, after, rfl, List.forall_mem_cons.mpr ⟨hpasses, hbefore⟩, hs,
          hrun⟩
      · exact .inr ⟨List.forall_mem_cons.mpr ⟨hpasses, hall⟩, hrun⟩

/-- What the attempts lead to, and what they have found if one succeeds. -/
theorem firstAcceptable_leads {stepsizes : List α} (hw : w.WellFormed o)
    (hd : w.direction.length = w.dimension) :
    Leads (firstAcceptable o current slope stepsizes) w fun found w' =>
      Tries o w w' ∧ ∀ id ∈ found, Found current slope stepsizes w w' id := by
  rcases firstAcceptable_run stepsizes hw hd with
    ⟨before, t, after, rfl, -, hpasses, hrun⟩ | ⟨-, hrun⟩
  · refine ⟨_, _, hrun, .afterTrials _ hd, fun id hid => ?_⟩
    cases hid
    have hsample : (w.afterTrials o (before ++ [t])).sampleAt (w.samples.size + before.length) =
        w.tried o t := Workspace.sampleAt_afterTrials hw.current_lt (by simp)
    have hlt : w.samples.size + before.length < (w.afterTrials o (before ++ [t])).samples.size := by
      rw [Workspace.size_samples_afterTrials hw.current_lt]
      simp
    exact ⟨Nat.le_add_right _ _, hlt, t, by simp, by rwa [hsample]⟩
  · exact ⟨_, _, hrun, .afterTrials _ hd, nofun⟩

/-- Backtracking succeeds: it tries, and what it finds is as it should be. -/
theorem backtrack_leads (hw : w.WellFormed o) (hd : w.direction.length = w.dimension) :
    Leads (backtrack o) w fun found w' => Tries o w w' ∧ ∀ id ∈ found,
      Found w.currentSample.objective.value? (Vec.normSq w.direction) stepsizes w w' id :=
  firstAcceptable_leads hw hd

end Generic

section Exact

variable {K : Type} [Field K] [LinearOrder K] [FloorRing K]

/-- A value is low enough if it lies below the current one by the share of what the slope
predicts. -/
theorem isLower_iff {trial current stepsize slope : K} :
    isLower (some trial) (some current) stepsize slope = true ↔
      trial < current - share * stepsize * slope := decide_eq_true_iff

variable [IsStrictOrderedRing K]

/-- Every stepsize is at least as long as the smallest one that is allowed. -/
theorem pos_of_mem_stepsizesFrom {fuel : Nat} {a stepsize : K}
    (h : stepsize ∈ stepsizesFrom fuel a) : 0 < stepsize := by
  induction fuel generalizing a with
  | zero => cases h
  | succ fuel ih =>
    unfold stepsizesFrom at h
    by_cases ha : leastStepsize ≤ a
    · rw [if_pos ha] at h
      rcases List.mem_cons.mp h with rfl | hrest
      · have hleast : (0 : K) < leastStepsize := by norm_num [leastStepsize]
        exact hleast.trans_le ha
      · exact ih hrest
    · rw [if_neg ha] at h
      cases h

/-- What a line search finds lies below the current point. -/
theorem Found.lt {w w' : Workspace K} {id : SampleId} {value : K} {d : List K}
    (h : Found (some value) (Vec.normSq d) stepsizes w w' id) :
    ∃ lower, (w'.sampleAt id).objective.value? = some lower ∧ lower < value := by
  obtain ⟨_, _, stepsize, hmem, hlower⟩ := h
  cases hvalue : (w'.sampleAt id).objective.value? with
  | none =>
    rw [hvalue] at hlower
    cases hlower
  | some lower =>
    rw [hvalue] at hlower
    have hshare : (0 : K) < share := by norm_num [share]
    have hdemand : 0 ≤ share * stepsize * Vec.normSq d :=
      mul_nonneg (mul_pos hshare (pos_of_mem_stepsizesFrom hmem)).le (Vec.normSq_nonneg d)
    have hlt := isLower_iff.mp hlower
    exact ⟨lower, rfl, by linarith⟩

end Exact

end LineSearch

end NonsmoothDescent
