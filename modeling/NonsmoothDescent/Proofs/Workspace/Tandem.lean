import NonsmoothDescent.Proofs.Workspace.Pairing
import NonsmoothDescent.Search.Step

/-!
# Operations on two workspaces

From workspaces that match, each operation gives the same answer in both runs and leaves
workspaces that match. Evaluating a trial point does so even where one run evaluates the
gradient too and the other one does not, as long as the gradient can be evaluated wherever
the objective can: then the additional evaluation never makes a point fail.
-/

namespace NonsmoothDescent

variable {α : Type} [Scalar α]

/-- Wherever the objective can be evaluated, so can the gradient. -/
def Oracle.Differentiable (o : Oracle α) : Prop :=
  ∀ x, x.length = o.dimension → (o.evaluateObjective x).1.isSome = true →
    (o.evaluateGradient x).1.isSome = true

omit [Scalar α] in
/-- What has been evaluated is known if it has a value. -/
theorem Evaluation.isKnown_ofOption (value : Option α) :
    (Evaluation.ofOption value).isKnown = value.isSome := by
  cases value <;> rfl

namespace Workspace

variable {o : Oracle α} {k : Pairing} {a : Prop} {w w' : Workspace α} {id : SampleId}

namespace Matches

/-- The objective at a sample. -/
theorem evaluateObjective (h : Matches o k a w w') (hid : id < w.samples.size) :
    Tandem (Workspace.evaluateObjective o id true) w
      (Workspace.evaluateObjective o (k.rename id) true) w'
      (fun b v c v' => c = b ∧ v = w.withObjective o id ∧
        v' = w'.withObjective o (k.rename id) ∧ Matches o k a v v') (Matches o k a) := by
  refine .of_ok (evaluateObjective_run o id w) (evaluateObjective_run o (k.rename id) w')
    ⟨?_, rfl, rfl, h.withObjective hid⟩
  rw [(h.points.paired id hid).evaluateObjective.objective_eq]

/-- The gradient at a sample that both runs know equally well, or at the trial point; after
that both know it equally well. -/
theorem evaluateGradient (h : Matches o k a w w') (hid : id < w.samples.size)
    (hat : w'.sampleAt (k.rename id) = w.sampleAt id ∨ a ∧ id = w.trial) :
    Tandem (Workspace.evaluateGradient o id true) w
      (Workspace.evaluateGradient o (k.rename id) true) w'
      (fun b v c v' => c = b ∧ Matches o k a v v' ∧ v.trial = w.trial ∧ id < v.samples.size ∧
        v'.sampleAt (k.rename id) = v.sampleAt id ∧
        (v'.sampleAt (k.rename id)).gradient ≠ .pending) (Matches o k a) := by
  have hpaired := h.points.paired id hid
  have hr := replaces_withGradient (o := o) hid
  have hr' := replaces_withGradient (o := o) (h.points.rename_lt hid)
  refine .of_ok (evaluateGradient_run o id w) (evaluateGradient_run o (k.rename id) w')
    ⟨?_, h.withGradient hid hat, rfl, hr.size_eq ▸ hid, ?_, ?_⟩
  · rw [hpaired.evaluateGradient_eq]
  · rw [hr.sampleAt_eq, hr'.sampleAt_eq, if_pos rfl, if_pos rfl]
    exact hpaired.evaluateGradient_eq
  · rw [hr'.sampleAt_eq, if_pos rfl]
    exact ne_pending_evaluateGradient hpaired.faithful'

/-- The objective and, if it is known, the gradient. -/
theorem evaluateBoth (h : Matches o k a w w') (hid : id < w.samples.size)
    (hat : w'.sampleAt (k.rename id) = w.sampleAt id ∨ a ∧ id = w.trial) :
    Tandem (Workspace.evaluateBoth o id true) w (Workspace.evaluateBoth o (k.rename id) true) w'
      (fun b v c v' => c = b ∧ Matches o k a v v') (Matches o k a) := by
  have hr := replaces_withObjective (o := o) hid
  have hr' := replaces_withObjective (o := o) (h.points.rename_lt hid)
  refine (h.evaluateObjective hid).bind ?_
  rintro b _ _ _ ⟨rfl, rfl, rfl, hm⟩
  refine .ite .rfl (fun _ => ?_) fun _ => .of_pure ⟨rfl, hm⟩
  refine (hm.evaluateGradient (hr.size_eq ▸ hid) (hat.imp_left fun hsame => ?_)).mono
    fun _ _ _ _ hpost => ⟨hpost.1, hpost.2.1⟩
  rw [hr.sampleAt_eq, hr'.sampleAt_eq, if_pos rfl, if_pos rfl, hsame]

/-- Where only the second run evaluates the gradient along with the objective, the answer
is still the same. -/
theorem evaluateTrial_apart (h : Matches o k a w w') (ha : a) (happart : k.apart = true)
    (hdifferentiable : o.Differentiable) :
    Tandem (Workspace.evaluateObjective o w.trial true) w
      (Workspace.evaluateBoth o w'.trial true) w'
      (fun b v c v' => c = b ∧ Matches o k a v v') (Matches o k a) := by
  have ht := h.trial ha
  have hlt := ht.trial_lt
  have hpaired := h.points.paired _ hlt
  have hevaluated := hpaired.evaluateObjective
  have hm := h.withObjective (o := o) hlt
  have hahead : Matches o k a (w.withObjective o w.trial)
      ((w'.withObjective o (k.rename w.trial)).withGradient o (k.rename w.trial)) :=
    ht.trial_eq ▸ hm.ahead ha happart
  have hobjective := evaluateObjective_run o (k.rename w.trial) w'
  have hgradient := evaluateGradient_run o (k.rename w.trial)
    (w'.withObjective o (k.rename w.trial))
  rw [hevaluated.objective_eq] at hobjective
  rw [(replaces_withObjective (h.points.rename_lt hlt)).sampleAt_eq, if_pos rfl] at hgradient
  rw [ht.trial_eq]
  cases hknown : ((w.sampleAt w.trial).evaluateObjective o).1.objective.isKnown with
  | false =>
    refine .of_ok (evaluateObjective_run o w.trial w) ?_ ⟨hknown.symm, hm⟩
    unfold Workspace.evaluateBoth
    rw [bind_of_ok hobjective, hknown]
    rfl
  | true =>
    rw [hpaired.faithful.evaluateObjective_eq] at hknown
    have hslope := hdifferentiable _ hpaired.length_eq
      ((Evaluation.isKnown_ofOption _).symm.trans hknown)
    have hsure : (((w'.sampleAt (k.rename w.trial)).evaluateObjective o).1.evaluateGradient
        o).1.gradient.isKnown = true := by
      rw [hevaluated.faithful'.evaluateGradient_eq, hpaired.faithful'.evaluateObjective_eq,
        hpaired.position_eq]
      exact (Evaluation.isKnown_ofOption _).trans hslope
    rw [← hpaired.faithful.evaluateObjective_eq] at hknown
    refine .of_ok (evaluateObjective_run o w.trial w) ?_ ⟨hknown.symm, hahead⟩
    unfold Workspace.evaluateBoth
    rw [bind_of_ok hobjective, hknown, if_pos rfl, hgradient, hsure]

/-- The trial point, as each workspace asks for. -/
theorem evaluateTrial (h : Matches o k a w w') (ha : a)
    (hdifferentiable : k.apart = true → o.Differentiable) :
    Tandem (Workspace.evaluateTrial o) w (Workspace.evaluateTrial o) w'
      (fun b v c v' => c = b ∧ Matches o k a v v') (Matches o k a) := by
  have ht := h.trial ha
  have hsplit : ∀ w : Workspace α, Workspace.evaluateTrial o w =
      (if w.jointEvaluation then Workspace.evaluateBoth o w.trial true
        else Workspace.evaluateObjective o w.trial true) w := fun _ => rfl
  unfold Tandem
  rw [hsplit, hsplit]
  cases happart : k.apart with
  | false =>
    rw [h.figures.jointEvaluation_eq happart, ht.trial_eq]
    refine Tandem.ite .rfl (fun _ => h.evaluateBoth ht.trial_lt (.inr ⟨ha, rfl⟩)) fun _ => ?_
    exact (h.evaluateObjective ht.trial_lt).mono fun _ _ _ _ hpost => ⟨hpost.1, hpost.2.2.2⟩
  | true =>
    obtain ⟨hjoint, hjoint'⟩ := h.figures.jointEvaluation_apart happart
    rw [hjoint, hjoint']
    exact h.evaluateTrial_apart ha happart (hdifferentiable happart)

/-- Along the same direction both runs make the same trial point. -/
theorem makeTrial (h : Matches o k a w w') (hd : w'.direction = w.direction) (t : α) :
    Tandem (Workspace.makeTrial t) w (Workspace.makeTrial t) w'
      (fun _ v _ v' => Matches o k True v v') (Matches o k a) := by
  unfold Tandem
  rw [makeTrial_run, makeTrial_run, h.figures.dimension_eq, h.points.currentSample_eq, hd]
  cases hs : Sample.shifted w.dimension w.currentSample 1 t (Tensor.ofVector w.direction) with
  | error fault => exact .error h
  | ok s =>
    obtain ⟨hlength, hnew⟩ := new_of_shifted hs
    exact .ok (h.withSample hd hlength hnew)

/-- Both runs take the same direction. -/
theorem setDirection (h : Matches o k a w w') (d : Tensor α) :
    Tandem (Workspace.setDirection d) w (Workspace.setDirection d) w'
      (fun _ v _ v' => Matches o k a v v' ∧ v'.direction = v.direction) (Matches o k a) := by
  have hget : ∀ w : Workspace α, (get : WorkspaceM α (Workspace α)) w = .ok w w := fun _ => rfl
  unfold Workspace.setDirection
  refine .read (hget w) (hget w') ?_
  rw [h.figures.dimension_eq]
  cases d.fill? w.dimension with
  | none => exact .of_throw h
  | some direction =>
    exact .of_ok rfl rfl ⟨⟨{ h.points with }, { h.figures with },
      fun ha => { h.trial ha with direction_eq := rfl }⟩, rfl⟩

/-- A solve's step counts as much in both runs, and gives both the same direction and the
same trial point, whatever they had before. -/
theorem takeStep (h : Matches o k a w w') (solver : Solver α) :
    Tandem (Search.takeStep solver) w (Search.takeStep solver) w'
      (fun _ v _ v' => Matches o k True v v') (Matches o k a) := by
  let counted : Workspace α → Workspace α := fun w =>
    { w with
      minimizerIterations := w.minimizerIterations + solver.iterations
      innerIterations := w.innerIterations + 1 }
  have hcounted : Matches o k a (counted w) (counted w') := by
    refine ⟨{ h.points with }, { h.figures with
      innerIterations_eq := ?_, minimizerIterations_eq := ?_ }, fun ha => { h.trial ha with }⟩
    · change w'.innerIterations + 1 = w.innerIterations + 1 + k.lead
      rw [h.figures.innerIterations_eq]
      omega
    · change w'.minimizerIterations + solver.iterations = w.minimizerIterations + solver.iterations
      rw [h.figures.minimizerIterations_eq]
  have hrun : Tandem (Workspace.setDirection (Tensor.ofVector solver.step) >>= fun _ =>
        Workspace.makeTrial 1) (counted w)
      (Workspace.setDirection (Tensor.ofVector solver.step) >>= fun _ => Workspace.makeTrial 1)
      (counted w') (fun _ v _ v' => Matches o k True v v') (Matches o k a) :=
    (hcounted.setDirection _).bind fun _ _ _ _ ⟨hm, hd⟩ => hm.makeTrial hd 1
  exact hrun

/-- Both runs put a sample that they know equally well into the bundle, at the same place. -/
theorem addToBundle (h : Matches o k a w w') (hid : id < w.samples.size)
    (hsame : w'.sampleAt (k.rename id) = w.sampleAt id)
    (hknown : (w'.sampleAt (k.rename id)).gradient ≠ .pending) :
    Tandem (Workspace.addToBundle id) w (Workspace.addToBundle (k.rename id)) w'
      (fun place v place' v' => place' = place ∧ v = w.bundled id ∧
        v' = w'.bundled (k.rename id) ∧ Matches o k a v v') (Matches o k a) :=
  .of_ok rfl rfl ⟨h.points.bundle_size_eq, rfl, rfl, h.bundled hid hsame hknown⟩

/-- Both runs read the same time. -/
theorem elapsed (h : Matches o k a w w') (clock : Nat → α) :
    Tandem (Workspace.elapsed clock) w (Workspace.elapsed clock) w'
      (fun time v time' v' => time' = time ∧ Matches o k a v v') (Matches o k a) := by
  refine .of_ok rfl rfl ⟨?_, { h.points with }, { h.figures with clockReadings_eq := ?_ },
    fun ha => { h.trial ha with }⟩
  · change clock w'.clockReadings - w'.startTime = clock w.clockReadings - w.startTime
    rw [h.figures.clockReadings_eq, h.figures.startTime_eq]
  · exact congrArg (· + 1) h.figures.clockReadings_eq

/-- What a run notices is not compared. -/
theorem noticing (h : Matches o k a w w') (notices notices' : Array (Notice α)) :
    Matches o k a { w with notices := notices } { w' with notices := notices' } :=
  ⟨{ h.points with }, { h.figures with }, fun ha => { h.trial ha with }⟩

/-- Both runs take the same radii. -/
theorem resized (h : Matches o k a w w') (radii : Radii α) :
    Matches o k a { w with radii := radii } { w' with radii := radii } :=
  ⟨{ h.points with }, { h.figures with radii_eq := rfl }, fun ha => { h.trial ha with }⟩

/-- Both runs add up what a search has cost. -/
theorem accounted (h : Matches o k a w w') (clock : Nat → α) (start : α)
    (notices notices' : Array (Notice α)) :
    Matches o k a
      { w with
        totalInnerIterations := w.totalInnerIterations + w.innerIterations
        totalMinimizerIterations := w.totalMinimizerIterations + w.minimizerIterations
        clockReadings := w.clockReadings + 1
        searchTime := w.searchTime + (clock w.clockReadings - start)
        notices := notices }
      { w' with
        totalInnerIterations := w'.totalInnerIterations + w'.innerIterations
        totalMinimizerIterations := w'.totalMinimizerIterations + w'.minimizerIterations
        clockReadings := w'.clockReadings + 1
        searchTime := w'.searchTime + (clock w'.clockReadings - start)
        notices := notices' } := by
  have hf := h.figures
  refine ⟨{ h.points with }, { hf with
    totalInnerIterations_eq := fun hlead => ?_
    totalMinimizerIterations_eq := ?_
    clockReadings_eq := congrArg (· + 1) hf.clockReadings_eq
    searchTime_eq := ?_ }, fun ha => { h.trial ha with }⟩
  · dsimp only
    rw [hf.totalInnerIterations_eq hlead, hf.innerIterations_eq, hlead]
    omega
  · dsimp only
    rw [hf.totalMinimizerIterations_eq, hf.minimizerIterations_eq]
  · dsimp only
    rw [hf.searchTime_eq, hf.clockReadings_eq]

/-- Workspaces that match with trial points match without. -/
theorem imp {b : Prop} (h : Matches o k a w w') (hb : b → a) : Matches o k b w w' :=
  ⟨h.points, h.figures, fun hb' => h.trial (hb hb')⟩

/-- The trial point is the same point in both runs, at the same height. -/
theorem trialSample (h : Matches o k a w w') (ha : a) :
    w'.trialSample.position = w.trialSample.position ∧
      w'.trialSample.objective = w.trialSample.objective := by
  have ht := h.trial ha
  have hpaired := h.points.paired w.trial ht.trial_lt
  rw [Workspace.trialSample, Workspace.trialSample, ht.trial_eq]
  exact ⟨hpaired.position_eq, hpaired.objective_eq⟩

end Matches

section Plain

variable {apart : Bool}

/-- If no run has more samples than the other, all samples have the same numbers. -/
theorem rename_plain (apart : Bool) (id : SampleId) :
    ({ apart := apart } : Pairing).rename id = id := Pairing.rename_of_le (Nat.zero_le id)

/-- Workspaces that differ in their notices and in whether trial points are evaluated
jointly match. -/
theorem WellFormed.matches (hw : w.WellFormed o) (notices : Array (Notice α)) {joint : Bool}
    (hsame : apart = false → joint = w.jointEvaluation)
    (hother : apart = true → w.jointEvaluation = false ∧ joint = true) :
    Matches o { apart := apart } False w
      { w with notices := notices, jointEvaluation := joint } := by
  have hrename := rename_plain apart
  refine ⟨⟨hw.dimension_eq, Nat.zero_le _, rfl, fun id hid => ?_, hw.current_lt, hw.bundle_lt,
    (hrename _).symm, ?_, rfl, fun id _ => ?_⟩, ?_, False.elim⟩
  · rw [hrename]
    exact .refl apart ((hw.length_position id hid).trans hw.dimension_eq.symm) (hw.faithful id hid)
  · rw [funext hrename, Array.map_id_fun']
    rfl
  · rw [hrename]
    rfl
  · exact ⟨rfl, rfl, (Int.add_zero _).symm, rfl, fun _ => rfl, rfl, rfl, fun _ => rfl,
      fun _ => Nat.le_refl _, hsame, hother, rfl, rfl, rfl, rfl⟩

/-- Matching workspaces with the same direction and trial point differ only in samples, in
evaluations of gradients and in notices. -/
theorem Matches.eq_but_gradients (h : Matches o { apart := apart } a w w')
    (hdirection : w'.direction = w.direction) (htrial : w'.trial = w.trial) :
    w' = { w with
      samples := w'.samples
      jointEvaluation := w'.jointEvaluation
      gradientEvaluations := w'.gradientEvaluations
      notices := w'.notices } := by
  have hf := h.figures
  have hcurrent : w'.current = w.current := h.points.current_eq.trans (rename_plain apart _)
  have hbundle : w'.bundle = w.bundle := by
    rw [h.points.bundle_eq, funext (rename_plain apart), Array.map_id_fun']
    rfl
  have hinner := hf.innerIterations_eq.trans (Int.add_zero _)
  have hdimension := hf.dimension_eq
  have htotal := hf.totalInnerIterations_eq rfl
  cases w
  cases w'
  simp only [mk.injEq, true_and, and_true]
  exact ⟨hdimension, hbundle, hcurrent, htrial, hdirection, hf.radii_eq, hinner,
    hf.minimizerIterations_eq, htotal, hf.totalMinimizerIterations_eq, hf.objectives_eq,
    hf.clockReadings_eq, hf.startTime_eq, hf.timeLimit_eq, hf.searchTime_eq⟩

/-- If moreover both runs evaluate trial points alike, they differ in notices only. -/
theorem Matches.eq_but_notices (h : Matches o {} a w w') (hdirection : w'.direction = w.direction)
    (htrial : w'.trial = w.trial) : w' = { w with notices := w'.notices } := by
  have hsamples : w'.samples = w.samples := by
    refine Array.ext h.points.size_eq fun id hid' hid => ?_
    have hsample := (h.points.paired id hid).eq rfl
    rw [rename_plain, sampleAt_eq, sampleAt_eq] at hsample
    simpa [hid, hid'] using hsample
  have heq := h.eq_but_gradients hdirection htrial
  rw [hsamples, h.figures.jointEvaluation_eq rfl, h.figures.gradients_eq rfl] at heq
  exact heq

end Plain

end Workspace

end NonsmoothDescent
