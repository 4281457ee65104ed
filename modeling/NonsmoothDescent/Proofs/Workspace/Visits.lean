import NonsmoothDescent.Proofs.Workspace.Memory

/-!
# Joint evaluations, one after the other

A joint evaluation settles a sample: its objective, and if that is known its gradient. What
an evaluation gives is the cached outcome where there is one and the oracle's answer where
there is none. To settle a sample again changes nothing, so a list of visits with repetitions
settles the samples it names and leaves the others, and it depends on the oracle only at
those that were not settled before.
-/

namespace NonsmoothDescent

/-- An evaluation once it has been made: the cached outcome, or the result if it is made
now. -/
def Evaluation.made {β : Type} (e : Evaluation β) (result : Option β) : Evaluation β :=
  match e with
  | .pending => .ofOption result
  | .failed => .failed
  | .known value => .known value

namespace Sample

variable {α : Type} [Scalar α] {o o' : Oracle α} {s : Sample α}

/-- The objective, evaluated if need be. -/
def valueBy (o : Oracle α) (s : Sample α) : Option α :=
  (s.objective.made (o.evaluateObjective s.position).1).value?

/-- The gradient, evaluated if need be. -/
def slopeBy (o : Oracle α) (s : Sample α) : Option (List α) :=
  (s.gradient.made (o.evaluateGradient s.position).1).value?

/-- Evaluating the objective sets this one evaluation of a sample. -/
theorem evaluateObjective_fst (o : Oracle α) (s : Sample α) : (s.evaluateObjective o).1 =
    { s with objective := s.objective.made (o.evaluateObjective s.position).1 } := by
  obtain ⟨position, objective, gradient⟩ := s
  cases objective <;> rfl

/-- Evaluating the gradient sets this one evaluation of a sample. -/
theorem evaluateGradient_fst (o : Oracle α) (s : Sample α) : (s.evaluateGradient o).1 =
    { s with gradient := s.gradient.made (o.evaluateGradient s.position).1 } := by
  obtain ⟨position, objective, gradient⟩ := s
  cases gradient <;> rfl

/-- After its objective was evaluated a sample has the value that it was to have. -/
theorem value?_evaluateObjective (o : Oracle α) (s : Sample α) :
    (s.evaluateObjective o).1.objective.value? = s.valueBy o := by
  rw [evaluateObjective_fst, valueBy]

/-- The sample after a joint evaluation. -/
def settled (o : Oracle α) (s : Sample α) : Sample α :=
  let t := (s.evaluateObjective o).1
  if t.objective.isKnown then (t.evaluateGradient o).1 else t

/-- An evaluation is known if it has a value. -/
theorem isKnown_eq_isSome {β : Type} (e : Evaluation β) : e.isKnown = e.value?.isSome := by
  cases e <;> rfl

/-- After an evaluation the objective is known exactly if it was to have a value. -/
theorem isKnown_evaluateObjective (o : Oracle α) (s : Sample α) :
    (s.evaluateObjective o).1.objective.isKnown = (s.valueBy o).isSome := by
  rw [isKnown_eq_isSome, value?_evaluateObjective]

/-- Settling a sample evaluates the objective, and the gradient where there is a value. -/
theorem settled_eq (o : Oracle α) (s : Sample α) : s.settled o =
    if (s.valueBy o).isSome then ((s.evaluateObjective o).1.evaluateGradient o).1
    else (s.evaluateObjective o).1 := by
  rw [settled, isKnown_evaluateObjective]

/-- Settling a sample only adds to what is known of it. -/
theorem refines_settled (o : Oracle α) (s : Sample α) : s.Refines (s.settled o) := by
  rw [settled_eq]
  split
  · exact (evaluateObjective_refines o s).trans (evaluateGradient_refines o _)
  · exact evaluateObjective_refines o s

/-- A sample is settled where it is. -/
theorem position_settled (o : Oracle α) (s : Sample α) : (s.settled o).position = s.position :=
  (refines_settled o s).position_eq

/-- Nothing that a joint evaluation would ask for is left to ask. -/
structure IsSettled (s : Sample α) : Prop where
  value : s.isValued = true
  slope : s.objective.isKnown = true → s.isSloped = true

/-- What was settled is settled. -/
theorem isSettled_settled (o : Oracle α) (s : Sample α) : (s.settled o).IsSettled := by
  rw [settled_eq]
  split
  · exact ⟨by simp, fun _ => isSloped_evaluateGradient o _⟩
  · rename_i hunknown
    refine ⟨isValued_evaluateObjective o s, fun hknown => ?_⟩
    rw [isKnown_evaluateObjective] at hknown
    exact absurd hknown hunknown

/-- A settled sample stays as it is. -/
theorem IsSettled.settled_eq (h : s.IsSettled) (o : Oracle α) : s.settled o = s := by
  rw [settled, evaluateObjective_of_isValued o h.value]
  dsimp only
  split
  · rw [evaluateGradient_of_isSloped o (h.slope ‹_›)]
  · rfl

/-- A settled sample has the value that it was to have. -/
theorem value?_settled (o : Oracle α) (s : Sample α) :
    (s.settled o).objective.value? = s.valueBy o := by
  rw [settled_eq]
  split
  · rw [evaluateGradient_fst, value?_evaluateObjective]
  · rw [value?_evaluateObjective]

/-- With a value, a settled sample has the gradient that it was to have. -/
theorem gradient_settled (h : (s.valueBy o).isSome) :
    (s.settled o).gradient.value? = s.slopeBy o := by
  rw [settled_eq, if_pos h, evaluateGradient_fst, evaluateObjective_fst, slopeBy]

/-- The gradient of a settled sample was evaluated if there is a value, or if it had been
before. -/
theorem isSloped_settled (o : Oracle α) (s : Sample α) :
    (s.settled o).isSloped = ((s.valueBy o).isSome || s.isSloped) := by
  rw [settled_eq]
  split
  · rename_i h
    rw [h, isSloped_evaluateGradient, Bool.true_or]
  · rename_i h
    rw [isSloped_evaluateObjective, eq_false_of_ne_true h, Bool.false_or]

/-- Of a sample that is settled no oracle has anything to add. -/
theorem IsSettled.valueBy_eq (h : s.IsSettled) (o : Oracle α) :
    s.valueBy o = s.objective.value? := by
  rw [← value?_settled, h.settled_eq]

/-- With a value, the gradient that a settled sample was to have is its own. -/
theorem IsSettled.slopeBy_eq (h : s.IsSettled) (o : Oracle α) (hvalue : (s.valueBy o).isSome) :
    s.slopeBy o = s.gradient.value? := by
  rw [← gradient_settled hvalue, h.settled_eq]

/-- Two oracles give the same answers to what a joint evaluation still has to ask. -/
structure AgreeAt (o o' : Oracle α) (s : Sample α) : Prop where
  value : s.objective.isPending = true → o'.value s.position = o.value s.position
  slope : s.gradient.isPending = true → (s.valueBy o).isSome →
    o'.rawGradient s.position = o.rawGradient s.position

/-- At a settled sample any two oracles agree, as neither is asked. -/
theorem IsSettled.agreeAt (h : s.IsSettled) (o o' : Oracle α) : s.AgreeAt o o' where
  value hpending := by
    have hvalued := h.value
    rw [isValued, hpending] at hvalued
    cases hvalued
  slope hpending hvalue := by
    have hsloped := h.slope
    rw [isKnown_eq_isSome, ← h.valueBy_eq o, isSloped, hpending] at hsloped
    cases hsloped hvalue

/-- Oracles that agree at a sample give it the same objective and the same notices. -/
theorem AgreeAt.evaluateObjective_eq (h : s.AgreeAt o o') :
    s.evaluateObjective o' = s.evaluateObjective o := by
  unfold evaluateObjective
  split
  · rw [Oracle.evaluateObjective, Oracle.evaluateObjective, h.value ‹_›]
  · rfl

/-- Oracles that agree at a sample give it the same value. -/
theorem AgreeAt.valueBy_eq (h : s.AgreeAt o o') : s.valueBy o' = s.valueBy o := by
  rw [← value?_evaluateObjective, h.evaluateObjective_eq, value?_evaluateObjective]

/-- Oracles that agree at a sample give it the same gradient where there is a value. -/
theorem AgreeAt.evaluateGradient_eq (h : s.AgreeAt o o') (hd : o'.dimension = o.dimension)
    (hvalue : (s.valueBy o).isSome) :
    (s.evaluateObjective o).1.evaluateGradient o' =
      (s.evaluateObjective o).1.evaluateGradient o := by
  rw [evaluateObjective_fst]
  unfold evaluateGradient
  dsimp only
  split
  · rw [Oracle.evaluateGradient, Oracle.evaluateGradient, h.slope ‹_› hvalue, hd]
  · rfl

/-- Oracles that agree at a sample give it the same slope where there is a value. -/
theorem AgreeAt.slopeBy_eq (h : s.AgreeAt o o') (hd : o'.dimension = o.dimension)
    (hvalue : (s.valueBy o).isSome) : s.slopeBy o' = s.slopeBy o := by
  rw [← gradient_settled hvalue, ← gradient_settled (h.valueBy_eq ▸ hvalue), settled_eq,
    settled_eq, h.valueBy_eq, if_pos hvalue, if_pos hvalue, h.evaluateObjective_eq,
    h.evaluateGradient_eq hd hvalue]

end Sample

namespace Workspace

variable {α : Type} [Scalar α] {o o' : Oracle α} {w : Workspace α} {id : SampleId}

/-- The workspace after a joint evaluation of a sample. -/
def withBoth (o : Oracle α) (id : SampleId) (w : Workspace α) : Workspace α :=
  if ((w.sampleAt id).valueBy o).isSome then (w.withObjective o id).withGradient o id
  else w.withObjective o id

/-- A joint evaluation tells whether both values are there. -/
theorem evaluateBoth_run (o : Oracle α) (id : SampleId) (w : Workspace α) :
    evaluateBoth o id true w =
      .ok (((w.sampleAt id).valueBy o).isSome && ((w.sampleAt id).slopeBy o).isSome)
        (w.withBoth o id) := by
  rw [evaluateBoth_eq, Sample.isKnown_evaluateObjective, withBoth]
  split
  · rename_i hvalue
    rw [evaluateGradient_run, sampleAt_withObjective, if_pos rfl, Sample.isKnown_eq_isSome,
      hvalue, Bool.true_and, Sample.evaluateGradient_fst, Sample.evaluateObjective_fst,
      Sample.slopeBy]
  · rename_i hvalue
    rw [eq_false_of_ne_true hvalue, Bool.false_and]

/-- Settling one sample leaves the others as they were. -/
theorem sampleAt_withBoth (o : Oracle α) (id : SampleId) (w : Workspace α) (i : SampleId) :
    (w.withBoth o id).sampleAt i =
      if i = id then (w.sampleAt id).settled o else w.sampleAt i := by
  rw [withBoth, Sample.settled_eq]
  split
  · rw [sampleAt_withGradient, sampleAt_withObjective, sampleAt_withObjective, if_pos rfl]
    split <;> rfl
  · rw [sampleAt_withObjective]

/-- What had been evaluated is not evaluated again when a sample is settled. -/
theorem remembers_withBoth (o : Oracle α) (id : SampleId) (w : Workspace α) :
    w.Remembers o (w.withBoth o id) :=
  ((along_remembers o).evaluateBoth id).of_ok (evaluateBoth_run o id w)

omit [Scalar α] in
/-- The workspace less what evaluations change. -/
def withoutEvaluations (w : Workspace α) : Workspace α :=
  { w with
    samples := #[]
    objectiveEvaluations := 0
    gradientEvaluations := 0
    notices := #[] }

omit [Scalar α] in
/-- Workspaces that differ in evaluations alone differ in samples, counters and notices. -/
theorem eq_of_withoutEvaluations_eq {w' : Workspace α}
    (h : w'.withoutEvaluations = w.withoutEvaluations) : w' =
      { w with
        samples := w'.samples
        objectiveEvaluations := w'.objectiveEvaluations
        gradientEvaluations := w'.gradientEvaluations
        notices := w'.notices } :=
  congrArg (fun v : Workspace α =>
    { v with
      samples := w'.samples
      objectiveEvaluations := w'.objectiveEvaluations
      gradientEvaluations := w'.gradientEvaluations
      notices := w'.notices }) h

/-- Settling a sample changes evaluations alone. -/
theorem withoutEvaluations_withBoth (o : Oracle α) (id : SampleId) (w : Workspace α) :
    (w.withBoth o id).withoutEvaluations = w.withoutEvaluations := by
  rw [withBoth]
  split <;> rfl

/-- Settling a sample leaves the number of variables. -/
@[simp] theorem dimension_withBoth (o : Oracle α) (id : SampleId) (w : Workspace α) :
    (w.withBoth o id).dimension = w.dimension := by
  rw [withBoth]
  split <;> rfl

/-- Settling a sample leaves the current point. -/
@[simp] theorem current_withBoth (o : Oracle α) (id : SampleId) (w : Workspace α) :
    (w.withBoth o id).current = w.current := by
  rw [withBoth]
  split <;> rfl

/-- Settling a sample leaves the bundle. -/
@[simp] theorem bundle_withBoth (o : Oracle α) (id : SampleId) (w : Workspace α) :
    (w.withBoth o id).bundle = w.bundle := by
  rw [withBoth]
  split <;> rfl

/-- Settling a sample makes no new one. -/
@[simp] theorem size_withBoth (o : Oracle α) (id : SampleId) (w : Workspace α) :
    (w.withBoth o id).samples.size = w.samples.size := by
  rw [withBoth]
  split
  · exact Array.size_setIfInBounds.trans Array.size_setIfInBounds
  · exact Array.size_setIfInBounds

/-- Oracles that agree at a sample settle it alike. -/
theorem withBoth_congr (h : (w.sampleAt id).AgreeAt o o') (hd : o'.dimension = o.dimension) :
    w.withBoth o' id = w.withBoth o id := by
  have hfirst : w.withObjective o' id = w.withObjective o id := by
    rw [withObjective, h.evaluateObjective_eq, withObjective]
  rw [withBoth, h.valueBy_eq, withBoth, hfirst]
  split
  · have hsecond := h.evaluateGradient_eq hd ‹_›
    rw [withGradient, withGradient, sampleAt_withObjective, if_pos rfl, hsecond]
  · rfl

/-! ## Lists of visits -/

/-- The workspace after joint evaluations of samples, one after the other. -/
def visited (o : Oracle α) (ids : List SampleId) (w : Workspace α) : Workspace α :=
  ids.foldl (fun w id => w.withBoth o id) w

/-- A visit settles the first sample and then visits the others. -/
theorem visited_cons (o : Oracle α) (id : SampleId) (ids : List SampleId) (w : Workspace α) :
    w.visited o (id :: ids) = (w.withBoth o id).visited o ids := rfl

/-- The samples that are named are settled, and the others are left. -/
theorem sampleAt_visited (o : Oracle α) (ids : List SampleId) (w : Workspace α) (i : SampleId) :
    (w.visited o ids).sampleAt i =
      if i ∈ ids then (w.sampleAt i).settled o else w.sampleAt i := by
  induction ids generalizing w with
  | nil => rfl
  | cons id ids ih =>
    rw [visited_cons, ih, sampleAt_withBoth]
    by_cases hi : i = id
    · subst hi
      rw [if_pos rfl, if_pos List.mem_cons_self,
        ((w.sampleAt i).isSettled_settled o).settled_eq, ite_self]
    · rw [if_neg hi]
      simp only [List.mem_cons, hi, false_or]

/-- A visit changes evaluations alone. -/
theorem withoutEvaluations_visited (o : Oracle α) (ids : List SampleId) (w : Workspace α) :
    (w.visited o ids).withoutEvaluations = w.withoutEvaluations := by
  induction ids generalizing w with
  | nil => rfl
  | cons id ids ih => rw [visited_cons, ih, withoutEvaluations_withBoth]

/-- A visit makes no new sample. -/
theorem size_visited (o : Oracle α) (ids : List SampleId) (w : Workspace α) :
    (w.visited o ids).samples.size = w.samples.size := by
  induction ids generalizing w with
  | nil => rfl
  | cons id ids ih => rw [visited_cons, ih, size_withBoth]

/-- What had been evaluated is not evaluated again on a visit. -/
theorem remembers_visited (o : Oracle α) (ids : List SampleId) (w : Workspace α) :
    w.Remembers o (w.visited o ids) := by
  induction ids generalizing w with
  | nil => exact .of_eq rfl rfl rfl
  | cons id ids ih => exact (remembers_withBoth o id w).trans (ih _)

/-- Visits depend on the oracle only at what is not settled yet where they lead. -/
theorem visited_congr {ids : List SampleId} (hd : o'.dimension = o.dimension)
    (h : ∀ id ∈ ids, (w.sampleAt id).AgreeAt o o') : w.visited o' ids = w.visited o ids := by
  induction ids generalizing w with
  | nil => rfl
  | cons id ids ih =>
    obtain ⟨hid, hrest⟩ := List.forall_mem_cons.mp h
    rw [visited_cons, visited_cons, withBoth_congr hid hd]
    refine ih fun i hi => ?_
    rw [sampleAt_withBoth]
    split
    · exact ((w.sampleAt id).isSettled_settled o).agreeAt o o'
    · exact hrest i hi

/-! ## What visits count -/

omit [Scalar α] in
/-- Samples may be counted by their numbers. -/
theorem countP_samples (p : Sample α → Bool) (w : Workspace α) :
    w.samples.countP p = (List.range w.samples.size).countP fun id => p (w.sampleAt id) := by
  have hlist : w.samples.toList = (List.range w.samples.size).map w.sampleAt := by
    refine List.ext_getElem (by simp) fun i hi _ => ?_
    rw [List.getElem_map, List.getElem_range, Array.getElem_toList, sampleAt_eq_getElem]
  rw [← Array.countP_toList, hlist, List.countP_map]
  rfl

end Workspace

/-- What has one of two properties has the second, or the first without the second. -/
theorem countP_or {β : Type} (p q : β → Bool) (l : List β) :
    l.countP (fun b => p b || q b) = l.countP q + l.countP fun b => p b && !q b := by
  induction l with
  | nil => rfl
  | cons b l ih =>
    rw [List.countP_cons, List.countP_cons, List.countP_cons, ih]
    cases p b <;> cases q b <;> simp <;> omega

namespace Workspace

variable {α : Type} [Scalar α] {o : Oracle α} {w : Workspace α}

/-- Those that a visit adds to a count are the samples that gain the property and lacked it. -/
theorem countP_visited {ids : List SampleId} (p : Sample α → Bool) (gains : SampleId → Bool)
    (h : ∀ id, p ((w.visited o ids).sampleAt id) = (gains id || p (w.sampleAt id))) :
    (w.visited o ids).samples.countP p = w.samples.countP p +
      (List.range w.samples.size).countP fun id => gains id && !p (w.sampleAt id) := by
  rw [countP_samples, countP_samples p w, size_visited, ← countP_or]
  exact congrArg (List.countP · _) (funext h)

/-- The first evaluations that visits make: of the objective, one for each sample that is
visited and had none, and of the gradient, one for each that had none and whose objective
is there. -/
theorem counters_visited (o : Oracle α) (ids : List SampleId) (w : Workspace α) :
    (w.visited o ids).objectiveEvaluations = w.objectiveEvaluations +
        (List.range w.samples.size).countP (fun id =>
          decide (id ∈ ids) && (w.sampleAt id).objective.isPending) ∧
      (w.visited o ids).gradientEvaluations = w.gradientEvaluations +
        (List.range w.samples.size).countP fun id =>
          (decide (id ∈ ids) && ((w.sampleAt id).valueBy o).isSome) &&
            (w.sampleAt id).gradient.isPending := by
  have hvalued := countP_visited (w := w) (o := o) Sample.isValued
    (fun id => decide (id ∈ ids)) fun id => by
      rw [sampleAt_visited]
      by_cases hid : id ∈ ids
      · rw [if_pos hid, ((w.sampleAt id).isSettled_settled o).value, decide_eq_true hid,
          Bool.true_or]
      · rw [if_neg hid, decide_eq_false hid, Bool.false_or]
  have hsloped := countP_visited (w := w) (o := o) Sample.isSloped
    (fun id => decide (id ∈ ids) && ((w.sampleAt id).valueBy o).isSome) fun id => by
      rw [sampleAt_visited]
      by_cases hid : id ∈ ids
      · rw [if_pos hid, Sample.isSloped_settled, decide_eq_true hid, Bool.true_and]
      · rw [if_neg hid, decide_eq_false hid, Bool.false_and, Bool.false_or]
  simp only [Sample.isValued, Bool.not_not] at hvalued
  simp only [Sample.isSloped, Bool.not_not] at hsloped
  have hobjectives := (remembers_visited o ids w).objectives
  have hgradients := (remembers_visited o ids w).gradients
  rw [valued, valued] at hobjectives
  rw [sloped, sloped] at hgradients
  exact ⟨by omega, by omega⟩

end Workspace

end NonsmoothDescent
