import NonsmoothDescent.Proofs.Workspace.Pairing
import NonsmoothDescent.Proofs.Workspace.Frame

/-!
# What a workspace remembers

An evaluation is made once. What came of it, a value or a failure, is kept with the sample
and is given again whenever it is asked for, whoever asks and through whichever of the
roles that the sample plays. The counters go along: they grow by the first evaluations, so
that they stay the numbers of samples that have been evaluated if they once were.

Operations may stop with a fault. What they did up to then is remembered all the same.
-/

namespace NonsmoothDescent

section Counting

variable {β : Type}

/-- Putting another entry in the place of one changes a count by these two only. -/
theorem countP_setIfInBounds (p : β → Bool) {a : Array β} {i : Nat} (h : i < a.size) (x : β) :
    (a.setIfInBounds i x).countP p + (if p a[i] then 1 else 0) =
      a.countP p + if p x then 1 else 0 := by
  have hpos : p a[i] = true → 0 < a.countP p := fun hp =>
    Array.countP_pos_iff.mpr ⟨a[i], Array.getElem_mem h, hp⟩
  rw [Array.setIfInBounds, dif_pos h, Array.countP_set]
  split
  · have := hpos ‹_›
    omega
  · omega

end Counting

variable {α : Type}

namespace Sample

/-- The objective has been evaluated, with whatever result. -/
def isValued (s : Sample α) : Bool := !s.objective.isPending

/-- The gradient has been evaluated, with whatever result. -/
def isSloped (s : Sample α) : Bool := !s.gradient.isPending

/-- An objective that was evaluated has become no better known since. -/
theorem Refines.of_isValued {s t : Sample α} (h : s.Refines t) (hs : s.isValued = true) :
    t.objective = s.objective ∧ t.isValued = true := by
  have hsame : t.objective = s.objective := by
    refine h.objective.resolve_left fun hp => ?_
    rw [isValued, hp] at hs
    cases hs
  exact ⟨hsame, by rwa [isValued, hsame]⟩

/-- A gradient that was evaluated stays as it is. -/
theorem Refines.of_isSloped {s t : Sample α} (h : s.Refines t) (hs : s.isSloped = true) :
    t.gradient = s.gradient ∧ t.isSloped = true := by
  have hsame : t.gradient = s.gradient := by
    refine h.gradient.resolve_left fun hp => ?_
    rw [isSloped, hp] at hs
    cases hs
  exact ⟨hsame, by rwa [isSloped, hsame]⟩

variable [Scalar α] {s : Sample α} {o : Oracle α}

/-- An objective that was evaluated is not evaluated again. -/
theorem evaluateObjective_of_isValued (o : Oracle α) (h : s.isValued = true) :
    s.evaluateObjective o = (s, []) := by
  rw [evaluateObjective, if_neg (by simpa [isValued] using h)]

/-- A gradient that was evaluated is not evaluated again. -/
theorem evaluateGradient_of_isSloped (o : Oracle α) (h : s.isSloped = true) :
    s.evaluateGradient o = (s, []) := by
  rw [evaluateGradient, if_neg (by simpa [isSloped] using h)]

omit [Scalar α] in
/-- What has been evaluated is not pending, whether it has a value or not. -/
theorem isPending_ofOption {β : Type} (result : Option β) :
    (Evaluation.ofOption result).isPending = false := by
  cases result <;> rfl

/-- After its evaluation an objective counts as evaluated. -/
@[simp] theorem isValued_evaluateObjective (o : Oracle α) (s : Sample α) :
    (s.evaluateObjective o).1.isValued = true := by
  by_cases h : s.objective.isPending = true
  · rw [evaluateObjective, if_pos h]
    exact congrArg (!·) (isPending_ofOption (o.evaluateObjective s.position).1)
  · have hvalued : s.isValued = true := by simpa [isValued] using h
    rw [evaluateObjective_of_isValued o hvalued, hvalued]

/-- After its evaluation a gradient counts as evaluated. -/
@[simp] theorem isSloped_evaluateGradient (o : Oracle α) (s : Sample α) :
    (s.evaluateGradient o).1.isSloped = true := by
  by_cases h : s.gradient.isPending = true
  · rw [evaluateGradient, if_pos h]
    exact congrArg (!·) (isPending_ofOption (o.evaluateGradient s.position).1)
  · have hsloped : s.isSloped = true := by simpa [isSloped] using h
    rw [evaluateGradient_of_isSloped o hsloped, hsloped]

/-- Evaluating the objective does not count for the gradient. -/
@[simp] theorem isSloped_evaluateObjective (o : Oracle α) (s : Sample α) :
    (s.evaluateObjective o).1.isSloped = s.isSloped := by
  rw [isSloped, Workspace.gradient_evaluateObjective, isSloped]

/-- Evaluating the gradient does not count for the objective. -/
@[simp] theorem isValued_evaluateGradient (o : Oracle α) (s : Sample α) :
    (s.evaluateGradient o).1.isValued = s.isValued := by
  unfold evaluateGradient
  split <;> rfl

/-- An evaluation gives a value if the function does and the value is finite. -/
theorem evaluateObjective_eq_some_iff {x : List α} {value : α} :
    (o.evaluateObjective x).1 = some value ↔
      o.value x = .ok value ∧ Scalar.isFinite value = true := by
  unfold Oracle.evaluateObjective
  split
  · rename_i hfault
    simp [hfault]
  · rename_i given hgiven
    rw [hgiven, Except.ok.injEq]
    split
    · rename_i hfinite
      exact ⟨fun h => by cases h; exact ⟨rfl, hfinite⟩, fun h => congrArg some h.1⟩
    · rename_i hinfinite
      exact ⟨nofun, fun h => absurd (h.1 ▸ h.2) hinfinite⟩

/-- An evaluation gives a gradient if the function does and it is finite and of the right
length. -/
theorem evaluateGradient_eq_some_iff {x slope : List α} :
    (o.evaluateGradient x).1 = some slope ↔
      o.rawGradient x = .ok slope ∧ slope.length = o.dimension ∧ Vec.isFinite slope = true := by
  unfold Oracle.evaluateGradient
  split
  · rename_i hfault
    simp [hfault]
  · rename_i given hgiven
    rw [hgiven, Except.ok.injEq]
    split
    · rename_i hvalid
      exact ⟨fun h => by cases h; exact ⟨rfl, hvalid⟩, fun h => congrArg some h.1⟩
    · rename_i hinvalid
      exact ⟨nofun, fun h => absurd (h.1 ▸ h.2) hinvalid⟩

/-- What is known at a sample is what the functions gave there and what passed the checks:
finite numbers, and in a gradient one per variable. A failure is remembered where there was
nothing of the kind. What is not known, or not yet, is above every value. -/
structure Reads (o : Oracle α) (s : Sample α) : Prop where
  value_known : ∀ value, s.objective.value? = some value →
    o.value s.position = .ok value ∧ Scalar.isFinite value = true
  value_failed : s.objective = .failed →
    ∀ value, o.value s.position = .ok value → Scalar.isFinite value = false
  value_isKnown_iff : s.objective.isKnown = true ↔ ∃ value, s.objective.value? = some value
  value_unknown : s.objective.isKnown = false →
    ∀ a, below (some a) s.objective.value? = true ∧ below s.objective.value? (some a) = false
  slope_known : ∀ slope, s.gradient.value? = some slope →
    o.rawGradient s.position = .ok slope ∧ slope.length = o.dimension ∧ Vec.isFinite slope = true
  slope_failed : s.gradient = .failed → ∀ slope, o.rawGradient s.position = .ok slope →
    slope.length = o.dimension → Vec.isFinite slope = false
  slope_isKnown_iff : s.gradient.isKnown = true ↔ ∃ slope, s.gradient.value? = some slope

/-- An evaluation that was made and failed gave nothing. -/
theorem eq_none_of_failed {β : Type} {e : Evaluation β} {result : Option β} (hfailed : e = .failed)
    (h : e = .pending ∨ e = .ofOption result) : result = none := by
  subst hfailed
  cases result with
  | none => rfl
  | some b => exact h.elim nofun nofun

/-- A faithful sample reads what the oracle gives. -/
theorem Faithful.reads (h : s.Faithful o) : s.Reads o where
  value_known _ hv := evaluateObjective_eq_some_iff.mp (h.objective_eq hv)
  value_failed hfailed value hv := by
    have hnone := eq_none_of_failed hfailed h.objective
    refine eq_false_of_ne_true fun hfinite => ?_
    cases hnone.symm.trans (evaluateObjective_eq_some_iff.mpr ⟨hv, hfinite⟩)
  value_isKnown_iff := Workspace.isKnown_iff
  value_unknown hunknown a := by
    have hnone : s.objective.value? = none := by
      cases he : s.objective with
      | pending | failed => rfl
      | known value => rw [he] at hunknown; cases hunknown
    rw [hnone]
    exact ⟨rfl, rfl⟩
  slope_known _ hv := evaluateGradient_eq_some_iff.mp (h.gradient_eq hv)
  slope_failed hfailed slope hv hlength := by
    have hnone := eq_none_of_failed hfailed h.gradient
    refine eq_false_of_ne_true fun hfinite => ?_
    cases hnone.symm.trans (evaluateGradient_eq_some_iff.mpr ⟨hv, hlength, hfinite⟩)
  slope_isKnown_iff := Workspace.isKnown_iff

end Sample

namespace Workspace

/-- The number of samples whose objective has been evaluated. -/
def valued (w : Workspace α) : Nat := w.samples.countP Sample.isValued

/-- The number of samples whose gradient has been evaluated. -/
def sloped (w : Workspace α) : Nat := w.samples.countP Sample.isSloped

variable [Scalar α] {o : Oracle α} {w w' w'' : Workspace α} {id : SampleId}

/-- A later workspace. Samples are still there, and what was known of them is; samples that
were made since know only what the oracle gives; and the counters have grown by as much as
the numbers of evaluated samples. -/
structure Remembers (o : Oracle α) (w w' : Workspace α) : Prop where
  size_le : w.samples.size ≤ w'.samples.size
  refines : ∀ id < w.samples.size, (w.sampleAt id).Refines (w'.sampleAt id)
  faithful : ∀ id < w'.samples.size,
    (id < w.samples.size → (w.sampleAt id).Faithful o) → (w'.sampleAt id).Faithful o
  objectives : w'.objectiveEvaluations + w.valued = w.objectiveEvaluations + w'.valued
  gradients : w'.gradientEvaluations + w.sloped = w.gradientEvaluations + w'.sloped

namespace Remembers

/-- Changes outside the table of samples and the counters of evaluations. -/
theorem of_eq (hsamples : w'.samples = w.samples)
    (hobjectives : w'.objectiveEvaluations = w.objectiveEvaluations)
    (hgradients : w'.gradientEvaluations = w.gradientEvaluations) : w.Remembers o w' := by
  have hat : ∀ id, w'.sampleAt id = w.sampleAt id := fun id => by rw [sampleAt, sampleAt, hsamples]
  refine ⟨hsamples ▸ Nat.le_refl _, fun id _ => ?_, fun id hid hf => ?_, ?_, ?_⟩
  · rw [hat]
  · rw [hat]
    exact hf (hsamples ▸ hid)
  · rw [valued, valued, hsamples, hobjectives]
  · rw [sloped, sloped, hsamples, hgradients]

/-- What is remembered in two workspaces one after the other is remembered. -/
theorem trans (h : w.Remembers o w') (h' : w'.Remembers o w'') : w.Remembers o w'' where
  size_le := h.size_le.trans h'.size_le
  refines id hid := (h.refines id hid).trans (h'.refines id (hid.trans_le h.size_le))
  faithful id hid hf := h'.faithful id hid fun hid' => h.faithful id hid' hf
  objectives := by
    have := h.objectives
    have := h'.objectives
    omega
  gradients := by
    have := h.gradients
    have := h'.gradients
    omega

instance : Std.Refl (Remembers o) := ⟨fun _ => of_eq rfl rfl rfl⟩

instance : Trans (Remembers o) (Remembers o) (Remembers o) := ⟨Remembers.trans⟩

/-- A new sample, of which nothing is known yet. -/
theorem of_push {s : Sample α} (hobjective : s.objective = .pending)
    (hgradient : s.gradient = .pending) (hsamples : w'.samples = w.samples.push s)
    (hobjectives : w'.objectiveEvaluations = w.objectiveEvaluations)
    (hgradients : w'.gradientEvaluations = w.gradientEvaluations) : w.Remembers o w' := by
  have hold : ∀ id < w.samples.size, w'.sampleAt id = w.sampleAt id := fun id hid => by
    rw [← sampleAt_push_of_lt (s := s) hid, sampleAt, hsamples]
    rfl
  have hnew : w'.sampleAt w.samples.size = s := by
    rw [sampleAt, hsamples]
    exact sampleAt_push_size w s
  have hsize : w'.samples.size = w.samples.size + 1 := by rw [hsamples, Array.size_push]
  refine ⟨by omega, fun id hid => hold id hid ▸ .refl _, fun id hid hf => ?_, ?_, ?_⟩
  · rcases Nat.lt_succ_iff_lt_or_eq.mp (hsize ▸ hid) with hlt | rfl
    · exact hold id hlt ▸ hf hlt
    · rw [hnew]
      exact ⟨.inl hobjective, .inl hgradient⟩
  · rw [valued, valued, hsamples, Array.countP_push, Sample.isValued, hobjective, hobjectives]
    rfl
  · rw [sloped, sloped, hsamples, Array.countP_push, Sample.isSloped, hgradient, hgradients]
    rfl

end Remembers

/-! ## Evaluations -/

omit [Scalar α] in
/-- A number that no sample has belongs to the absent one. -/
theorem sampleAt_of_not_lt (hid : ¬id < w.samples.size) : w.sampleAt id = absentSample := by
  rw [sampleAt_eq, Array.getElem?_eq_none (not_lt.mp hid)]
  rfl

omit [Scalar α] in
/-- A number below the size belongs to the sample in its place. -/
theorem sampleAt_eq_getElem (hid : id < w.samples.size) : w.sampleAt id = w.samples[id] := by
  rw [sampleAt_eq, Array.getElem?_eq_getElem hid]
  rfl

/-- Evaluating an objective sets it in one sample. -/
theorem sampleAt_withObjective (o : Oracle α) (id : SampleId) (w : Workspace α) (i : SampleId) :
    (w.withObjective o id).sampleAt i =
      if i = id then ((w.sampleAt id).evaluateObjective o).1 else w.sampleAt i := by
  by_cases hid : id < w.samples.size
  · exact (replaces_withObjective hid).sampleAt_eq i
  · have hsame : (w.withObjective o id).sampleAt i = w.sampleAt i := by
      rw [sampleAt, withObjective, Array.setIfInBounds, dif_neg hid]
      rfl
    rw [hsame, sampleAt_of_not_lt hid]
    split
    · rw [‹i = id›, sampleAt_of_not_lt hid]
      rfl
    · rfl

/-- Evaluating a gradient sets it in one sample. -/
theorem sampleAt_withGradient (o : Oracle α) (id : SampleId) (w : Workspace α) (i : SampleId) :
    (w.withGradient o id).sampleAt i =
      if i = id then ((w.sampleAt id).evaluateGradient o).1 else w.sampleAt i := by
  by_cases hid : id < w.samples.size
  · exact (replaces_withGradient hid).sampleAt_eq i
  · have hsame : (w.withGradient o id).sampleAt i = w.sampleAt i := by
      rw [sampleAt, withGradient, Array.setIfInBounds, dif_neg hid]
      rfl
    rw [hsame, sampleAt_of_not_lt hid]
    split
    · rw [‹i = id›, sampleAt_of_not_lt hid]
      rfl
    · rfl

omit [Scalar α] in
/-- Another sample in the place of one changes a count of samples by these two only. -/
theorem countP_replaced (w : Workspace α) (id : SampleId) (p : Sample α → Bool) {s : Sample α}
    (hout : ¬id < w.samples.size → p s = p absentSample) :
    (w.samples.setIfInBounds id s).countP p + (if p (w.sampleAt id) then 1 else 0) =
      w.samples.countP p + if p s then 1 else 0 := by
  by_cases hid : id < w.samples.size
  · rw [sampleAt_eq_getElem hid]
    exact countP_setIfInBounds p hid s
  · rw [Array.setIfInBounds, dif_neg hid, sampleAt_of_not_lt hid, hout hid]

/-- A first evaluation of the objective adds to the evaluated objectives, any other does
not, and none adds to the evaluated gradients. -/
theorem counts_withObjective (o : Oracle α) (id : SampleId) (w : Workspace α) :
    (w.withObjective o id).valued =
        w.valued + (if (w.sampleAt id).objective.isPending then 1 else 0) ∧
      (w.withObjective o id).sloped = w.sloped := by
  have hvalued := countP_replaced w id Sample.isValued
    (s := ((w.sampleAt id).evaluateObjective o).1) fun _ => Sample.isValued_evaluateObjective o _
  have hsloped := countP_replaced w id Sample.isSloped
    (s := ((w.sampleAt id).evaluateObjective o).1) fun hid => by
      rw [Sample.isSloped_evaluateObjective, sampleAt_of_not_lt hid]
  rw [Sample.isValued_evaluateObjective, Sample.isValued] at hvalued
  rw [Sample.isSloped_evaluateObjective, Nat.add_right_cancel_iff] at hsloped
  refine ⟨?_, hsloped⟩
  change (w.samples.setIfInBounds id _).countP Sample.isValued =
    w.samples.countP Sample.isValued + _
  cases h : (w.sampleAt id).objective.isPending <;> simp_all

/-- Evaluating a gradient counts it if it was pending. -/
theorem counts_withGradient (o : Oracle α) (id : SampleId) (w : Workspace α) :
    (w.withGradient o id).valued = w.valued ∧
      (w.withGradient o id).sloped =
        w.sloped + if (w.sampleAt id).gradient.isPending then 1 else 0 := by
  have hvalued := countP_replaced w id Sample.isValued
    (s := ((w.sampleAt id).evaluateGradient o).1) fun hid => by
      rw [Sample.isValued_evaluateGradient, sampleAt_of_not_lt hid]
  have hsloped := countP_replaced w id Sample.isSloped
    (s := ((w.sampleAt id).evaluateGradient o).1) fun _ => Sample.isSloped_evaluateGradient o _
  rw [Sample.isValued_evaluateGradient, Nat.add_right_cancel_iff] at hvalued
  rw [Sample.isSloped_evaluateGradient, Sample.isSloped] at hsloped
  refine ⟨hvalued, ?_⟩
  change (w.samples.setIfInBounds id _).countP Sample.isSloped =
    w.samples.countP Sample.isSloped + _
  cases h : (w.sampleAt id).gradient.isPending <;> simp_all

/-- What was evaluated is remembered when an objective is evaluated. -/
theorem remembers_withObjective (o : Oracle α) (id : SampleId) (w : Workspace α) :
    w.Remembers o (w.withObjective o id) := by
  obtain ⟨hvalued, hsloped⟩ := counts_withObjective o id w
  have hsize : (w.withObjective o id).samples.size = w.samples.size := Array.size_setIfInBounds
  refine ⟨hsize.ge, fun i _ => ?_, fun i hi hf => ?_, ?_, ?_⟩
  · rw [sampleAt_withObjective]
    split
    · exact ‹i = id› ▸ Sample.evaluateObjective_refines o _
    · exact .refl _
  · have hfaithful := hf (hsize ▸ hi)
    rw [sampleAt_withObjective]
    split
    · exact (‹i = id› ▸ hfaithful).evaluateObjective
    · exact hfaithful
  · rw [hvalued, withObjective]
    dsimp only
    split <;> omega
  · rw [hsloped]
    rfl

/-- What was evaluated is remembered when a gradient is evaluated. -/
theorem remembers_withGradient (o : Oracle α) (id : SampleId) (w : Workspace α) :
    w.Remembers o (w.withGradient o id) := by
  obtain ⟨hvalued, hsloped⟩ := counts_withGradient o id w
  have hsize : (w.withGradient o id).samples.size = w.samples.size := Array.size_setIfInBounds
  refine ⟨hsize.ge, fun i _ => ?_, fun i hi hf => ?_, ?_, ?_⟩
  · rw [sampleAt_withGradient]
    split
    · exact ‹i = id› ▸ Sample.evaluateGradient_refines o _
    · exact .refl _
  · have hfaithful := hf (hsize ▸ hi)
    rw [sampleAt_withGradient]
    split
    · exact (‹i = id› ▸ hfaithful).evaluateGradient
    · exact hfaithful
  · rw [hvalued]
    rfl
  · rw [hsloped, withGradient]
    dsimp only
    split <;> omega

/-- All operations of a search on its workspace remember, and count what they add. -/
theorem along_remembers (o : Oracle α) : AlongSearch o (Remembers o) where
  objective id w := by
    rw [evaluateObjective_run]
    exact remembers_withObjective o id w
  gradient id w := by
    rw [evaluateGradient_run]
    exact remembers_withGradient o id w
  sample _ _ hobjective hgradient := .of_push hobjective hgradient rfl rfl rfl
  trial _ _ := .of_eq rfl rfl rfl
  bundle _ _ := .of_eq rfl rfl rfl
  notices _ _ := .of_eq rfl rfl rfl
  clock _ _ := .of_eq rfl rfl rfl
  direction _ _ := .of_eq rfl rfl rfl
  counters _ _ _ := .of_eq rfl rfl rfl
  radii _ _ := .of_eq rfl rfl rfl

/-! ## What is asked again -/

omit [Scalar α] in
/-- Replacing a sample by itself changes nothing. -/
theorem setIfInBounds_sampleAt (w : Workspace α) (id : SampleId) :
    w.samples.setIfInBounds id (w.sampleAt id) = w.samples := by
  by_cases hid : id < w.samples.size
  · rw [sampleAt_eq_getElem hid, Array.setIfInBounds, dif_pos hid, Array.set_getElem_self]
  · rw [Array.setIfInBounds, dif_neg hid]

/-- An objective that has been evaluated is not evaluated again, by whichever oracle. -/
theorem evaluateObjective_of_isValued (o : Oracle α) (h : (w.sampleAt id).isValued = true) :
    evaluateObjective o id true w = .ok (w.sampleAt id).objective.isKnown w := by
  have hnot : ¬(w.sampleAt id).objective.isPending = true := by simpa [Sample.isValued] using h
  rw [evaluateObjective_run, withObjective, Sample.evaluateObjective_of_isValued o h, if_neg hnot,
    setIfInBounds_sampleAt, Array.appendList_nil]

/-- Evaluating a gradient again leaves the workspace. -/
theorem evaluateGradient_of_isSloped (o : Oracle α) (h : (w.sampleAt id).isSloped = true) :
    evaluateGradient o id true w = .ok (w.sampleAt id).gradient.isKnown w := by
  have hnot : ¬(w.sampleAt id).gradient.isPending = true := by simpa [Sample.isSloped] using h
  rw [evaluateGradient_run, withGradient, Sample.evaluateGradient_of_isSloped o h, if_neg hnot,
    setIfInBounds_sampleAt, Array.appendList_nil]

/-- A joint evaluation goes on to the gradient if the objective is known. -/
theorem evaluateBoth_eq (o : Oracle α) (id : SampleId) (w : Workspace α) :
    evaluateBoth o id true w =
      if ((w.sampleAt id).evaluateObjective o).1.objective.isKnown then
        evaluateGradient o id true (w.withObjective o id)
      else .ok false (w.withObjective o id) := by
  unfold evaluateBoth
  rw [bind_of_ok (evaluateObjective_run o id w)]
  split <;> rfl

/-- Nor is anything evaluated again jointly. -/
theorem evaluateBoth_of_isSloped (o : Oracle α) (hvalued : (w.sampleAt id).isValued = true)
    (hsloped : (w.sampleAt id).objective.isKnown = true → (w.sampleAt id).isSloped = true) :
    evaluateBoth o id true w =
      .ok ((w.sampleAt id).objective.isKnown && (w.sampleAt id).gradient.isKnown) w := by
  unfold evaluateBoth
  rw [bind_of_ok (evaluateObjective_of_isValued o hvalued)]
  cases hknown : (w.sampleAt id).objective.isKnown with
  | false => rfl
  | true => exact evaluateGradient_of_isSloped o (hsloped hknown)

/-- If the objective is not known after a joint evaluation, no gradient was evaluated. -/
theorem evaluateBoth_spares (o : Oracle α) (id : SampleId) (w : Workspace α)
    (h : ((finalState (evaluateBoth o id true w)).sampleAt id).objective.isKnown = false) :
    (∀ i, ((finalState (evaluateBoth o id true w)).sampleAt i).gradient = (w.sampleAt i).gradient) ∧
      (finalState (evaluateBoth o id true w)).gradientEvaluations = w.gradientEvaluations := by
  rw [evaluateBoth_eq] at h ⊢
  split at h
  · rename_i hknown
    -- the objective that let the evaluation go on is still known at its end
    rw [evaluateGradient_run, finalState_ok, sampleAt_withGradient, if_pos rfl,
      sampleAt_withObjective, if_pos rfl] at h
    obtain ⟨value, hvalue⟩ := isKnown_iff.mp hknown
    have hstill := isKnown_iff.mpr ⟨value,
      (Sample.evaluateGradient_refines o _).objective_value? hvalue⟩
    cases hstill.symm.trans h
  · rename_i hunknown
    rw [if_neg hunknown]
    refine ⟨fun i => ?_, rfl⟩
    rw [finalState_ok, sampleAt_withObjective]
    split
    · rw [gradient_evaluateObjective, ‹i = id›]
    · rfl

end Workspace

end NonsmoothDescent
