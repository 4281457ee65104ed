import NonsmoothDescent.Proofs.Vec
import NonsmoothDescent.Proofs.Workspace.Growth

/-!
# Operations on a workspace

Every operation that a search makes on a well-formed workspace succeeds, lets it grow
and leaves it well formed. Evaluations change samples, counters and notices only; a
trial point is a new sample; a bundle point is a new place at the end of the bundle.
-/

namespace NonsmoothDescent

namespace Tensor

variable {α β : Type}

/-- Parts of length one are the entries. -/
theorem parts_one (v : List α) : parts 1 v.length v = v.map fun a => [a] := by
  induction v with
  | nil => rfl
  | cons a v ih =>
    change (a :: v).take 1 :: parts 1 v.length ((a :: v).drop 1) = _
    simpa using ih

/-- A vector need not be stretched to its own shape. -/
theorem stretch_vector (v : List α) : stretch [v.length] [v.length] v = v := by
  have hv : volume ([] : List Nat) = 1 := rfl
  have hid : stretch (α := α) [] [] = id := by
    funext entries
    rfl
  rw [stretch, if_pos rfl, hv, parts_one, hid, List.map_id]
  induction v with
  | nil => rfl
  | cons a v ih => simpa using ih

/-- Vectors of one length combine entry by entry. -/
theorem pairwise?_vector (op : α → α → β) {v w : List α} (h : v.length = w.length) :
    pairwise? op (ofVector v) (ofVector w) = some (ofVector (List.zipWith op v w)) := by
  have hv : stretch [w.length] [w.length] v = v := by
    rw [← h]
    exact stretch_vector v
  simp [pairwise?, ofVector, withAxes, commonShape?, commonSize?, h, hv, stretch_vector]

/-- A vector fills the shape of its length as it is. -/
theorem fill?_vector {n : Nat} {v : List α} (h : v.length = n) : fill? n (ofVector v) = some v := by
  subst h
  unfold fill? ofVector
  match v with
  | [] => simp
  | [x] => simp
  | x :: y :: rest => simp [List.dropWhile]

end Tensor

namespace Sample

variable {α : Type} [Scalar α]

/-- The sample at `x + t * d`, where `x` is the point of this sample. -/
def moved (s : Sample α) (t : α) (d : List α) : Sample α :=
  { position := List.zipWith (· + ·) (s.position.map ((1 : α) * ·)) (d.map (t * ·)) }

/-- A point that is moved by a step of the right length becomes the moved sample. -/
theorem shifted_eq {n : Nat} {s : Sample α} {d : List α} (t : α) (hs : s.position.length = n)
    (hd : d.length = n) : s.shifted n 1 t (Tensor.ofVector d) = .ok (s.moved t d) := by
  have hl : (s.position.map ((1 : α) * ·)).length = (d.map (t * ·)).length := by
    simp [hs, hd]
  have hp := Tensor.pairwise?_vector (fun a b : α => a + b) hl
  have hleft : (Tensor.ofVector s.position).map ((1 : α) * ·) =
      Tensor.ofVector (s.position.map ((1 : α) * ·)) := by
    simp [Tensor.map, Tensor.ofVector]
  have hright : (Tensor.ofVector d).map (t * ·) = Tensor.ofVector (d.map (t * ·)) := by
    simp [Tensor.map, Tensor.ofVector]
  unfold shifted
  simp only [hleft, hright, hp]
  rw [create, if_pos (by simp [Tensor.ofVector, hs, hd])]
  rfl

/-- The moved sample has one entry per variable. -/
theorem length_moved {n : Nat} {s : Sample α} {d : List α} (t : α)
    (hs : s.position.length = n) (hd : d.length = n) : (s.moved t d).position.length = n := by
  simp [moved, hs, hd]

/-- Of a moved sample nothing is known, so nothing false. -/
theorem faithful_moved (o : Oracle α) (s : Sample α) (t : α) (d : List α) :
    (s.moved t d).Faithful o := ⟨.inl rfl, .inl rfl⟩

/-- The distance of positions of one length is the largest absolute value of their difference.
-/
theorem distance_eq {x : List α} {s : Sample α} (h : x.length = s.position.length) :
    s.distance x = .ok (Vec.normInf (List.zipWith (· - ·) x s.position)) := by
  rw [distance, Vec.pairwise?_of_length_eq _ h]

end Sample

namespace Workspace

variable {α : Type}

/-- A new sample leaves the old ones at their numbers. -/
theorem sampleAt_push_of_lt {w : Workspace α} {s : Sample α} {id : SampleId}
    (h : id < w.samples.size) :
    ({ w with samples := w.samples.push s } : Workspace α).sampleAt id = w.sampleAt id := by
  simp [sampleAt_eq, Array.getElem?_push, Nat.ne_of_lt h]

/-- A new sample stands behind the old ones. -/
theorem sampleAt_push_size (w : Workspace α) (s : Sample α) :
    ({ w with samples := w.samples.push s } : Workspace α).sampleAt w.samples.size = s := by
  simp [sampleAt_eq]

/-- Replacing one sample leaves the others. -/
theorem sampleAt_set (w : Workspace α) (s : Sample α) {id : SampleId} (i : SampleId)
    (h : id < w.samples.size) :
    ({ w with samples := w.samples.setIfInBounds id s } : Workspace α).sampleAt i =
      if i = id then s else w.sampleAt i := by
  simp only [sampleAt_eq, Array.getElem?_setIfInBounds]
  by_cases hi : i = id
  · subst hi
    simp [h]
  · simp [hi, Ne.symm hi]

variable [Scalar α]

/-- Evaluations change samples, without losing what was known, and counters. -/
structure Evaluates (o : Oracle α) (w w' : Workspace α) : Prop where
  eq : ∃ samples objectives gradients notices, w' =
    { w with
      samples := samples
      objectiveEvaluations := objectives
      gradientEvaluations := gradients
      notices := notices }
  size_eq : w'.samples.size = w.samples.size
  refines : ∀ id, (w.sampleAt id).Refines (w'.sampleAt id)
  faithful : ∀ id, (w.sampleAt id).Faithful o → (w'.sampleAt id).Faithful o

namespace Evaluates

variable {o : Oracle α} {w w' w'' : Workspace α}

/-- Evaluations one after the other are evaluations. -/
theorem trans (h : Evaluates o w w') (h' : Evaluates o w' w'') : Evaluates o w w'' where
  eq := by
    obtain ⟨_, _, _, _, he⟩ := h.eq
    obtain ⟨a, b, c, d, he'⟩ := h'.eq
    exact ⟨a, b, c, d, by rw [he', he]⟩
  size_eq := h'.size_eq.trans h.size_eq
  refines id := (h.refines id).trans (h'.refines id)
  faithful id hf := h'.faithful id (h.faithful id hf)

/-- Evaluations let the workspace grow. -/
theorem grows (h : Evaluates o w w') : w.Grows w' := by
  obtain ⟨_, _, _, _, he⟩ := h.eq
  exact ⟨by rw [he], by rw [he], Nat.le_of_eq h.size_eq.symm, fun id _ => h.refines id, [],
    by rw [he, List.append_nil]⟩

/-- Evaluations keep a workspace well formed. -/
theorem wellFormed (h : Evaluates o w w') (hw : w.WellFormed o) : w'.WellFormed o := by
  obtain ⟨_, _, _, _, he⟩ := h.eq
  have hd : w'.dimension = w.dimension := by rw [he]
  have hc : w'.current = w.current := by rw [he]
  have hb : w'.bundle = w.bundle := by rw [he]
  refine ⟨hd ▸ hw.dimension_eq, fun id hid => ?_, fun id hid => ?_, ?_, fun id hid => ?_⟩
  · rw [h.size_eq] at hid
    rw [(h.refines id).position_eq, hd]
    exact hw.length_position id hid
  · rw [h.size_eq] at hid
    exact h.faithful id (hw.faithful id hid)
  · rw [hc, h.size_eq]
    exact hw.current_lt
  · rw [h.size_eq]
    exact hw.bundle_lt id (hb ▸ hid)

/-- Evaluations leave the radii. -/
theorem radii_eq (h : Evaluates o w w') : w'.radii = w.radii := by
  obtain ⟨_, _, _, _, he⟩ := h.eq
  rw [he]

/-- Evaluations leave the trial point. -/
theorem trial_eq (h : Evaluates o w w') : w'.trial = w.trial := by
  obtain ⟨_, _, _, _, he⟩ := h.eq
  rw [he]

/-- Evaluations leave the bundle. -/
theorem bundle_eq (h : Evaluates o w w') : w'.bundle = w.bundle := by
  obtain ⟨_, _, _, _, he⟩ := h.eq
  rw [he]

/-- Evaluations leave the policy of evaluation. -/
theorem jointEvaluation_eq (h : Evaluates o w w') : w'.jointEvaluation = w.jointEvaluation := by
  obtain ⟨_, _, _, _, he⟩ := h.eq
  rw [he]

/-- Replacing one sample by a refinement of it, with any counters. -/
theorem of_set {id : SampleId} {s : Sample α} (hid : id < w.samples.size)
    (hr : (w.sampleAt id).Refines s) (hf : (w.sampleAt id).Faithful o → s.Faithful o)
    (objectives gradients : Nat) (notices : Array (Notice α)) :
    Evaluates o w { w with
      samples := w.samples.setIfInBounds id s
      objectiveEvaluations := objectives
      gradientEvaluations := gradients
      notices := notices } where
  eq := ⟨_, _, _, _, rfl⟩
  size_eq := Array.size_setIfInBounds
  refines i := by
    change (w.sampleAt i).Refines (({ w with samples := _ } : Workspace α).sampleAt i)
    rw [sampleAt_set w s i hid]
    split
    · rename_i hi
      exact hi ▸ hr
    · exact .refl _
  faithful i hi := by
    change (({ w with samples := _ } : Workspace α).sampleAt i).Faithful o
    rw [sampleAt_set w s i hid]
    split
    · rename_i he
      exact hf (he ▸ hi)
    · exact hi

end Evaluates

/-- The trial point is evaluated as the workspace asks for: the objective is known there,
and in joint evaluation the gradient too. -/
def TrialEvaluated {α : Type} (w : Workspace α) : Prop :=
  w.trialSample.objective.isKnown = true ∧
    (w.jointEvaluation = true → w.trialSample.gradient.isKnown = true)

section Evaluation

variable {o : Oracle α} {w : Workspace α} {id : SampleId}

/-- Evaluating an objective succeeds, and tells whether the value is known. -/
theorem evaluateObjective_leads (hid : id < w.samples.size) (counted : Bool) :
    Leads (evaluateObjective o id counted) w fun known w' =>
      Evaluates o w w' ∧ known = (w'.sampleAt id).objective.isKnown := by
  refine ⟨_, _, rfl, .of_set hid ?_ ?_ _ _ _, ?_⟩
  · exact Sample.evaluateObjective_refines o _
  · exact Sample.Faithful.evaluateObjective
  · change _ = (({ w with samples := _ } : Workspace α).sampleAt id).objective.isKnown
    rw [sampleAt_set w _ id hid, if_pos rfl]

/-- Evaluating a gradient succeeds, and tells whether it is known. -/
theorem evaluateGradient_leads (hid : id < w.samples.size) (counted : Bool) :
    Leads (evaluateGradient o id counted) w fun known w' =>
      Evaluates o w w' ∧ known = (w'.sampleAt id).gradient.isKnown := by
  refine ⟨_, _, rfl, .of_set hid ?_ ?_ _ _ _, ?_⟩
  · exact Sample.evaluateGradient_refines o _
  · exact Sample.Faithful.evaluateGradient
  · change _ = (({ w with samples := _ } : Workspace α).sampleAt id).gradient.isKnown
    rw [sampleAt_set w _ id hid, if_pos rfl]

/-- An evaluation is known if there is a value. -/
theorem isKnown_iff {β : Type} {e : Evaluation β} : e.isKnown = true ↔ ∃ v, e.value? = some v := by
  cases e <;> simp [Evaluation.isKnown, Evaluation.value?]

/-- Evaluating both succeeds, and tells whether both are known. -/
theorem evaluateBoth_leads (hid : id < w.samples.size) (counted : Bool) :
    Leads (evaluateBoth o id counted) w fun known w' =>
      Evaluates o w w' ∧ (known = true ↔
        (w'.sampleAt id).objective.isKnown = true ∧ (w'.sampleAt id).gradient.isKnown = true) := by
  obtain ⟨known, w₁, hr, he, hknown⟩ := evaluateObjective_leads (o := o) hid counted
  unfold Leads evaluateBoth
  rw [bind_of_ok hr]
  cases known with
  | false => exact ⟨false, w₁, rfl, he, by simp [← hknown]⟩
  | true =>
    obtain ⟨known', w₂, hr', he', hknown'⟩ :=
      evaluateGradient_leads (o := o) (he.size_eq ▸ hid) counted
    refine ⟨known', w₂, hr', he.trans he', fun h => ⟨?_, hknown' ▸ h⟩, fun h => hknown' ▸ h.2⟩
    obtain ⟨v, hv⟩ := isKnown_iff.mp hknown.symm
    exact isKnown_iff.mpr ⟨v, (he'.refines id).objective_value? hv⟩

/-- Evaluating the trial point succeeds, and tells whether what the policy asks for is known. -/
theorem evaluateTrial_leads (hid : w.trial < w.samples.size) :
    Leads (evaluateTrial o) w fun known w' =>
      Evaluates o w w' ∧ (known = true ↔ w'.TrialEvaluated) := by
  have hsplit : evaluateTrial o w =
      if w.jointEvaluation then evaluateBoth o w.trial true w
      else evaluateObjective o w.trial true w := by
    change (if w.jointEvaluation then evaluateBoth o w.trial true
      else evaluateObjective o w.trial true) w = _
    split <;> rfl
  unfold Leads
  rw [hsplit]
  split
  · rename_i hjoint
    obtain ⟨known, w', hr, he, hknown⟩ := evaluateBoth_leads (o := o) hid true
    refine ⟨known, w', hr, he, ?_⟩
    rw [hknown, TrialEvaluated, trialSample, he.trial_eq, he.jointEvaluation_eq]
    simp [hjoint]
  · rename_i hjoint
    obtain ⟨known, w', hr, he, hknown⟩ := evaluateObjective_leads (o := o) hid true
    refine ⟨known, w', hr, he, ?_⟩
    rw [hknown, TrialEvaluated, trialSample, he.trial_eq, he.jointEvaluation_eq]
    simp [hjoint]

end Evaluation

section Trial

variable {w : Workspace α}

/-- The workspace with a new trial point: the current point plus a multiple of the
direction. -/
def withTrial (w : Workspace α) (t : α) : Workspace α :=
  { w with
    samples := w.samples.push (w.currentSample.moved t w.direction)
    trial := w.samples.size }

/-- With a direction of the right length a trial point is made. -/
theorem makeTrial_eq (t : α) (hc : w.currentSample.position.length = w.dimension)
    (hd : w.direction.length = w.dimension) : makeTrial t w = .ok () (w.withTrial t) := by
  have hs := Sample.shifted_eq t hc hd
  unfold makeTrial
  change (orFault (Sample.shifted w.dimension w.currentSample 1 t (Tensor.ofVector w.direction))
    >>= fun s => addSample s >>= fun id => modify fun w => { w with trial := id }) w = _
  rw [hs]
  rfl

/-- A trial point lets the workspace grow. -/
theorem withTrial_grows (w : Workspace α) (t : α) : w.Grows (w.withTrial t) where
  dimension_eq := rfl
  current_eq := rfl
  size_le := by simp [withTrial]
  refines id hid := by
    have he : (w.withTrial t).sampleAt id = w.sampleAt id := sampleAt_push_of_lt hid
    rw [he]
  bundle := ⟨[], (List.append_nil _).symm⟩

/-- The trial point of a new trial. -/
theorem trialSample_withTrial (w : Workspace α) (t : α) :
    (w.withTrial t).trialSample = w.currentSample.moved t w.direction :=
  sampleAt_push_size w _

/-- The trial point is a sample. -/
theorem withTrial_trial_lt (w : Workspace α) (t : α) :
    (w.withTrial t).trial < (w.withTrial t).samples.size := by
  simp [withTrial]

/-- A new sample that fits leaves the workspace well formed. -/
theorem WellFormed.push {o : Oracle α} (hw : w.WellFormed o) {s : Sample α}
    (hlength : s.position.length = w.dimension) (hfaithful : s.Faithful o) :
    ({ w with samples := w.samples.push s } : Workspace α).WellFormed o := by
  let w' : Workspace α := { w with samples := w.samples.push s }
  have hsize : w'.samples.size = w.samples.size + 1 := Array.size_push _
  have hold : ∀ id < w.samples.size, w'.sampleAt id = w.sampleAt id :=
    fun id hid => sampleAt_push_of_lt hid
  have hnew : w'.sampleAt w.samples.size = s := sampleAt_push_size w s
  refine ⟨hw.dimension_eq, fun id hid => ?_, fun id hid => ?_, ?_, fun id hid => ?_⟩
  · rcases Nat.lt_succ_iff_lt_or_eq.mp (hsize ▸ hid) with hlt | rfl
    · exact (hold id hlt).symm ▸ hw.length_position id hlt
    · exact hnew.symm ▸ hlength
  · rcases Nat.lt_succ_iff_lt_or_eq.mp (hsize ▸ hid) with hlt | rfl
    · exact (hold id hlt).symm ▸ hw.faithful id hlt
    · exact hnew.symm ▸ hfaithful
  · exact hsize ▸ Nat.lt_succ_of_lt hw.current_lt
  · exact hsize ▸ Nat.lt_succ_of_lt (hw.bundle_lt id hid)

/-- A trial point keeps a workspace well formed. -/
theorem withTrial_wellFormed {o : Oracle α} (hw : w.WellFormed o) (t : α)
    (hd : w.direction.length = w.dimension) : (w.withTrial t).WellFormed o := by
  have hlength := Sample.length_moved t (hw.length_position _ hw.current_lt) hd
  have hpush := hw.push hlength (Sample.faithful_moved o w.currentSample t w.direction)
  exact ⟨hpush.dimension_eq, hpush.length_position, hpush.faithful, hpush.current_lt,
    hpush.bundle_lt⟩

end Trial

section Bundle

variable {w : Workspace α} {id : SampleId}

/-- The workspace with one more place in the bundle. -/
def bundled (w : Workspace α) (id : SampleId) : Workspace α :=
  { w with bundle := w.bundle.push id }

omit [Scalar α] in
/-- A sample that comes into the bundle lets the workspace grow. -/
theorem bundled_grows (w : Workspace α) (id : SampleId) : w.Grows (w.bundled id) where
  dimension_eq := rfl
  current_eq := rfl
  size_le := Nat.le_refl _
  refines _ _ := .refl _
  bundle := ⟨[id], by simp [bundled]⟩

/-- A sample that comes into the bundle keeps a workspace well formed. -/
theorem bundled_wellFormed {o : Oracle α} (hw : w.WellFormed o) (hid : id < w.samples.size) :
    (w.bundled id).WellFormed o where
  dimension_eq := hw.dimension_eq
  length_position := hw.length_position
  faithful := hw.faithful
  current_lt := hw.current_lt
  bundle_lt i hi := by
    have hmem : i ∈ w.bundle.toList ++ [id] := by simpa [bundled] using hi
    rcases List.mem_append.mp hmem with h | h
    · exact hw.bundle_lt i h
    · rw [List.mem_singleton.mp h]
      exact hid

end Bundle

section Creation

variable {o : Oracle α} {w : Workspace α}

/-- A sample that is made has one entry per variable and nothing known. -/
theorem made_of_ofNested {n : Nat} {numbers : Nested α} {s : Sample α}
    (h : Sample.ofNested n numbers = .ok s) : s.position.length = n ∧ s.Faithful o := by
  unfold Sample.ofNested at h
  cases ht : numbers.tensor? with
  | none =>
    rw [ht] at h
    cases h
  | some t =>
    rw [ht] at h
    dsimp only [Sample.create] at h
    split at h
    · rename_i hlength
      cases h
      exact ⟨hlength, .inl rfl, .inl rfl⟩
    · cases h

/-- A workspace is made of settings that were checked and of a sample at the start point. -/
theorem exists_of_create {dimension : Nat} {clock : Nat → α} {settings : WorkspaceSettings α}
    {start : Nested α} (h : create dimension clock settings start = .ok w) :
    (¬ settings.stationarity ≤ 0 ∧ ¬ settings.trust ≤ 0 ∧ ¬ settings.timeLimit < 0) ∧
      ∃ first startTime clockReadings, Sample.ofNested dimension start = .ok first ∧
        w = { dimension
              samples := #[first]
              direction := Vec.zeros dimension
              radii := ⟨settings.stationarity, settings.trust⟩
              jointEvaluation := settings.jointEvaluation
              clockReadings
              startTime
              timeLimit := settings.timeLimit
              searchTime := 0 } := by
  unfold create at h
  dsimp only at h
  by_cases hstationarity : settings.stationarity ≤ 0
  · rw [if_pos hstationarity] at h
    cases h
  by_cases htrust : settings.trust ≤ 0
  · rw [if_neg hstationarity, if_pos htrust] at h
    cases h
  by_cases htime : settings.timeLimit < 0
  · rw [if_neg hstationarity, if_neg htrust, if_pos htime] at h
    cases h
  rw [if_neg hstationarity, if_neg htrust, if_neg htime] at h
  cases hfirst : Sample.ofNested dimension start with
  | error fault =>
    rw [hfirst] at h
    cases h
  | ok first =>
    rw [hfirst] at h
    cases h
    exact ⟨⟨hstationarity, htrust, htime⟩, first, _, _, rfl, rfl⟩

/-- Checked settings and a sample at the start point are enough for a workspace. -/
theorem create_eq {dimension : Nat} {clock : Nat → α} {settings : WorkspaceSettings α}
    {start : Nested α} {first : Sample α} (hstationarity : ¬ settings.stationarity ≤ 0)
    (htrust : ¬ settings.trust ≤ 0) (htime : ¬ settings.timeLimit < 0)
    (hfirst : Sample.ofNested dimension start = .ok first) :
    create dimension clock settings start = .ok
      { dimension
        samples := #[first]
        direction := Vec.zeros dimension
        radii := ⟨settings.stationarity, settings.trust⟩
        jointEvaluation := settings.jointEvaluation
        clockReadings := if settings.startTime.isSome then 0 else 1
        startTime := settings.startTime.getD (clock 0)
        timeLimit := settings.timeLimit
        searchTime := 0 } := by
  unfold create
  dsimp only
  rw [if_neg hstationarity, if_neg htrust, if_neg htime, hfirst]
  cases settings.startTime <;> rfl

/-- A workspace at a start point is well formed. -/
theorem wellFormed_create {clock : Nat → α} {settings : WorkspaceSettings α} {start : Nested α}
    (h : create o.dimension clock settings start = .ok w) : w.WellFormed o := by
  obtain ⟨_, first, _, _, hfirst, rfl⟩ := exists_of_create h
  obtain ⟨hlength, hfaithful⟩ := made_of_ofNested (o := o) hfirst
  refine ⟨rfl, fun id hid => ?_, fun id hid => ?_, Nat.one_pos, fun id hid => ?_⟩
  · rw [Nat.lt_one_iff.mp hid]
    exact hlength
  · rw [Nat.lt_one_iff.mp hid]
    exact hfaithful
  · exact absurd hid List.not_mem_nil

/-- So it is with any number of new samples, in the bundle or not. -/
theorem WellFormed.withSamples {samples : List (Sample α)} (hw : w.WellFormed o)
    (hs : ∀ s ∈ samples, s.position.length = w.dimension ∧ s.Faithful o) (inBundle : Bool) :
    (w.withSamples samples inBundle).WellFormed o := by
  induction samples generalizing w with
  | nil => exact hw
  | cons s samples ih =>
    obtain ⟨⟨hlength, hfaithful⟩, hrest⟩ := List.forall_mem_cons.mp hs
    have hpush := hw.push hlength hfaithful
    cases inBundle with
    | false => exact ih hpush hrest
    | true => exact ih (bundled_wellFormed hpush (by simp)) hrest

end Creation

end Workspace

end NonsmoothDescent
