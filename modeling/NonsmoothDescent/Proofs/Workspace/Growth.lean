import NonsmoothDescent.Proofs.Action
import NonsmoothDescent.Workspace

/-!
# Growth of a workspace

Samples are never removed and never forget: a workspace grows by new samples, by first
evaluations of old ones, and by new places at the end of the bundle. What is well formed
stays so. In a well-formed workspace every sample has one entry per variable, what is
known at it comes from the oracle, and all numbers of samples stand for samples.
-/

namespace NonsmoothDescent

namespace Sample

variable {α : Type}

/-- The same point, with nothing that was known lost or changed. -/
structure Refines (s t : Sample α) : Prop where
  position_eq : t.position = s.position
  objective : s.objective = .pending ∨ t.objective = s.objective
  gradient : s.gradient = .pending ∨ t.gradient = s.gradient

namespace Refines

variable {s t u : Sample α}

/-- A sample refines itself. -/
@[refl] theorem refl (s : Sample α) : s.Refines s := ⟨rfl, .inr rfl, .inr rfl⟩

/-- What is known better in two steps is known better. -/
theorem trans (h : s.Refines t) (h' : t.Refines u) : s.Refines u where
  position_eq := h'.position_eq.trans h.position_eq
  objective := by
    rcases h.objective with hp | he
    · exact .inl hp
    · rcases h'.objective with hp | he'
      · exact .inl (he ▸ hp)
      · exact .inr (he'.trans he)
  gradient := by
    rcases h.gradient with hp | he
    · exact .inl hp
    · rcases h'.gradient with hp | he'
      · exact .inl (he ▸ hp)
      · exact .inr (he'.trans he)

/-- A value that is known stays. -/
theorem objective_value? (h : s.Refines t) {value : α} (hv : s.objective.value? = some value) :
    t.objective.value? = some value := by
  rcases h.objective with hp | he
  · rw [hp] at hv
    cases hv
  · rw [he, hv]

/-- A gradient that is known stays. -/
theorem gradient_value? (h : s.Refines t) {slope : List α}
    (hv : s.gradient.value? = some slope) : t.gradient.value? = some slope := by
  rcases h.gradient with hp | he
  · rw [hp] at hv
    cases hv
  · rw [he, hv]

end Refines

variable [Scalar α]

/-- What is known at the sample is what the oracle gives there. -/
structure Faithful (o : Oracle α) (s : Sample α) : Prop where
  objective : s.objective = .pending ∨
    s.objective = .ofOption (o.evaluateObjective s.position).1
  gradient : s.gradient = .pending ∨ s.gradient = .ofOption (o.evaluateGradient s.position).1

/-- Evaluating the objective only adds to what is known. -/
theorem evaluateObjective_refines (o : Oracle α) (s : Sample α) :
    s.Refines (s.evaluateObjective o).1 := by
  unfold evaluateObjective
  split
  · rename_i hp
    refine ⟨rfl, .inl ?_, .inr rfl⟩
    cases h : s.objective <;> simp [h, Evaluation.isPending] at hp ⊢
  · exact .refl s

/-- Evaluating the gradient only adds to what is known. -/
theorem evaluateGradient_refines (o : Oracle α) (s : Sample α) :
    s.Refines (s.evaluateGradient o).1 := by
  unfold evaluateGradient
  split
  · rename_i hp
    refine ⟨rfl, .inr rfl, .inl ?_⟩
    cases h : s.gradient <;> simp [h, Evaluation.isPending] at hp ⊢
  · exact .refl s

/-- Evaluating the objective leaves a sample faithful. -/
theorem Faithful.evaluateObjective {o : Oracle α} {s : Sample α} (h : s.Faithful o) :
    (s.evaluateObjective o).1.Faithful o := by
  unfold Sample.evaluateObjective
  split
  · exact ⟨.inr rfl, h.gradient⟩
  · exact h

/-- Evaluating the gradient leaves a sample faithful. -/
theorem Faithful.evaluateGradient {o : Oracle α} {s : Sample α} (h : s.Faithful o) :
    (s.evaluateGradient o).1.Faithful o := by
  unfold Sample.evaluateGradient
  split
  · exact ⟨h.objective, .inr rfl⟩
  · exact h

/-- The gradient of a faithful sample is that of the oracle. -/
theorem Faithful.gradient_eq {o : Oracle α} {s : Sample α} (h : s.Faithful o) {slope : List α}
    (hv : s.gradient.value? = some slope) : (o.evaluateGradient s.position).1 = some slope := by
  rcases h.gradient with hp | he
  · rw [hp] at hv
    cases hv
  · rw [he] at hv
    cases hg : (o.evaluateGradient s.position).1 with
    | none =>
      rw [hg] at hv
      cases hv
    | some g =>
      rw [hg] at hv
      exact hv

/-- The value of a faithful sample is that of the oracle. -/
theorem Faithful.objective_eq {o : Oracle α} {s : Sample α} (h : s.Faithful o) {value : α}
    (hv : s.objective.value? = some value) :
    (o.evaluateObjective s.position).1 = some value := by
  rcases h.objective with hp | he
  · rw [hp] at hv
    cases hv
  · rw [he] at hv
    cases hg : (o.evaluateObjective s.position).1 with
    | none =>
      rw [hg] at hv
      cases hv
    | some g =>
      rw [hg] at hv
      exact hv

end Sample

/-- Gradients that the oracle gives have one entry per variable. -/
theorem Oracle.length_of_evaluateGradient {α : Type} [Scalar α] {o : Oracle α} {x slope : List α}
    (h : (o.evaluateGradient x).1 = some slope) : slope.length = o.dimension := by
  unfold Oracle.evaluateGradient at h
  split at h
  · cases h
  · split at h
    · rename_i hs
      cases h
      exact hs.1
    · cases h

namespace Workspace

variable {α : Type}

/-- A number that no sample has belongs to the absent one. -/
theorem sampleAt_eq (w : Workspace α) (id : SampleId) :
    w.sampleAt id = (w.samples[id]?).getD absentSample := Array.getD_eq_getD_getElem? ..

/-- A later workspace of the same run. -/
structure Grows (w w' : Workspace α) : Prop where
  dimension_eq : w'.dimension = w.dimension
  current_eq : w'.current = w.current
  size_le : w.samples.size ≤ w'.samples.size
  refines : ∀ id < w.samples.size, (w.sampleAt id).Refines (w'.sampleAt id)
  bundle : ∃ added, w'.bundle.toList = w.bundle.toList ++ added

namespace Grows

variable {w w' w'' : Workspace α}

/-- A workspace grows into itself. -/
@[refl] theorem refl (w : Workspace α) : w.Grows w :=
  ⟨rfl, rfl, Nat.le_refl _, fun _ _ => .refl _, [], (List.append_nil _).symm⟩

/-- What grows in two steps grows. -/
theorem trans (h : w.Grows w') (h' : w'.Grows w'') : w.Grows w'' where
  dimension_eq := h'.dimension_eq.trans h.dimension_eq
  current_eq := h'.current_eq.trans h.current_eq
  size_le := Nat.le_trans h.size_le h'.size_le
  refines id hid := (h.refines id hid).trans (h'.refines id (Nat.lt_of_lt_of_le hid h.size_le))
  bundle := by
    obtain ⟨added, ha⟩ := h.bundle
    obtain ⟨added', ha'⟩ := h'.bundle
    exact ⟨added ++ added', by rw [ha', ha, List.append_assoc]⟩

/-- As a workspace grows, points come behind those of the bundle. -/
theorem exists_added (h : w.Grows w') : ∃ added, w'.bundle.toList = w.bundle.toList ++ added ∧
    w'.bundle.size = w.bundle.size + added.length := by
  obtain ⟨added, ha⟩ := h.bundle
  have hlength := congrArg List.length ha
  rw [List.length_append, Array.length_toList, Array.length_toList] at hlength
  exact ⟨added, ha, hlength⟩

/-- As a workspace grows, so does its bundle. -/
theorem bundle_size_le (h : w.Grows w') : w.bundle.size ≤ w'.bundle.size := by
  obtain ⟨_, _, hsize⟩ := h.exists_added
  exact hsize ▸ Nat.le_add_right _ _

/-- A bundle that has got no larger is the same. -/
theorem bundle_eq_of_size_le (h : w.Grows w') (hsize : w'.bundle.size ≤ w.bundle.size) :
    w'.bundle = w.bundle := by
  obtain ⟨added, ha, hadded⟩ := h.exists_added
  obtain rfl : added = [] := List.eq_nil_of_length_eq_zero (by omega)
  exact Array.toList_inj.mp (ha.trans (List.append_nil _))

/-- A place in the bundle keeps its point. -/
theorem bundle_getElem? (h : w.Grows w') {place : Nat} (hplace : place < w.bundle.size) :
    w'.bundle[place]? = w.bundle[place]? := by
  obtain ⟨added, ha⟩ := h.bundle
  rw [← Array.getElem?_toList, ha, List.getElem?_append_left (by simpa using hplace),
    Array.getElem?_toList]

end Grows

/-- Changes outside the table of samples, the bundle and the current point. -/
theorem Grows.of_eq {w w' : Workspace α} (hd : w'.dimension = w.dimension)
    (hc : w'.current = w.current) (hs : w'.samples = w.samples) (hb : w'.bundle = w.bundle) :
    w.Grows w' where
  dimension_eq := hd
  current_eq := hc
  size_le := Nat.le_of_eq (by rw [hs])
  refines id _ := by
    rw [sampleAt, sampleAt, hs]
  bundle := ⟨[], by rw [hb, List.append_nil]⟩

variable [Scalar α]

/-- What a workspace is promised to be, for an oracle. -/
structure WellFormed (o : Oracle α) (w : Workspace α) : Prop where
  /-- The oracle takes as many variables. -/
  dimension_eq : o.dimension = w.dimension
  /-- Every sample has one entry per variable. -/
  length_position : ∀ id < w.samples.size, (w.sampleAt id).position.length = w.dimension
  /-- What is known at a sample is what the oracle gives there. -/
  faithful : ∀ id < w.samples.size, (w.sampleAt id).Faithful o
  /-- The current point is a sample. -/
  current_lt : w.current < w.samples.size
  /-- All bundle points are samples. -/
  bundle_lt : ∀ id ∈ w.bundle.toList, id < w.samples.size

end Workspace

end NonsmoothDescent
