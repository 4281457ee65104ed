import NonsmoothDescent.Proofs.Action
import NonsmoothDescent.Workspace

/-!
# Relations along operations on a workspace

What operations leave alone, or change in one direction only, is told by a relation
between the workspaces before and after. If the relation is reflexive and transitive and
holds along the simple operations, it holds along everything that is made of them. The
simple operations come in two lists. The first is that of sampling: evaluations, new
samples of which nothing is known, and additions to the bundle. The second is that of a
search, which besides notes, counts, reads the clock, and sets direction and radii.
-/

namespace NonsmoothDescent

variable {α : Type}

namespace Sample

/-- Nothing is known of a sample that is made from its entries. -/
theorem pending_of_create {n : Nat} {entries : List α} {s : Sample α}
    (h : create n entries = .ok s) : s.objective = .pending ∧ s.gradient = .pending := by
  unfold create at h
  split at h
  · cases h
    exact ⟨rfl, rfl⟩
  · cases h

/-- Nor of one that is made from nested numbers. -/
theorem pending_of_ofNested {n : Nat} {numbers : Nested α} {s : Sample α}
    (h : ofNested n numbers = .ok s) : s.objective = .pending ∧ s.gradient = .pending := by
  unfold ofNested at h
  split at h
  · exact pending_of_create h
  · cases h

variable [Scalar α]

/-- Nor of one that is made at some distance from another. -/
theorem pending_of_shifted {n : Nat} {base s : Sample α} {a b : α} {d : Tensor α}
    (h : base.shifted n a b d = .ok s) : s.objective = .pending ∧ s.gradient = .pending := by
  unfold shifted at h
  dsimp only at h
  split at h
  · exact pending_of_create h
  · cases h

end Sample

variable [Scalar α]

/-- A relation between workspaces that holds along the operations of sampling. -/
structure AlongSampling (o : Oracle α) (rel : Workspace α → Workspace α → Prop) : Prop where
  objective : ∀ id, Along rel (Workspace.evaluateObjective o id true)
  gradient : ∀ id, Along rel (Workspace.evaluateGradient o id true)
  sample : ∀ (w : Workspace α) (s : Sample α), s.objective = .pending → s.gradient = .pending →
    rel w { w with samples := w.samples.push s }
  trial : ∀ (w : Workspace α) id, rel w { w with trial := id }
  bundle : ∀ (w : Workspace α) id, rel w { w with bundle := w.bundle.push id }

/-- A relation that also holds along the other operations of a search on its workspace. -/
structure AlongSearch (o : Oracle α) (rel : Workspace α → Workspace α → Prop) : Prop extends
    AlongSampling o rel where
  notices : ∀ (w : Workspace α) (new : List (Notice α)),
    rel w { w with notices := w.notices ++ new }
  clock : ∀ (w : Workspace α) k, rel w { w with clockReadings := k }
  direction : ∀ (w : Workspace α) d, rel w { w with direction := d }
  counters : ∀ (w : Workspace α) inner minimizer,
    rel w { w with innerIterations := inner, minimizerIterations := minimizer }
  radii : ∀ (w : Workspace α) r, rel w { w with radii := r }

variable {o : Oracle α} {rel : Workspace α → Workspace α → Prop}

/-- A place is added to the bundle. -/
theorem AlongSampling.addToBundle (h : AlongSampling o rel) (id : SampleId) :
    Along rel (Workspace.addToBundle id) := fun w => h.bundle w id

/-- Notices are added to those at hand. -/
theorem AlongSearch.note (h : AlongSearch o rel) (new : List (Notice α)) :
    Along rel (Workspace.note new) := fun w => h.notices w new

/-- The clock is read once for the time since the start. -/
theorem AlongSearch.elapsed (h : AlongSearch o rel) (clock : Nat → α) :
    Along rel (Workspace.elapsed clock) := fun w => h.clock w _

variable [Std.Refl rel]

omit [Scalar α] in
/-- What follows a result that may be a fault is done only with what it gives. -/
theorem Workspace.along_orFault_bind {β γ : Type} {result : Except (Fault α) β}
    {f : β → WorkspaceM α γ} (h : ∀ b, result = .ok b → Along rel (f b)) :
    Along rel (orFault result >>= f) := by
  cases result with
  | error fault => exact Along.of_same fun _ => rfl
  | ok b => exact h b rfl

variable [Trans rel rel rel]

namespace AlongSampling

/-- A joint evaluation is one of the objective and possibly one of the gradient. -/
theorem evaluateBoth (h : AlongSampling o rel) (id : SampleId) :
    Along rel (Workspace.evaluateBoth o id true) :=
  (h.objective id).bind fun _ => .ite (h.gradient id) (.of_pure _)

/-- The trial point is evaluated in one of two ways. -/
theorem evaluateTrial (h : AlongSampling o rel) : Along rel (Workspace.evaluateTrial o) :=
  Along.of_get.bind fun _ => .ite (h.evaluateBoth _) (h.objective _)

/-- The trial point is a new sample. -/
theorem makeTrial (h : AlongSampling o rel) (stepsize : α) :
    Along rel (Workspace.makeTrial stepsize) :=
  Along.of_get.bind fun _ => Workspace.along_orFault_bind fun _ hs =>
    have hadd : Along rel (Workspace.addSample _) := fun w =>
      h.sample w _ (Sample.pending_of_shifted hs).1 (Sample.pending_of_shifted hs).2
    hadd.bind fun _ w => h.trial w _

/-- A sample is made from nested numbers. -/
theorem makeSample (h : AlongSampling o rel) (numbers : Nested α) :
    Along rel (Workspace.makeSample numbers) :=
  Along.of_get.bind fun _ => Workspace.along_orFault_bind fun _ hs w =>
    h.sample w _ (Sample.pending_of_ofNested hs).1 (Sample.pending_of_ofNested hs).2

end AlongSampling

/-- A direction that does not fit is refused. -/
theorem AlongSearch.setDirection (h : AlongSearch o rel) (d : Tensor α) :
    Along rel (Workspace.setDirection d) := by
  refine Along.of_get.bind fun w => ?_
  split
  · exact fun w => h.direction w _
  · exact .of_throw _

end NonsmoothDescent
