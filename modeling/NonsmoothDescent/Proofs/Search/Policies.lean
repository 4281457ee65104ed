import NonsmoothDescent.Proofs.Search.Endings
import NonsmoothDescent.Proofs.Search.Succession

/-!
# Joint and separate evaluation

A workspace says whether the gradient at a trial point is evaluated along with the
objective or only when a cut is made there. Where the gradient can be evaluated wherever
the objective can, this has no bearing on a search: both ways lead to the same engine, with
the same cuts and the same report, and to workspaces that differ in evaluations of gradients
only. The joint way makes at least as many of them.
-/

namespace NonsmoothDescent

variable {α : Type} [Scalar α]

namespace Workspace

/-- The second workspace evaluates trial points jointly and is the first one otherwise, but
for gradients that only it knows, their number, and notices. Current point and bundle points
are known equally well. -/
structure JointlyEvaluated (w w' : Workspace α) : Prop where
  workspace_eq : w' = { w with
    samples := w'.samples
    jointEvaluation := true
    gradientEvaluations := w'.gradientEvaluations
    notices := w'.notices }
  size_eq : w'.samples.size = w.samples.size
  sample_eq : ∀ id < w.samples.size,
    w'.sampleAt id = { w.sampleAt id with gradient := (w'.sampleAt id).gradient }
  gradient : ∀ id < w.samples.size,
    (w'.sampleAt id).gradient = (w.sampleAt id).gradient ∨ (w.sampleAt id).gradient = .pending
  currentSample_eq : w'.currentSample = w.currentSample
  points_eq : w'.points = w.points
  gradients_le : w.gradientEvaluations ≤ w'.gradientEvaluations

/-- Workspaces that match but for early gradients match when both are evaluated jointly. -/
theorem Matches.jointlyEvaluated {o : Oracle α} {a : Prop} {w w' : Workspace α}
    (h : Matches o { apart := true } a w w') (hdirection : w'.direction = w.direction)
    (htrial : w'.trial = w.trial) : JointlyEvaluated w w' := by
  have hworkspace := h.eq_but_gradients hdirection htrial
  have hpaired : ∀ id < w.samples.size, Sample.Paired o true (w.sampleAt id) (w'.sampleAt id) := by
    intro id hid
    have hid' := h.points.paired id hid
    rwa [rename_plain] at hid'
  rw [(h.figures.jointEvaluation_apart rfl).2] at hworkspace
  exact ⟨hworkspace, h.points.size_eq, fun id hid => (hpaired id hid).eq_but_gradient,
    fun id hid => (hpaired id hid).gradient.imp_right And.right, h.points.currentSample_eq,
    h.points.points_eq, h.figures.gradients_le rfl⟩

end Workspace

/-- Two calls on the same workspace, the second one with joint evaluation, end with the same
engine and have asked the minimizer the same. -/
structure EndsJointly (s t : SearchState α) : Prop where
  workspace : s.workspace.JointlyEvaluated t.workspace
  engine_eq : t.engine = s.engine
  consultations_eq : Search.consultations t.journal = Search.consultations s.journal

/-- Where the gradient can be evaluated wherever the objective can, a call comes out the
same whether trial points are evaluated jointly or not. -/
theorem evaluation_policies_agree {setting : Setting α} {entry : SearchState α}
    (hdifferentiable : setting.oracle.Differentiable)
    (hw : entry.workspace.WellFormed setting.oracle)
    (hseparate : entry.workspace.jointEvaluation = false) :
    Corresponds (fun outcome s outcome' t => outcome' = outcome ∧ EndsJointly s t) EndsJointly
      (Search.computeDirection setting entry)
      (Search.computeDirection setting
        { entry with workspace := { entry.workspace with jointEvaluation := true } }) := by
  let lines := entry.engine.report.lines.toList
  let f : Twins α := { apart := true, setting, before := lines, before' := lines }
  have hmeets : f.Meets entry
      { entry with workspace := { entry.workspace with jointEvaluation := true } } :=
    ⟨rfl, rfl, hw, rfl, Bool.noConfusion, fun _ => ⟨hseparate, rfl⟩, rfl, rfl, fun _ => rfl,
      fun _ => rfl, fun _ => rfl, fun _ => .start rfl rfl rfl rfl⟩
  have hfair : f.Fair := ⟨.inl ⟨rfl, rfl⟩, fun _ => hdifferentiable⟩
  have hends : ∀ s t, f.Ends s t → EndsJointly s t := by
    intro s t h
    have htrial := h.trial_eq.trans (Workspace.rename_plain true _)
    exact ⟨h.workspace.jointlyEvaluated h.direction_eq htrial, h.engine_eq rfl rfl rfl rfl,
      h.consultations_eq⟩
  exact (hmeets.computeDirection_corresponds hfair).imp
    (fun _ _ _ _ hpost => ⟨hpost.1, hends _ _ hpost.2⟩) hends

/-- The valley has a gradient everywhere. -/
theorem differentiable_valley : valley.Differentiable := by
  intro x hx _
  obtain ⟨a, rfl⟩ := List.length_eq_one_iff.mp hx
  rfl

/-- The search across the valley with trial points evaluated jointly. -/
def jointlyAcrossValley : SearchState ℚ :=
  { acrossValley with workspace := { acrossValley.workspace with jointEvaluation := true } }

/-- Across the valley the joint way evaluates two gradients more, and all else is the same. -/
theorem evaluation_policies_agree_across_valley :
    Corresponds (fun outcome s outcome' t => outcome' = outcome ∧ EndsJointly s t) EndsJointly
        (Search.computeDirection condensing acrossValley)
        (Search.computeDirection condensing jointlyAcrossValley) ∧
      (finalState (Search.computeDirection condensing acrossValley)).workspace.gradientEvaluations
        = 5 ∧
      (finalState
        (Search.computeDirection condensing jointlyAcrossValley)).workspace.gradientEvaluations
        = 7 := by
  have hw : acrossValley.workspace.WellFormed condensing.oracle := wellFormed_acrossValley
  have halike := evaluation_policies_agree differentiable_valley hw rfl
  exact ⟨halike, by decide +kernel, by decide +kernel⟩

end NonsmoothDescent
