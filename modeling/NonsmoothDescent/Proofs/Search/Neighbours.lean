import NonsmoothDescent.Proofs.Search.Memory
import NonsmoothDescent.Proofs.Search.Moves
import NonsmoothDescent.Proofs.Workspace.Sampling
import NonsmoothDescent.Proofs.Workspace.Visits
import NonsmoothDescent.Search.Direction

/-!
# The cuts at near points

The full cuts begin with the cut at the current point. Behind it stands a cut for every place
of the bundle whose point is within the radius, in the order of the places, if objective and
gradient are there or can be had. To collect them visits the near points and no others, each
of which may stand in several places and may be the current point too.

Nothing is asked of the points but that vectors have one length. What is cached at them may
come from anywhere, failures among it that the oracle would not repeat.
-/

namespace NonsmoothDescent

variable {α : Type} [Scalar α]

namespace Workspace

/-- The lengths in a workspace fit each other, whatever is known at its samples. -/
structure Sized (o : Oracle α) (w : Workspace α) : Prop where
  dimension_eq : o.dimension = w.dimension
  length_position : ∀ id < w.samples.size, (w.sampleAt id).position.length = w.dimension
  length_gradient : ∀ id < w.samples.size, ∀ slope,
    (w.sampleAt id).gradient.value? = some slope → slope.length = w.dimension
  current_lt : w.current < w.samples.size
  bundle_lt : ∀ id ∈ w.bundle.toList, id < w.samples.size

/-- In a well-formed workspace all positions have the right length. -/
theorem WellFormed.sized {o : Oracle α} {w : Workspace α} (h : w.WellFormed o) : w.Sized o where
  dimension_eq := h.dimension_eq
  length_position := h.length_position
  length_gradient id hid _ hslope := by
    rw [Oracle.length_of_evaluateGradient ((h.faithful id hid).gradient_eq hslope), h.dimension_eq]
  current_lt := h.current_lt
  bundle_lt := h.bundle_lt

/-- The sample is within the stationarity radius of the current point. -/
def isNear (w : Workspace α) (id : SampleId) : Bool :=
  Cut.isNear w.currentSample.position w.radii.stationarity (w.sampleAt id)

/-- The near points of the bundle with their places, in order. -/
def nearby (w : Workspace α) : List (SampleId × Nat) :=
  w.bundle.toList.zipIdx.filter fun p => w.isNear p.1

variable {o : Oracle α} {w : Workspace α} {id : SampleId} {place : Nat}

/-- A sample is nearby at a place if it stands there and is near. -/
theorem mem_nearby_iff :
    (id, place) ∈ w.nearby ↔ w.bundle[place]? = some id ∧ w.isNear id = true := by
  rw [nearby, List.mem_filter, List.mem_zipIdx_iff_getElem?, Array.getElem?_toList]

/-- The places come in order. -/
theorem pairwise_nearby (w : Workspace α) : (w.nearby.map Prod.snd).Pairwise (· < ·) := by
  have hall : (w.bundle.toList.zipIdx.map Prod.snd).Pairwise (· < ·) := by
    rw [List.zipIdx_map_snd]
    exact List.pairwise_lt_range'
  exact hall.sublist (List.filter_sublist.map Prod.snd)

/-- Looking for near points finds the places of those that are nearby. -/
theorem Sized.near_eq (h : w.Sized o) :
    Cut.near w.currentSample.position w.radii.stationarity w.points =
      .ok (w.nearby.map Prod.snd) := by
  have hlength : ∀ p ∈ w.points, w.currentSample.position.length = p.position.length := by
    intro p hp
    obtain ⟨id, hid, rfl⟩ := List.mem_map.mp hp
    exact (h.length_position _ h.current_lt).trans
      (h.length_position id (h.bundle_lt id hid)).symm
  rw [Cut.near_eq _ hlength, points, nearby, List.zipIdx_map, List.filter_map, List.map_map]
  rfl

end Workspace

/-- The cut at a sample in the given place, seen from the current one: evaluated if need be,
and nothing if objective and gradient are not both to be had. -/
def Sample.cutBy? (o : Oracle α) (downshift : α) (s current : Sample α) (place : Nat) :
    Option (Cut α) := do
  let value ← s.valueBy o
  let slope ← s.slopeBy o
  let currentValue ← current.objective.value?
  return .sampled
    (Cut.shiftedBias value slope s.position current.position currentValue downshift) place

namespace Sample

variable {o : Oracle α} {s : Sample α} {downshift : α} {current : Sample α} {place : Nat}

/-- The cut is the same once the sample is settled. -/
theorem cutBy?_settled (o : Oracle α) (s : Sample α) :
    (s.settled o).cutBy? o downshift current place = s.cutBy? o downshift current place := by
  have hsettled := s.isSettled_settled o
  have hvalue : (s.settled o).valueBy o = s.valueBy o := by
    rw [hsettled.valueBy_eq, value?_settled]
  unfold cutBy?
  rw [hvalue, position_settled]
  cases hv : s.valueBy o with
  | none => rfl
  | some value =>
    have hsome : (s.valueBy o).isSome := by rw [hv]; rfl
    rw [hsettled.slopeBy_eq o (hvalue ▸ hsome), gradient_settled hsome]

/-- Oracles that agree on what the sample still needs give the same cut. -/
theorem AgreeAt.cutBy?_eq {o' : Oracle α} (h : s.AgreeAt o o') (hd : o'.dimension = o.dimension)
    (downshift : α) (current : Sample α) (place : Nat) :
    s.cutBy? o' downshift current place = s.cutBy? o downshift current place := by
  unfold cutBy?
  rw [h.valueBy_eq]
  cases hvalue : s.valueBy o with
  | none => rfl
  | some value => rw [h.slopeBy_eq hd (by rw [hvalue]; rfl)]

/-- Gradients of the right length are not replaced by others. -/
theorem length_gradient_settled {n : Nat} (hd : o.dimension = n)
    (h : ∀ slope, s.gradient.value? = some slope → slope.length = n) :
    ∀ slope, (s.settled o).gradient.value? = some slope → slope.length = n := by
  intro slope hslope
  rw [settled_eq] at hslope
  split at hslope
  · rw [evaluateGradient_fst, evaluateObjective_fst] at hslope
    dsimp only at hslope
    cases hg : s.gradient with
    | pending =>
      rw [hg, Evaluation.made] at hslope
      cases hresult : (o.evaluateGradient s.position).1 with
      | none => rw [hresult] at hslope; cases hslope
      | some found =>
        rw [hresult] at hslope
        cases hslope
        exact (Oracle.length_of_evaluateGradient hresult).trans hd
    | failed => rw [hg] at hslope; cases hslope
    | known found => exact h slope (by rw [hg] at hslope ⊢; exact hslope)
  · rw [evaluateObjective_fst] at hslope
    exact h slope hslope

end Sample

namespace Workspace

variable {o : Oracle α} {w : Workspace α} {id : SampleId} {plane : Plane α}

omit [Scalar α] in
/-- Objective and gradient of the current point are known, so there is nothing to settle. -/
theorem CurrentPlane.isSettled (h : w.CurrentPlane plane) : w.currentSample.IsSettled := by
  have hvalue := h.objective_eq
  have hslope := h.gradient_eq
  constructor
  · rw [Sample.isValued]
    cases hobjective : w.currentSample.objective with
    | pending => rw [hobjective] at hvalue; cases hvalue
    | failed | known => rfl
  · intro _
    rw [Sample.isSloped]
    cases hgradient : w.currentSample.gradient with
    | pending => rw [hgradient] at hslope; cases hslope
    | failed | known => rfl

/-- A current point that is known stays as it is when a sample is settled. -/
theorem currentSample_withBoth (h : w.CurrentPlane plane) (id : SampleId) :
    (w.withBoth o id).currentSample = w.currentSample := by
  rw [currentSample, current_withBoth, sampleAt_withBoth]
  split
  · rw [← ‹w.current = id›]
    exact h.isSettled.settled_eq o
  · rfl

/-- The current point keeps its plane when a sample is settled. -/
theorem CurrentPlane.withBoth (h : w.CurrentPlane plane) (id : SampleId) :
    (w.withBoth o id).CurrentPlane plane where
  gradient_eq := by rw [currentSample_withBoth h, h.gradient_eq]
  objective_eq := by rw [currentSample_withBoth h, h.objective_eq]

/-- Positions keep their length when a sample is settled. -/
theorem Sized.withBoth (h : w.Sized o) (id : SampleId) : (w.withBoth o id).Sized o := by
  constructor
  · rw [dimension_withBoth, h.dimension_eq]
  · intro i hi
    rw [size_withBoth] at hi
    rw [sampleAt_withBoth, dimension_withBoth]
    split
    · rw [Sample.position_settled, ← ‹i = id›, h.length_position i hi]
    · exact h.length_position i hi
  · intro i hi
    rw [size_withBoth] at hi
    rw [sampleAt_withBoth, dimension_withBoth]
    split
    · rw [← ‹i = id›]
      exact Sample.length_gradient_settled h.dimension_eq (h.length_gradient i hi)
    · exact h.length_gradient i hi
  · rw [current_withBoth, size_withBoth]
    exact h.current_lt
  · rw [bundle_withBoth, size_withBoth]
    exact h.bundle_lt

end Workspace

namespace Search

variable {setting : Setting α} {s : SearchState α} {plane : Plane α} {id : SampleId}
  {place : Nat}

/-- The cut at a place of the bundle comes of a joint evaluation of the point there. -/
theorem nearCut_run (hsized : s.workspace.Sized setting.oracle)
    (hcurrent : s.workspace.CurrentPlane plane) (hplace : s.workspace.bundle[place]? = some id) :
    nearCut setting place s =
      .ok ((s.workspace.sampleAt id).cutBy? setting.oracle setting.options.downshift
          s.workspace.currentSample place).toList
        { s with workspace := s.workspace.withBoth setting.oracle id } := by
  let w := s.workspace
  have hid : id < w.samples.size :=
    hsized.bundle_lt id (Array.mem_toList_iff.mpr (Array.mem_of_getElem? hplace))
  unfold nearCut
  rw [bind_of_ok (workspace_run s), hplace]
  dsimp only
  rw [bind_of_ok (onWorkspace_ok (Workspace.evaluateBoth_run setting.oracle id w))]
  cases hvalue : (w.sampleAt id).valueBy setting.oracle with
  | none =>
    rw [Sample.cutBy?, hvalue]
    rfl
  | some value =>
    cases hslope : (w.sampleAt id).slopeBy setting.oracle with
    | none =>
      rw [Sample.cutBy?, hvalue, hslope]
      rfl
    | some slope =>
      have hat : (w.withBoth setting.oracle id).sampleAt id =
          (w.sampleAt id).settled setting.oracle := by
        rw [Workspace.sampleAt_withBoth, if_pos rfl]
      have hposition := Sample.position_settled setting.oracle (w.sampleAt id)
      have hpoint : ((w.sampleAt id).settled setting.oracle).gradient.value? = some slope := by
        rw [Sample.gradient_settled (by rw [hvalue]; rfl), hslope]
      have hpositions : w.currentSample.position.length = (w.sampleAt id).position.length :=
        (hsized.length_position _ hsized.current_lt).trans (hsized.length_position id hid).symm
      have hslopes : slope.length = (w.sampleAt id).position.length :=
        (Sample.length_gradient_settled hsized.dimension_eq (hsized.length_gradient id hid)
          slope hpoint).trans (hsized.length_position id hid).symm
      have hcut := Cut.atPoint_eq place setting.options.downshift hpoint
        ((Sample.value?_settled setting.oracle _).trans hvalue) hcurrent.objective_eq
        (hpositions.trans (by rw [hposition])) (hslopes.trans (by rw [hposition]))
      rw [hposition, ← hat] at hcut
      change (workspace >>= fun v => orFault (Cut.atPoint (v.sampleAt id) v.currentSample place
        setting.options.downshift) >>= fun cut => pure [cut]) _ = _
      rw [bind_of_ok (workspace_run _), Workspace.currentSample_withBoth hcurrent,
        bind_of_ok (orFault_ok hcut), Sample.cutBy?, hvalue, hslope, hcurrent.objective_eq]
      rfl

/-- So it is with a list of places, where later cuts do not depend on earlier visits. -/
theorem foldlM_nearCut_run {pairs : List (SampleId × Nat)}
    (hsized : s.workspace.Sized setting.oracle) (hcurrent : s.workspace.CurrentPlane plane)
    (hpairs : ∀ p ∈ pairs, s.workspace.bundle[p.2]? = some p.1) (cuts : List (Cut α)) :
    ((pairs.map Prod.snd).foldlM
        (fun cuts place => do return cuts ++ (← nearCut setting place)) cuts : SearchM α _) s =
      .ok (cuts ++ pairs.filterMap fun p => (s.workspace.sampleAt p.1).cutBy? setting.oracle
          setting.options.downshift s.workspace.currentSample p.2)
        { s with workspace := s.workspace.visited setting.oracle (pairs.map Prod.fst) } := by
  induction pairs generalizing s cuts with
  | nil =>
    rw [List.filterMap_nil, List.append_nil]
    rfl
  | cons p pairs ih =>
    obtain ⟨hp, hrest⟩ := List.forall_mem_cons.mp hpairs
    let w := s.workspace.withBoth setting.oracle p.1
    let new := ((s.workspace.sampleAt p.1).cutBy? setting.oracle setting.options.downshift
      s.workspace.currentSample p.2).toList
    have hfirst : (nearCut setting p.2 >>= fun new => (pure (cuts ++ new) : SearchM α _)) s =
        .ok (cuts ++ new) { s with workspace := w } := by
      rw [bind_of_ok (nearCut_run hsized hcurrent hp)]
      rfl
    have hlater := ih (s := { s with workspace := w }) (hsized.withBoth p.1)
      (hcurrent.withBoth p.1) (fun q hq => by rw [Workspace.bundle_withBoth, hrest q hq])
      (cuts ++ new)
    have hsame : ∀ q : SampleId × Nat,
        (w.sampleAt q.1).cutBy? setting.oracle setting.options.downshift w.currentSample q.2 =
          (s.workspace.sampleAt q.1).cutBy? setting.oracle setting.options.downshift
            s.workspace.currentSample q.2 := by
      intro q
      rw [Workspace.currentSample_withBoth hcurrent, Workspace.sampleAt_withBoth]
      split
      · rw [Sample.cutBy?_settled, ‹q.1 = p.1›]
      · rfl
    rw [List.map_cons, List.foldlM_cons]
    change ((nearCut setting p.2 >>= fun new => pure (cuts ++ new)) >>= _) s = _
    rw [bind_of_ok hfirst, hlater, funext hsame, List.append_assoc, List.filterMap_cons]
    congr 2
    cases h : (s.workspace.sampleAt p.1).cutBy? setting.oracle setting.options.downshift
      s.workspace.currentSample p.2 <;> simp [new, h]

/-- The cut at the current point and those at the near points, and the visits that they
come of. -/
theorem collectCuts_run (hsized : s.workspace.Sized setting.oracle)
    (hcurrent : s.workspace.CurrentPlane plane) :
    collectCuts setting s =
      .ok (plane.toCut :: s.workspace.nearby.filterMap fun p =>
          (s.workspace.sampleAt p.1).cutBy? setting.oracle setting.options.downshift
            s.workspace.currentSample p.2)
        { s with workspace :=
          s.workspace.visited setting.oracle (s.workspace.nearby.map Prod.fst) } := by
  unfold collectCuts
  rw [bind_of_ok (workspace_run s), bind_of_ok (orFault_ok hcurrent.atCurrent_eq),
    bind_of_ok (orFault_ok hsized.near_eq), foldlM_nearCut_run hsized hcurrent
      (fun p hp => (Workspace.mem_nearby_iff.mp hp).1) [plane.toCut]]
  rfl

/-- Collecting the full cuts when the current point is evaluated. They are its own cut and,
in the order of their places, those of the near points that have or can be given objective
and gradient. Near points are settled, and nothing else changes but the counters, by the
first evaluations, and the notices. Another oracle makes no difference where it agrees on
what the near points still need. -/
theorem collectCuts_complete (hsized : s.workspace.Sized setting.oracle)
    (hcurrent : s.workspace.CurrentPlane plane) :
    let w := s.workspace
    let o := setting.oracle
    let near := w.nearby.map Prod.fst
    (∀ id place, (id, place) ∈ w.nearby ↔ w.bundle[place]? = some id ∧ w.isNear id = true) ∧
    (w.nearby.map Prod.snd).Pairwise (· < ·) ∧
    ∃ w' : Workspace α,
      collectCuts setting s =
        .ok (plane.toCut :: w.nearby.filterMap fun p =>
            (w.sampleAt p.1).cutBy? o setting.options.downshift w.currentSample p.2)
          { s with workspace := w' } ∧
      w' = { w with
        samples := w'.samples
        objectiveEvaluations := w.objectiveEvaluations +
          (List.range w.samples.size).countP (fun id =>
            decide (id ∈ near) && (w.sampleAt id).objective.isPending)
        gradientEvaluations := w.gradientEvaluations +
          (List.range w.samples.size).countP (fun id =>
            (decide (id ∈ near) && ((w.sampleAt id).valueBy o).isSome) &&
              (w.sampleAt id).gradient.isPending)
        notices := w'.notices } ∧
      w'.samples.size = w.samples.size ∧
      (∀ id, w'.sampleAt id =
        if id ∈ near then (w.sampleAt id).settled o else w.sampleAt id) ∧
      (∀ id, (w'.sampleAt id).position = (w.sampleAt id).position) ∧
      ∀ o' : Oracle α, o'.dimension = o.dimension →
        (∀ id ∈ near, (w.sampleAt id).AgreeAt o o') →
        collectCuts { setting with oracle := o' } s = collectCuts setting s := by
  intro w o near
  obtain ⟨hobjectives, hgradients⟩ := Workspace.counters_visited o near w
  have hsame := Workspace.eq_of_withoutEvaluations_eq
    (Workspace.withoutEvaluations_visited o near w)
  have hat := Workspace.sampleAt_visited o near w
  refine ⟨fun _ _ => Workspace.mem_nearby_iff, w.pairwise_nearby, w.visited o near,
    collectCuts_run hsized hcurrent, ?_, Workspace.size_visited o near w, hat, fun id => ?_,
    fun o' hd hagree => ?_⟩
  · rw [← hobjectives, ← hgradients]
    exact hsame
  · rw [hat]
    split
    · exact Sample.position_settled o _
    · rfl
  · have hsized' : w.Sized o' := { hsized with dimension_eq := hd.trans hsized.dimension_eq }
    have hother : collectCuts { setting with oracle := o' } s =
        .ok (plane.toCut :: w.nearby.filterMap fun p =>
            (w.sampleAt p.1).cutBy? o' setting.options.downshift w.currentSample p.2)
          { s with workspace := w.visited o' near } := collectCuts_run hsized' hcurrent
    have hcuts := List.filterMap_congr fun p (hp : p ∈ w.nearby) =>
      (hagree p.1 (List.mem_map_of_mem hp)).cutBy?_eq hd setting.options.downshift
        w.currentSample p.2
    rw [hother, collectCuts_run hsized hcurrent, Workspace.visited_congr hd hagree, hcuts]

/-! ## Points around the edge of a domain -/

/-- The current point stands in the bundle among a point at the very radius, in two places, a
failure that the oracle would not repeat, a point whose gradient is still to be evaluated,
and one that is far. -/
def aroundEdge : SearchState ℚ where
  workspace :=
    { dimension := 1
      samples := #[
        { position := [1], objective := .known 1, gradient := .known [2] },
        { position := [2] },
        { position := [1 / 2], objective := .failed },
        { position := [-1] },
        { position := [0], objective := .known 0 }]
      bundle := #[1, 3, 0, 1, 2, 4]
      direction := [0]
      radii := ⟨1, 1⟩
      startTime := 0
      timeLimit := 10000
      searchTime := 0 }
  engine := {}

/-- All positions around the edge have one entry. -/
theorem sized_aroundEdge : aroundEdge.workspace.Sized halfLine where
  dimension_eq := rfl
  length_position := by decide +kernel
  length_gradient id hid slope hslope := by
    have hcases : id = 0 ∨ id = 1 ∨ id = 2 ∨ id = 3 ∨ id = 4 := by
      change id < 5 at hid
      omega
    rcases hcases with rfl | rfl | rfl | rfl | rfl
    · cases hslope
      rfl
    all_goals cases hslope
  current_lt := by decide +kernel
  bundle_lt := by decide +kernel

/-- Four of the six places give cuts. The objective is evaluated at one point, which stands in
two places, and the gradient at this and one more. -/
theorem four_cuts_around_edge :
    ∃ cuts w', collectCuts standing aroundEdge = .ok cuts { aroundEdge with workspace := w' } ∧
      cuts.map Cut.position? = [none, some 0, some 2, some 3, some 5] ∧
      w'.objectiveEvaluations = 1 ∧ w'.gradientEvaluations = 2 ∧
      w'.bundle = #[1, 3, 0, 1, 2, 4] := by
  have hsized : aroundEdge.workspace.Sized standing.oracle := sized_aroundEdge
  have hcurrent : aroundEdge.workspace.CurrentPlane ⟨[2], 1⟩ := ⟨rfl, rfl⟩
  obtain ⟨-, -, w', hrun, hw, -⟩ := collectCuts_complete hsized hcurrent
  refine ⟨_, w', hrun, by decide +kernel, ?_⟩
  rw [hw]
  dsimp only
  decide +kernel

end Search

end NonsmoothDescent
