import NonsmoothDescent.Proofs.Workspace.Cuts

/-!
# Planes at sampled points

The plane at the current point has the gradient and the value there. The plane at another
sample, seen from the current point, has the gradient there and the downshifted bias. A
cut that samples a place of the bundle denotes the plane at the point in that place, now
and in every later workspace. The near points are those within the radius, in the order
of their places.
-/

namespace NonsmoothDescent

variable {α : Type} [Scalar α]

/-- The cut with the slope and the bias of a plane. -/
def Plane.toCut {α : Type} (p : Plane α) : Cut α := .owned p.bias p.slope

/-- The plane at the current point: its gradient and its value. -/
structure Workspace.CurrentPlane {α : Type} (w : Workspace α) (p : Plane α) : Prop where
  gradient_eq : w.currentSample.gradient.value? = some p.slope
  objective_eq : w.currentSample.objective.value? = some p.bias

namespace Workspace.CurrentPlane

variable {w w' : Workspace α} {p q : Plane α} {o : Oracle α}

omit [Scalar α] in
/-- The current point has one plane only. -/
theorem unique (hp : w.CurrentPlane p) (hq : w.CurrentPlane q) : p = q := by
  have hslope := Option.some.inj (hp.gradient_eq.symm.trans hq.gradient_eq)
  have hbias := Option.some.inj (hp.objective_eq.symm.trans hq.objective_eq)
  cases p
  cases q
  exact congrArg₂ Plane.mk hslope hbias

omit [Scalar α] in
/-- The current point keeps its plane as the workspace grows. -/
theorem grows (h : w.CurrentPlane p) (hg : w.Grows w') (hc : w.current < w.samples.size) :
    w'.CurrentPlane p where
  gradient_eq := (hg.currentSample hc).gradient_value? h.gradient_eq
  objective_eq := (hg.currentSample hc).objective_value? h.objective_eq

omit [Scalar α] in
/-- The cut at the current point owns its plane. -/
theorem atCurrent_eq (h : w.CurrentPlane p) : Cut.atCurrent w.currentSample = .ok p.toCut :=
  Cut.atCurrent_eq h.gradient_eq h.objective_eq

/-- The cut at the current point denotes its plane. -/
theorem denotes (h : w.CurrentPlane p) (hw : w.WellFormed o) : p.toCut.Denotes w p := by
  have hgradient := (hw.faithful _ hw.current_lt).gradient_eq h.gradient_eq
  exact Cut.denotes_owned w
    ((Oracle.length_of_evaluateGradient hgradient).trans hw.dimension_eq) p.bias

end Workspace.CurrentPlane

namespace Sample

/-- The plane at a sample, seen from the current one; nothing unless value and gradient
are known there and the value at the current sample. -/
def plane? (downshift : α) (s current : Sample α) : Option (Plane α) := do
  let slope ← s.gradient.value?
  let value ← s.objective.value?
  let currentValue ← current.objective.value?
  return ⟨slope, Cut.shiftedBias value slope s.position current.position currentValue downshift⟩

/-- A sample has a plane if objective and gradient are known, here and at the current point. -/
theorem plane?_eq_some_iff {downshift : α} {current s : Sample α} {plane : Plane α} :
    s.plane? downshift current = some plane ↔
      ∃ slope value currentValue, s.gradient.value? = some slope ∧
        s.objective.value? = some value ∧ current.objective.value? = some currentValue ∧
        plane = ⟨slope, Cut.shiftedBias value slope s.position current.position currentValue
          downshift⟩ := by
  unfold plane?
  cases s.gradient.value? <;> cases s.objective.value? <;> cases current.objective.value? <;>
    simp [eq_comm]

/-- The plane of a sample stays as more becomes known. -/
theorem Refines.plane? {downshift : α} {s t current later : Sample α} {plane : Plane α}
    (h : s.Refines t) (hc : current.Refines later)
    (hp : s.plane? downshift current = some plane) : t.plane? downshift later = some plane := by
  obtain ⟨slope, value, currentValue, hg, ho, hv, rfl⟩ := plane?_eq_some_iff.mp hp
  refine plane?_eq_some_iff.mpr ⟨slope, value, currentValue, h.gradient_value? hg,
    h.objective_value? ho, hc.objective_value? hv, ?_⟩
  rw [h.position_eq, hc.position_eq]

end Sample

namespace Cut

/-- The cut at a point has the bias of its plane. -/
theorem atPoint_of_plane? {downshift : α} {point current : Sample α} {plane : Plane α}
    (h : point.plane? downshift current = some plane) (place : Int)
    (hl : current.position.length = point.position.length)
    (hs : plane.slope.length = point.position.length) :
    atPoint point current place downshift = .ok (.sampled plane.bias place) := by
  obtain ⟨slope, value, currentValue, hg, ho, hv, rfl⟩ := Sample.plane?_eq_some_iff.mp h
  exact atPoint_eq place downshift hg ho hv hl hs

/-- The cut samples a place of the bundle, where there is the point with the number `id`,
and the plane is the one at that point. -/
structure Samples (downshift : α) (w : Workspace α) (place : Nat) (id : SampleId) (cut : Cut α)
    (plane : Plane α) : Prop where
  id_eq : w.bundle[place]? = some id
  plane_eq : (w.sampleAt id).plane? downshift w.currentSample = some plane
  cut_eq : cut = .sampled plane.bias place

namespace Samples

variable {downshift : α} {w w' : Workspace α} {place : Nat} {id : SampleId} {cut : Cut α}
  {plane : Plane α} {o : Oracle α}

/-- The sampled place is in the bundle. -/
theorem mem_bundle (h : Samples downshift w place id cut plane) : id ∈ w.bundle.toList :=
  Array.mem_toList_iff.mpr (Array.mem_of_getElem? h.id_eq)

/-- The sampled plane has a slope with one entry per variable. -/
theorem length_slope (h : Samples downshift w place id cut plane) (hw : w.WellFormed o) :
    plane.slope.length = w.dimension := by
  obtain ⟨slope, _, _, hg, _, _, rfl⟩ := Sample.plane?_eq_some_iff.mp h.plane_eq
  have hgradient := (hw.faithful id (hw.bundle_lt id h.mem_bundle)).gradient_eq hg
  exact (Oracle.length_of_evaluateGradient hgradient).trans hw.dimension_eq

/-- A cut that samples a place denotes the plane there. -/
theorem denotes (h : Samples downshift w place id cut plane) (hw : w.WellFormed o) :
    cut.Denotes w plane := by
  obtain ⟨slope, value, currentValue, hg, _, _, hplane⟩ :=
    Sample.plane?_eq_some_iff.mp h.plane_eq
  have hlt : place < w.bundle.size := (Array.getElem?_eq_some_iff.mp h.id_eq).1
  have hpoint : w.pointAt place = some (w.sampleAt id) := by
    rw [Workspace.pointAt, Position.resolve?_ofNat hlt]
    simp [h.id_eq]
  rw [h.cut_eq]
  refine ⟨?_, rfl, h.length_slope hw, fun i hi => ?_⟩
  · refine coefficient_sampled_iff.mpr ⟨_, hpoint, ?_⟩
    rw [hg, hplane]
  · cases hi
    exact Int.natCast_nonneg place

/-- A cut samples the same plane as the workspace grows. -/
theorem grows (h : Samples downshift w place id cut plane) (hw : w.WellFormed o)
    (hg : w.Grows w') : Samples downshift w' place id cut plane where
  id_eq := by
    rw [hg.bundle_getElem? (Array.getElem?_eq_some_iff.mp h.id_eq).1, h.id_eq]
  plane_eq := (hg.refines id (hw.bundle_lt id h.mem_bundle)).plane?
    (hg.currentSample hw.current_lt) h.plane_eq
  cut_eq := h.cut_eq

end Samples

section Near

/-- Whether a sample is within a distance of a vector. -/
def isNear (x : List α) (radius : α) (s : Sample α) : Bool :=
  decide (Vec.normInf (List.zipWith (· - ·) x s.position) ≤ radius)

/-- Looking through points of the right length finds the near ones in order. -/
theorem foldlM_near {x : List α} {radius : α} {points : List (Sample α × Nat)}
    (h : ∀ p ∈ points, x.length = p.1.position.length) (found : List Nat) :
    points.foldlM (fun found (point, place) => do
      return if (← point.distance x) ≤ radius then found ++ [place] else found) found =
      (.ok (found ++ (points.filter fun p => isNear x radius p.1).map Prod.snd) :
        Except (Fault α) (List Nat)) := by
  induction points generalizing found with
  | nil => simp; rfl
  | cons p points ih =>
    obtain ⟨hp, hrest⟩ := List.forall_mem_cons.mp h
    rw [List.foldlM_cons]
    simp only [Sample.distance_eq hp]
    change List.foldlM _ (if _ then _ else _) points = _
    rw [ih hrest]
    by_cases hnear : Vec.normInf (List.zipWith (· - ·) x p.1.position) ≤ radius
    · simp [isNear, hnear]
    · simp [isNear, hnear]

/-- The near points are all those within the radius, in the order of their places. -/
theorem near_eq {x : List α} {points : List (Sample α)} (radius : α)
    (h : ∀ p ∈ points, x.length = p.position.length) :
    near x radius points =
      .ok ((points.zipIdx.filter fun p => isNear x radius p.1).map Prod.snd) := by
  have hl : ∀ p ∈ points.zipIdx, x.length = p.1.position.length :=
    fun p hp => h p.1 (List.fst_mem_of_mem_zipIdx hp)
  unfold near
  rw [foldlM_near hl, List.nil_append]

end Near

end Cut

end NonsmoothDescent
