import NonsmoothDescent.Proofs.Subproblem.Solve
import NonsmoothDescent.Proofs.Workspace.Operations

/-!
# Cuts in a workspace

A cut denotes a plane once its slope is looked up in the workspace. The plane stays the
same while the workspace grows: places in the bundle are counted from the start, and a
gradient that is known never changes. Cuts made at the current point, at a bundle point
and by aggregation denote the planes that their definitions say.
-/

namespace NonsmoothDescent

variable {α : Type}

namespace Cut

/-- In the workspace, the cut has the slope and the bias of the plane. -/
structure Denotes (w : Workspace α) (cut : Cut α) (plane : Plane α) : Prop where
  coefficient_eq : cut.coefficient w.pointAt = .ok plane.slope
  bias_eq : cut.bias = plane.bias
  length_eq : plane.slope.length = w.dimension
  position_nonneg : ∀ i, cut.position? = some i → 0 ≤ i

/-- In the workspace, the cuts are the planes, in order. -/
abbrev DenoteAll (w : Workspace α) (cuts : List (Cut α)) (planes : List (Plane α)) : Prop :=
  List.Forall₂ (Denotes w) cuts planes

/-- The cut denotes some plane. -/
def Valid (w : Workspace α) (cut : Cut α) : Prop := ∃ plane, cut.Denotes w plane

/-- The cut denotes a plane that obeys the law. -/
def Obeys (P : Workspace α → Plane α → Prop) (w : Workspace α) (cut : Cut α) : Prop :=
  ∃ plane, cut.Denotes w plane ∧ P w plane

/-- A cut denotes one plane only. -/
theorem Denotes.unique {w : Workspace α} {cut : Cut α} {p q : Plane α} (hp : cut.Denotes w p)
    (hq : cut.Denotes w q) : p = q := by
  have hs : p.slope = q.slope :=
    Except.ok.inj (hp.coefficient_eq.symm.trans hq.coefficient_eq)
  have hb : p.bias = q.bias := by rw [← hp.bias_eq, hq.bias_eq]
  cases p
  cases q
  simp_all

/-- Cuts denote one list of planes only. -/
theorem DenoteAll.unique {w : Workspace α} {cuts : List (Cut α)} {ps qs : List (Plane α)}
    (hp : DenoteAll w cuts ps) (hq : DenoteAll w cuts qs) : ps = qs := by
  induction hp generalizing qs with
  | nil => cases hq; rfl
  | cons h _ ih =>
    cases hq with
    | cons h' hrest => rw [h.unique h', ih hrest]

/-- Valid cuts denote planes. -/
theorem denoteAll_of_valid {w : Workspace α} {cuts : List (Cut α)}
    (h : ∀ cut ∈ cuts, cut.Valid w) : ∃ planes, DenoteAll w cuts planes := by
  induction cuts with
  | nil => exact ⟨[], .nil⟩
  | cons cut cuts ih =>
    obtain ⟨⟨plane, hplane⟩, hrest⟩ := List.forall_mem_cons.mp h
    obtain ⟨planes, hplanes⟩ := ih hrest
    exact ⟨plane :: planes, .cons hplane hplanes⟩

/-- Cuts that denote planes are valid. -/
theorem DenoteAll.valid {w : Workspace α} {cuts : List (Cut α)} {planes : List (Plane α)}
    (h : DenoteAll w cuts planes) : ∀ cut ∈ cuts, cut.Valid w := by
  induction h with
  | nil => simp
  | cons h _ ih => exact List.forall_mem_cons.mpr ⟨⟨_, h⟩, ih⟩

/-- The plane of a cut in the list is in the list of planes. -/
theorem DenoteAll.exists_mem {w : Workspace α} {cuts : List (Cut α)} {planes : List (Plane α)}
    (h : DenoteAll w cuts planes) {cut : Cut α} (hcut : cut ∈ cuts) :
    ∃ p ∈ planes, cut.Denotes w p := by
  induction h with
  | nil => exact absurd hcut List.not_mem_nil
  | cons h _ ih =>
    rcases List.mem_cons.mp hcut with rfl | hrest
    · exact ⟨_, List.mem_cons_self, h⟩
    · obtain ⟨p, hp, hdenotes⟩ := ih hrest
      exact ⟨p, List.mem_cons_of_mem _ hp, hdenotes⟩

/-- A law that all cuts obey holds of all planes. -/
theorem DenoteAll.obey {P : Workspace α → Plane α → Prop} {w : Workspace α}
    {cuts : List (Cut α)} {planes : List (Plane α)} (hplanes : DenoteAll w cuts planes)
    (h : ∀ cut ∈ cuts, cut.Obeys P w) : ∀ p ∈ planes, P w p := by
  induction hplanes with
  | nil => exact fun p hp => absurd hp List.not_mem_nil
  | cons hcut _ ih =>
    obtain ⟨⟨p, hp, hobeys⟩, hrest⟩ := List.forall_mem_cons.mp h
    exact List.forall_mem_cons.mpr ⟨hcut.unique hp ▸ hobeys, ih hrest⟩

/-- The planes of cuts have slopes with one entry per variable. -/
theorem DenoteAll.length_slope {w : Workspace α} {cuts : List (Cut α)} {planes : List (Plane α)}
    (h : DenoteAll w cuts planes) : ∀ p ∈ planes, p.slope.length = w.dimension := by
  induction h with
  | nil => simp
  | cons h _ ih => exact List.forall_mem_cons.mpr ⟨h.length_eq, ih⟩

/-- Joined cuts denote joined planes. -/
theorem DenoteAll.append {w : Workspace α} {cuts cuts' : List (Cut α)}
    {planes planes' : List (Plane α)} (h : DenoteAll w cuts planes)
    (h' : DenoteAll w cuts' planes') : DenoteAll w (cuts ++ cuts') (planes ++ planes') :=
  List.rel_append h h'

/-- The planes of a longer list of cuts begin with those of its beginning. -/
theorem DenoteAll.exists_append {w : Workspace α} {cuts more : List (Cut α)}
    {old planes : List (Plane α)} (hold : DenoteAll w cuts old)
    (h : DenoteAll w (cuts ++ more) planes) : ∃ new, planes = old ++ new := by
  obtain ⟨new, hnew⟩ := denoteAll_of_valid fun cut hcut =>
    h.valid cut (List.mem_append_right cuts hcut)
  exact ⟨new, h.unique (hold.append hnew)⟩

/-- A cut that owns a slope of the right length denotes the plane with it. -/
theorem denotes_owned (w : Workspace α) {slope : List α} (h : slope.length = w.dimension)
    (bias : α) : (Cut.owned bias slope).Denotes w ⟨slope, bias⟩ :=
  ⟨rfl, rfl, h, fun _ hi => by cases hi⟩

end Cut

namespace Workspace

variable {w w' : Workspace α}

/-- A place in the bundle keeps its point, which may only become better known. -/
theorem Grows.pointAt (h : w.Grows w') (hb : ∀ id ∈ w.bundle.toList, id < w.samples.size)
    {i : Int} (hi : 0 ≤ i) {s : Sample α} (hs : w.pointAt i = some s) :
    ∃ t, w'.pointAt i = some t ∧ s.Refines t := by
  obtain ⟨place, rfl⟩ := Int.eq_ofNat_of_zero_le hi
  obtain ⟨found, hfound, hsample⟩ := Option.bind_eq_some_iff.mp hs
  have hlt := Position.lt_of_resolve? hfound
  have hplace : found = place := by
    simp only [Position.resolve?, Option.ite_none_right_eq_some, Option.some.injEq] at hfound
    omega
  subst hplace
  obtain ⟨id, hid, rfl⟩ := Option.map_eq_some_iff.mp hsample
  have hid' : w'.bundle[found]? = some id := (h.bundle_getElem? hlt).trans hid
  refine ⟨w'.sampleAt id, ?_, h.refines id (hb id ?_)⟩
  · rw [Workspace.pointAt, Position.resolve?_ofNat (hlt.trans_le h.bundle_size_le)]
    simp [hid']
  · exact Array.mem_toList_iff.mpr (Array.mem_of_getElem? hid)

/-- As a workspace grows, the current point is only known better. -/
theorem Grows.currentSample (h : w.Grows w') (hc : w.current < w.samples.size) :
    w.currentSample.Refines w'.currentSample := by
  unfold Workspace.currentSample
  rw [h.current_eq]
  exact h.refines _ hc

end Workspace

namespace Cut

section Growth

variable {w w' : Workspace α}

/-- The coefficient of a sampled cut is the gradient at its place. -/
theorem coefficient_sampled_iff {points : PointLookup α} {bias : α} {i : Int} {slope : List α} :
    (Cut.sampled bias i).coefficient points = .ok slope ↔
      ∃ s, points i = some s ∧ s.gradient.value? = some slope := by
  cases hp : points i with
  | none => simp [coefficient, coefficient?, hp, bind, Except.bind]
  | some s =>
    cases hg : s.gradient.value? with
    | none =>
      simp [coefficient, coefficient?, hp, hg, bind, Except.bind, throw, throwThe,
        MonadExceptOf.throw]
    | some g => simp [coefficient, coefficient?, hp, hg, bind, Except.bind, pure, Except.pure]

/-- A cut denotes the same plane in every later workspace. -/
theorem Denotes.grows (h : w.Grows w') (hb : ∀ id ∈ w.bundle.toList, id < w.samples.size)
    {cut : Cut α} {plane : Plane α} (hd : cut.Denotes w plane) : cut.Denotes w' plane := by
  refine ⟨?_, hd.bias_eq, hd.length_eq.trans h.dimension_eq.symm, hd.position_nonneg⟩
  cases cut with
  | owned bias slope => exact hd.coefficient_eq
  | sampled bias i =>
    obtain ⟨s, hs, hg⟩ := coefficient_sampled_iff.mp hd.coefficient_eq
    obtain ⟨t, ht, hr⟩ := h.pointAt hb (hd.position_nonneg i rfl) hs
    exact coefficient_sampled_iff.mpr ⟨t, ht, hr.gradient_value? hg⟩

/-- Cuts denote the same planes as the workspace grows. -/
theorem DenoteAll.grows (h : w.Grows w') (hb : ∀ id ∈ w.bundle.toList, id < w.samples.size)
    {cuts : List (Cut α)} {planes : List (Plane α)} (hd : DenoteAll w cuts planes) :
    DenoteAll w' cuts planes := hd.imp fun _ _ hd => hd.grows h hb

/-- Cuts stay valid as the workspace grows. -/
theorem Valid.grows (h : w.Grows w') (hb : ∀ id ∈ w.bundle.toList, id < w.samples.size)
    {cut : Cut α} (hv : cut.Valid w) : cut.Valid w' := by
  obtain ⟨plane, hplane⟩ := hv
  exact ⟨plane, hplane.grows h hb⟩

end Growth

section Lists

variable {w : Workspace α} {cuts : List (Cut α)} {planes : List (Plane α)}

/-- The coefficients of cuts are the slopes of their planes. -/
theorem DenoteAll.mapM_coefficient (h : DenoteAll w cuts planes) :
    cuts.mapM (Cut.coefficient w.pointAt) = .ok (planes.map Plane.slope) := by
  induction h with
  | nil => rfl
  | cons h _ ih =>
    rw [List.mapM_cons, h.coefficient_eq, ih]
    rfl

/-- The biases of cuts are those of their planes. -/
theorem DenoteAll.map_bias (h : DenoteAll w cuts planes) :
    cuts.map Cut.bias = planes.map Plane.bias := by
  induction h with
  | nil => rfl
  | cons h _ ih => rw [List.map_cons, List.map_cons, h.bias_eq, ih]

end Lists

section Made

variable [Scalar α]

omit [Scalar α] in
/-- Where objective and gradient are known the cut at the current point has them as bias and
slope. -/
theorem atCurrent_eq {s : Sample α} {slope : List α} {value : α}
    (hg : s.gradient.value? = some slope) (ho : s.objective.value? = some value) :
    atCurrent s = .ok (.owned value slope) := by
  rw [atCurrent, hg, ho]

/-- The bias of a cut at a sampled point, from values and vectors that are known. -/
def shiftedBias (value : α) (slope point current : List α) (currentValue downshift : α) : α :=
  let difference := List.zipWith (· - ·) current point
  Scalar.lesser (value + Vec.dot slope difference)
    (currentValue - downshift * Vec.normSq difference)

/-- Where objective and gradient are known the cut at a point has the shifted bias and refers to
its place. -/
theorem atPoint_eq {point current : Sample α} {slope : List α} {value currentValue : α}
    (place : Int) (downshift : α) (hg : point.gradient.value? = some slope)
    (ho : point.objective.value? = some value)
    (hc : current.objective.value? = some currentValue)
    (hl : current.position.length = point.position.length)
    (hs : slope.length = point.position.length) :
    atPoint point current place downshift =
      .ok (.sampled
        (shiftedBias value slope point.position current.position currentValue downshift)
        place) := by
  have hd : (List.zipWith (· - ·) current.position point.position).length =
      point.position.length := by
    simp [hl]
  unfold atPoint downshiftedBias
  simp only [hg, ho, hc, Vec.pairwise?_of_length_eq _ hl, Vec.dot?_of_length_eq (hs.trans hd.symm)]
  rfl

/-- A slope of the right length is added with its weight. -/
theorem accumulate_eq {total slope : List α} (weight : α) (h : slope.length = total.length) :
    accumulate total weight slope = .ok (Vec.add total (Vec.scale weight slope)) := by
  have hl : total.length = (Vec.scale weight slope).length := by simp [h]
  unfold accumulate
  rw [Vec.pairwise?_of_length_eq _ hl]
  exact if_pos (by simp [h])

/-- The combination of cuts is that of the slopes and biases of their planes. -/
theorem foldlM_combination {w : Workspace α} {cuts : List (Cut α)} {planes : List (Plane α)}
    (h : DenoteAll w cuts planes) (weights : List α) {total : List α} (bias : α)
    (hl : total.length = w.dimension) :
    (weights.zip cuts).foldlM (fun (slope, bias) (weight, cut) => do
      let slope ← accumulate slope weight (← cut.coefficient w.pointAt)
      return (slope, bias + weight * cut.bias)) (total, bias) =
      (.ok (Subproblem.accumulate total (planes.zip weights),
        (List.zipWith (· * ·) weights (planes.map Plane.bias)).foldl (· + ·) bias) :
        Except (Fault α) (List α × α)) := by
  induction h generalizing weights total bias with
  | nil => simp [Subproblem.accumulate]; rfl
  | @cons cut plane cuts planes h _ ih =>
    cases weights with
    | nil => rfl
    | cons a weights =>
      have hlength : (Vec.add total (Vec.scale a plane.slope)).length = w.dimension := by
        simp [hl, h.length_eq]
      have htail := ih weights (bias + a * plane.bias) hlength
      have hsum : accumulate total a plane.slope = _ := accumulate_eq a (by rw [h.length_eq, hl])
      rw [List.zip_cons_cons, List.foldlM_cons]
      simp only [h.coefficient_eq, h.bias_eq]
      change ((accumulate total a plane.slope >>= fun slope =>
        pure (slope, bias + a * plane.bias)) >>= fun init =>
        List.foldlM _ init (weights.zip cuts)) = _
      rw [hsum]
      exact htail

/-- Aggregation of cuts gives the cut at the current point and the combination of the
planes that they denote. -/
theorem aggregate_eq {w : Workspace α} {cuts : List (Cut α)} {planes : List (Plane α)}
    (h : DenoteAll w cuts planes) {current : Sample α} {weights slope : List α} {value : α}
    (hw : weights.length = cuts.length) (hp : current.position.length = w.dimension)
    (hg : current.gradient.value? = some slope) (ho : current.objective.value? = some value) :
    aggregate w.pointAt current weights cuts = .ok
      ([.owned value slope, .owned (Subproblem.mix w.dimension planes weights).bias
        (Subproblem.mix w.dimension planes weights).slope],
      [.aggregated cuts.length weights (Subproblem.mix w.dimension planes weights).slope]) := by
  have hfold := foldlM_combination h weights 0 (Vec.length_zeros w.dimension)
  unfold aggregate combination
  rw [if_neg (by simp [hw]), hp]
  change (List.foldlM _ (Vec.zeros w.dimension, 0) (weights.zip cuts) >>= _) = _
  rw [hfold]
  change (atCurrent current >>= _) = _
  rw [atCurrent_eq hg ho]
  rfl

end Made

end Cut

end NonsmoothDescent
