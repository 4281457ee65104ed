import NonsmoothDescent.Proofs.Subproblem.Duality

/-!
# Hulls of planes

A plane is a point: its slope and its bias. Weighting planes is forming a convex
combination of their points. So a mixture lies in every convex set that holds the
points, and the points in the hull of some planes are those of their mixtures.
-/

namespace NonsmoothDescent

variable {K : Type} [Field K] [LinearOrder K] [FloorRing K]

/-- A vector as a point with `n` coordinates. -/
def Vec.point (n : Nat) (v : List K) : Fin n → K := fun i => v.getD i 0

/-- A plane as a point: the slope and the bias. -/
def Plane.point (n : Nat) (p : Plane K) : (Fin n → K) × K := (Vec.point n p.slope, p.bias)

namespace Vec

/-- The zero vector is the zero point. -/
theorem point_zeros (n : Nat) : point n (zeros n : List K) = 0 := by
  funext i
  simp [point, zeros]

/-- A multiple of a vector is that of its point. -/
theorem point_scale (n : Nat) (a : K) (v : List K) : point n (scale a v) = a • point n v := by
  funext i
  simp only [point, scale, Pi.smul_apply, smul_eq_mul, List.getD_eq_getElem?_getD,
    List.getElem?_map]
  cases v[(i : Nat)]? <;> simp

/-- A sum of vectors is that of their points. -/
theorem point_add {n : Nat} {v w : List K} (h : v.length = w.length) :
    point n (add v w) = point n v + point n w := by
  funext i
  simp only [point, add, Pi.add_apply, List.getD_eq_getElem?_getD, List.getElem?_zipWith]
  by_cases hi : (i : Nat) < v.length
  · rw [List.getElem?_eq_getElem hi, List.getElem?_eq_getElem (h ▸ hi)]
    simp
  · rw [List.getElem?_eq_none (not_lt.mp hi), List.getElem?_eq_none (h ▸ not_lt.mp hi)]
    simp

/-- Vectors of one length with the same point are the same. -/
theorem eq_of_point_eq {n : Nat} {v w : List K} (hv : v.length = n) (hw : w.length = n)
    (h : point n v = point n w) : v = w := by
  apply List.ext_getElem (hv.trans hw.symm)
  intro i hi hi'
  have hpoint := congrFun h ⟨i, hv ▸ hi⟩
  simpa [point, List.getElem?_eq_getElem hi, List.getElem?_eq_getElem hi'] using hpoint

end Vec

namespace Plane

/-- Planes with slopes of one length and the same point are the same. -/
theorem eq_of_point_eq {n : Nat} {p q : Plane K} (hp : p.slope.length = n)
    (hq : q.slope.length = n) (h : p.point n = q.point n) : p = q := by
  have hslope : p.slope = q.slope := Vec.eq_of_point_eq hp hq (congrArg Prod.fst h)
  have hbias : p.bias = q.bias := congrArg Prod.snd h
  cases p
  cases q
  rw [mk.injEq]
  exact ⟨hslope, hbias⟩

end Plane

namespace Subproblem

variable {n : Nat} {planes : List (Plane K)}

/-- Adding slopes adds their points. -/
theorem point_accumulate {total : List K} {weighted : List (Plane K × K)}
    (h : ∀ x ∈ weighted, x.1.slope.length = total.length) :
    Vec.point n (accumulate total weighted) =
      Vec.point n total + (weighted.map fun x => x.2 • Vec.point n x.1.slope).sum := by
  induction weighted generalizing total with
  | nil => simp [accumulate]
  | cons x weighted ih =>
    obtain ⟨hx, hrest⟩ := List.forall_mem_cons.mp h
    have hl : (Vec.add total (Vec.scale x.2 x.1.slope)).length = total.length := by
      simp [hx]
    change Vec.point n (accumulate (Vec.add total _) weighted) = _
    rw [ih (by simpa only [hl] using hrest), Vec.point_add (by simp [hx]), Vec.point_scale,
      List.map_cons, List.sum_cons, add_assoc]

/-- The weighted biases add up to the weighted sum over the planes. -/
theorem dot_biases (planes : List (Plane K)) (weights : List K) :
    Vec.dot weights (planes.map Plane.bias) =
      ((planes.zip weights).map fun x => x.2 • x.1.bias).sum := by
  induction planes generalizing weights with
  | nil => simp
  | cons plane planes ih =>
    cases weights with
    | nil => simp
    | cons a weights =>
      rw [List.map_cons, Vec.dot_cons, List.zip_cons_cons, List.map_cons, List.sum_cons, ih,
        smul_eq_mul]

/-- The point of a mixture is the weighted sum of the points. -/
theorem point_mix (h : ∀ p ∈ planes, p.slope.length = n) (weights : List K) :
    (mix n planes weights).point n =
      ((planes.zip weights).map fun x => x.2 • x.1.point n).sum := by
  have hslopes : ∀ x ∈ planes.zip weights, x.1.slope.length = (Vec.zeros n : List K).length := by
    intro x hx
    rw [Vec.length_zeros]
    exact h x.1 (List.of_mem_zip hx).1
  have hsum : ∀ l : List (Plane K × K), (l.map fun x => x.2 • x.1.point n).sum =
      ((l.map fun x => x.2 • Vec.point n x.1.slope).sum,
        (l.map fun x => x.2 • x.1.bias).sum) := by
    intro l
    induction l with
    | nil => rfl
    | cons x l ih =>
      rw [List.map_cons, List.sum_cons, ih]
      rfl
  rw [hsum, ← dot_biases]
  refine Prod.ext ?_ rfl
  have hslope := point_accumulate (n := n) hslopes
  rw [Vec.point_zeros, zero_add] at hslope
  exact hslope

/-- Planes without weight add nothing. -/
theorem sum_zip_zeros (planes : List (Plane K)) (k : Nat) :
    ((planes.zip (Vec.zeros k : List K)).map fun x => x.2 • x.1.point n).sum = 0 := by
  refine List.sum_eq_zero fun y hy => ?_
  obtain ⟨x, hx, rfl⟩ := List.mem_map.mp hy
  rw [List.eq_of_mem_replicate (List.of_mem_zip hx).2, zero_smul]

/-- Planes without weight do not change a mixture. -/
theorem mix_append_zeros {more : List (Plane K)} {weights : List K} (k : Nat)
    (h : ∀ p ∈ planes ++ more, p.slope.length = n) (hl : weights.length = planes.length) :
    mix n (planes ++ more) (weights ++ Vec.zeros k) = mix n planes weights := by
  have hplanes := (List.forall_mem_append.mp h).1
  refine Plane.eq_of_point_eq (length_slope_mix h _) (length_slope_mix hplanes _) ?_
  rw [point_mix h, point_mix hplanes, List.zip_append hl.symm, List.map_append, List.sum_append,
    sum_zip_zeros, add_zero]

/-- A plane alone is its own mixture. -/
theorem mix_single {p : Plane K} (h : p.slope.length = n) : mix n [p] [1] = p := by
  have hmem : ∀ q ∈ [p], q.slope.length = n := List.forall_mem_singleton.mpr h
  refine Plane.eq_of_point_eq (length_slope_mix hmem _) h ?_
  rw [point_mix hmem, List.zip_cons_cons, List.zip_nil_left, List.map_singleton,
    List.sum_singleton, one_smul]

/-- All weight on the second plane gives that plane. -/
theorem mix_second {p q : Plane K} (k : Nat)
    (h : ∀ r ∈ p :: q :: planes, r.slope.length = n) :
    mix n (p :: q :: planes) (0 :: 1 :: Vec.zeros k) = q := by
  refine Plane.eq_of_point_eq (length_slope_mix h _) (h q (by simp)) ?_
  rw [point_mix h, List.zip_cons_cons, List.zip_cons_cons, List.map_cons, List.map_cons,
    List.sum_cons, List.sum_cons, sum_zip_zeros, zero_smul, one_smul, zero_add, add_zero]

/-- The convex hull of the points of planes. -/
def hull (n : Nat) (planes : List (Plane K)) : Set ((Fin n → K) × K) :=
  convexHull K {x | ∃ p ∈ planes, p.point n = x}

/-- Each plane lies in the hull of all. -/
theorem mem_hull {p : Plane K} (h : p ∈ planes) : p.point n ∈ hull n planes :=
  subset_convexHull K _ ⟨p, h, rfl⟩

/-- More planes have a larger hull. -/
theorem hull_mono {more : List (Plane K)} (h : planes ⊆ more) : hull n planes ⊆ hull n more :=
  convexHull_mono fun _ ⟨p, hp, he⟩ => ⟨p, h hp, he⟩

section Order

variable [IsStrictOrderedRing K] {weights : List K}

omit [IsStrictOrderedRing K] in
/-- A weighting stays one with zeros behind it. -/
theorem isWeighting_append_zeros {m : Nat} (hw : IsWeighting m weights) (k : Nat) :
    IsWeighting (m + k) (weights ++ Vec.zeros k) where
  length_eq := by rw [List.length_append, hw.length_eq, Vec.length_zeros]
  nonneg := by
    refine List.forall_mem_append.mpr ⟨hw.nonneg, fun a ha => ?_⟩
    exact (List.eq_of_mem_replicate ha).ge
  sum_eq_one := by rw [Vec.sum_append, Vec.sum_zeros, add_zero, hw.sum_eq_one]

omit [IsStrictOrderedRing K] in
/-- All weight on the second plane is a weighting. -/
theorem isWeighting_second (k : Nat) : IsWeighting (k + 2) (0 :: 1 :: Vec.zeros k : List K) where
  length_eq := by simp
  nonneg := by
    refine List.forall_mem_cons.mpr ⟨le_rfl, List.forall_mem_cons.mpr ⟨zero_le_one, ?_⟩⟩
    exact fun a ha => (List.eq_of_mem_replicate ha).ge
  sum_eq_one := by rw [Vec.sum_cons, Vec.sum_cons, Vec.sum_zeros, zero_add, add_zero]

/-- A mixture lies in every convex set that holds the points of its planes. -/
theorem point_mix_mem {C : Set ((Fin n → K) × K)} (hC : Convex K C)
    (h : ∀ p ∈ planes, p.slope.length = n) (hmem : ∀ p ∈ planes, p.point n ∈ C)
    (hw : IsWeighting planes.length weights) : (mix n planes weights).point n ∈ C := by
  rw [point_mix h, ← Fin.sum_univ_fun_getElem]
  refine hC.sum_mem (fun i _ => ?_) ?_ fun i _ => ?_
  · exact hw.nonneg _ (List.of_mem_zip (List.getElem_mem i.isLt)).2
  · rw [Fin.sum_univ_fun_getElem (planes.zip weights) Prod.snd,
      List.map_snd_zip (le_of_eq hw.length_eq), ← Vec.sum_eq, hw.sum_eq_one]
  · exact hmem _ (List.of_mem_zip (List.getElem_mem i.isLt)).1

/-- A mixture of planes in a hull lies in it. -/
theorem point_mix_mem_hull {more : List (Plane K)} (h : ∀ p ∈ planes, p.slope.length = n)
    (hmem : ∀ p ∈ planes, p.point n ∈ hull n more) (hw : IsWeighting planes.length weights) :
    (mix n planes weights).point n ∈ hull n more :=
  point_mix_mem (convex_convexHull K _) h hmem hw

/-- The planes in the hull of some planes are their mixtures. -/
theorem exists_mix_of_mem_hull (h : ∀ p ∈ planes, p.slope.length = n) {q : Plane K}
    (hq : q.slope.length = n) (hmem : q.point n ∈ hull n planes) :
    ∃ weights, IsWeighting planes.length weights ∧ mix n planes weights = q := by
  let v : Fin planes.length → (Fin n → K) × K := fun i => planes[i].point n
  have hrange : {x | ∃ p ∈ planes, p.point n = x} = Set.range v := by
    ext x
    constructor
    · rintro ⟨p, hp, rfl⟩
      obtain ⟨i, hi, rfl⟩ := List.mem_iff_getElem.mp hp
      exact ⟨⟨i, hi⟩, rfl⟩
    · rintro ⟨i, rfl⟩
      exact ⟨planes[i], List.getElem_mem i.isLt, rfl⟩
  rw [hull, hrange, convexHull_range_eq_exists_affineCombination] at hmem
  obtain ⟨s, w, hnonneg, hsum, hpoint⟩ := hmem
  rw [s.affineCombination_eq_linear_combination v w hsum] at hpoint
  -- Planes outside the finite set get no weight.
  let all : Fin planes.length → K := fun i => if i ∈ s then w i else 0
  have hl : (List.ofFn all).length = planes.length := List.length_ofFn
  have hzip : planes.zip (List.ofFn all) = List.ofFn fun i => (planes[i], all i) := by
    apply List.ext_getElem (by simp)
    intro i hi hi'
    simp
  refine ⟨List.ofFn all, ⟨hl, fun a ha => ?_, ?_⟩, ?_⟩
  · obtain ⟨i, rfl⟩ := List.mem_ofFn.mp ha
    dsimp only [all]
    split
    · rename_i hi
      exact hnonneg i hi
    · exact le_rfl
  · rw [Vec.sum_eq, List.sum_ofFn, Finset.sum_ite_mem, Finset.univ_inter, hsum]
  · refine Plane.eq_of_point_eq (length_slope_mix h _) hq ?_
    rw [point_mix h, hzip, List.map_ofFn, List.sum_ofFn, ← hpoint]
    simp only [Function.comp_apply, all, ite_smul, zero_smul, Finset.sum_ite_mem,
      Finset.univ_inter, v]

end Order

end Subproblem

end NonsmoothDescent
