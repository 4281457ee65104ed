import NonsmoothDescent.Proofs.Vec
import NonsmoothDescent.Problem.Oracle

/-!
# Gradients from values

An oracle without a gradient function forms gradients from values of the objective, and in
which way is part of the oracle. What is relied on of this way is stated apart: it gives one
entry per variable, and nothing stops it but a value that is missing. Then an evaluation of the
gradient fails for a missing value or an entry that is not finite, and never for its length.

Forward differences are such a way, with whatever increment and over any scalars. In exact
arithmetic no increment is lost, and forward differences of an affine function are its slope.
-/

namespace NonsmoothDescent

section Runs

variable {ε β γ : Type} {f : β → Except ε γ} {items : List β}

/-- A list has as many results as entries. -/
theorem length_of_mapM_ok {results : List γ} (h : items.mapM f = .ok results) :
    results.length = items.length := by
  induction items generalizing results with
  | nil =>
    cases h
    rfl
  | cons item items ih =>
    rw [List.mapM_cons] at h
    cases hitem : f item with
    | error =>
      rw [hitem] at h
      cases h
    | ok result =>
      cases hitems : items.mapM f with
      | error =>
        rw [hitem, hitems] at h
        cases h
      | ok others =>
        rw [hitem, hitems] at h
        cases h
        exact congrArg Nat.succ (ih hitems)

/-- Where a list has no results, one of its entries has none. -/
theorem exists_of_mapM_error {fault : ε} (h : items.mapM f = .error fault) :
    ∃ item ∈ items, f item = .error fault := by
  induction items with
  | nil => cases h
  | cons item items ih =>
    rw [List.mapM_cons] at h
    cases hitem : f item with
    | error =>
      rw [hitem] at h
      cases h
      exact ⟨item, List.mem_cons_self, hitem⟩
    | ok result =>
      cases hitems : items.mapM f with
      | error =>
        rw [hitem, hitems] at h
        cases h
        obtain ⟨other, hother, hfault⟩ := ih hitems
        exact ⟨other, List.mem_cons_of_mem _ hother, hfault⟩
      | ok others =>
        rw [hitem, hitems] at h
        cases h

/-- If each entry has its result, the list has them all. -/
theorem mapM_eq_ok_map {g : β → γ} (h : ∀ item ∈ items, f item = .ok (g item)) :
    items.mapM f = .ok (items.map g) := by
  induction items with
  | nil => rfl
  | cons item items ih =>
    obtain ⟨hitem, hitems⟩ := List.forall_mem_cons.mp h
    rw [List.mapM_cons, hitem, ih hitems]
    rfl

end Runs

namespace Oracle

variable {α ε : Type}

/-- What is relied on where gradients are formed from values of a function. -/
structure Differencing
    (differences : (List α → Except ε α) → List α → Except ε (List α)) : Prop where
  /-- There is one entry per variable. -/
  length_eq : ∀ {f : List α → Except ε α} {x slope : List α},
    differences f x = .ok slope → slope.length = x.length
  /-- What stops it is a value that is missing somewhere. -/
  exists_fault : ∀ {f : List α → Except ε α} {x : List α} {fault : ε},
    differences f x = .error fault → ∃ y, y.length = x.length ∧ f y = .error fault

section Generic

variable [Scalar α] {o : Oracle α} {x : List α}

/-- Forward differences are a way to form gradients. -/
theorem differencing_forwardDifferences (h : α) :
    Differencing (forwardDifferences h : (List α → Except ε α) → _) where
  length_eq {f x slope} hslope := by
    rw [forwardDifferences] at hslope
    cases hbase : f x with
    | error =>
      rw [hbase] at hslope
      cases hslope
    | ok base =>
      rw [hbase] at hslope
      exact (length_of_mapM_ok hslope).trans List.length_zipIdx
  exists_fault {f x fault} hfault := by
    rw [forwardDifferences] at hfault
    cases hbase : f x with
    | error =>
      rw [hbase] at hfault
      cases hfault
      exact ⟨x, rfl, hbase⟩
    | ok base =>
      rw [hbase] at hfault
      obtain ⟨⟨entry, i⟩, _, hitem⟩ := exists_of_mapM_error hfault
      refine ⟨x.set i (entry + incrementAt h entry), List.length_set, ?_⟩
      dsimp only at hitem
      cases hmoved : f (x.set i (entry + incrementAt h entry)) with
      | error =>
        rw [hmoved] at hitem
        cases hitem
        rfl
      | ok value =>
        rw [hmoved] at hitem
        cases hitem

/-- How an evaluation of a gradient that is formed from values ends: with the gradient, for a
value that is missing, or for an entry that is not finite. -/
inductive Forms (o : Oracle α) : Option (List α) × List (Notice α) → Prop where
  | formed {slope : List α} (hlength : slope.length = o.dimension)
      (hfinite : Vec.isFinite slope = true) : Forms o (some slope, [])
  | stopped {y : List α} {fault : EvaluationFault} (hlength : y.length = o.dimension)
      (hvalue : o.value y = .error fault) : Forms o (none, [.gradientFault fault.description])
  | unbounded {slope : List α} (hlength : slope.length = o.dimension)
      (hinfinite : Vec.isFinite slope = false) : Forms o (none, [.gradientInvalid o.dimension])

/-- An evaluation of a gradient that is formed from values ends in one of these ways. -/
theorem forms_evaluateGradient (hnone : o.gradient = none) (hd : Differencing o.differences)
    (hx : x.length = o.dimension) : o.Forms (o.evaluateGradient x) := by
  have hraw : o.rawGradient x = o.differences o.value x := by rw [rawGradient, hnone]
  rw [evaluateGradient, hraw]
  cases hslope : o.differences o.value x with
  | error fault =>
    obtain ⟨y, hy, hvalue⟩ := hd.exists_fault hslope
    exact .stopped (hy.trans hx) hvalue
  | ok slope =>
    have hlength : slope.length = o.dimension := (hd.length_eq hslope).trans hx
    dsimp only
    by_cases hfinite : Vec.isFinite slope = true
    · rw [if_pos ⟨hlength, hfinite⟩]
      exact .formed hlength hfinite
    · rw [if_neg fun h => hfinite h.2, hlength]
      exact .unbounded hlength (Bool.eq_false_iff.mpr hfinite)

end Generic

section Exact

variable {K : Type} [Field K] [LinearOrder K] [FloorRing K] {o : Oracle K} {a x : List K}

/-- In exact arithmetic a gradient is formed wherever the objective has all its values. -/
theorem exists_gradient_of_value (hnone : o.gradient = none) (hd : Differencing o.differences)
    (hvalue : ∀ y, y.length = o.dimension → ∃ value, o.value y = .ok value)
    (hx : x.length = o.dimension) :
    ∃ slope, o.evaluateGradient x = (some slope, []) ∧ slope.length = o.dimension := by
  generalize heq : o.evaluateGradient x = result
  cases heq ▸ forms_evaluateGradient hnone hd hx with
  | formed hlength => exact ⟨_, rfl, hlength⟩
  | stopped hlength hfault =>
    obtain ⟨value, hsome⟩ := hvalue _ hlength
    cases hsome.symm.trans hfault
  | unbounded hlength hinfinite => simp [Vec.isFinite] at hinfinite

variable [IsStrictOrderedRing K]

/-- No increment is lost, and one that is zero is replaced. -/
theorem incrementAt_ne_zero (h x : K) : incrementAt h x ≠ 0 := by
  have hrelative : (1.490116119384765625e-8 : K) * Scalar.larger 1 (Scalar.abs x) ≠ 0 := by
    rw [Scalar.larger_eq_max]
    exact (mul_pos (by norm_num) (zero_lt_one.trans_le (le_max_left _ _))).ne'
  unfold incrementAt
  split
  · dsimp only
    split
    · exact hrelative
    · exact neg_ne_zero.mpr hrelative
  · rename_i hkept
    rintro rfl
    simp [Scalar.same] at hkept

/-- Forward differences of an affine function are its slope. -/
theorem forwardDifferences_affine (h b : K) {f : List K → Except ε K}
    (hx : x.length = a.length)
    (hf : ∀ y, y.length = a.length → f y = .ok (Vec.dot a y + b)) :
    forwardDifferences h f x = .ok a := by
  have hentries : x.zipIdx.map (fun p => a.getD p.2 0) = a := by
    refine List.ext_getElem (by rw [List.length_map, List.length_zipIdx, hx]) fun i _ hi => ?_
    rw [List.getElem_map, List.getElem_zipIdx, Nat.zero_add, List.getD_eq_getElem _ _ hi]
  rw [forwardDifferences, hf x hx]
  refine (mapM_eq_ok_map ?_).trans (congrArg _ hentries)
  rintro ⟨entry, i⟩ hmem
  have hentry : x[i]? = some entry := List.mem_zipIdx_iff_getElem?.mp hmem
  have hi : i < a.length := hx ▸ (List.getElem?_eq_some_iff.mp hentry).1
  have hfactor : a[i]? = some (a.getD i 0) := by
    rw [List.getD_eq_getElem _ _ hi, List.getElem?_eq_getElem hi]
  have hne := incrementAt_ne_zero h entry
  dsimp only
  rw [hf _ (List.length_set.trans hx), Vec.dot_set hentry hfactor]
  refine congrArg Except.ok ?_
  rw [add_sub_cancel_left, add_right_comm, add_sub_cancel_left, mul_div_cancel_right₀ _ hne]

end Exact

end Oracle

end NonsmoothDescent
