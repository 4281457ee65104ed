import NonsmoothDescent.Proofs.Scalar

/-!
# Vectors in exact arithmetic

Lengths of vectors, over any scalars, and the algebra of inner products, norms and
maxima over exact ones. Statements about two vectors are by induction on both; they
need vectors of one length where the shorter one would otherwise cut the other off.
-/

namespace NonsmoothDescent.Vec

section Length

variable {α : Type} [Scalar α]

/-- The zero vector has its length. -/
@[simp] theorem length_zeros (n : Nat) : (zeros n : List α).length = n := by
  simp [zeros]

/-- A multiple has the length of the vector. -/
@[simp] theorem length_scale (a : α) (v : List α) : (scale a v).length = v.length := by
  simp [scale]

/-- A sum is as long as the shorter summand. -/
@[simp] theorem length_add (v w : List α) : (add v w).length = min v.length w.length := by
  simp [add]

/-- A vector of the right length is left as it is. -/
theorem fit_of_length_eq {n : Nat} {v : List α} (h : v.length = n) : fit n v = v := by
  simp [fit, zeros, ← h]

/-- What was fitted has the length asked for. -/
@[simp] theorem length_fit (n : Nat) (v : List α) : (fit n v).length = n := by
  simp only [fit, List.length_append, List.length_take, length_zeros]
  omega

omit [Scalar α] in
/-- Vectors of one length combine entry by entry. -/
theorem pairwise?_of_length_eq (op : α → α → α) {v w : List α} (h : v.length = w.length) :
    pairwise? op v w = some (List.zipWith op v w) := by
  unfold pairwise?
  rw [if_pos h]

/-- Vectors of one length have an inner product. -/
theorem dot?_of_length_eq {v w : List α} (h : v.length = w.length) :
    dot? v w = some (dot v w) := by
  rw [dot?, if_pos h]

end Length

variable {K : Type} [Field K] [LinearOrder K] [FloorRing K]

/-- The difference of two vectors of one length. -/
def sub (v w : List K) : List K := List.zipWith (· - ·) v w

section Algebra

/-- Adding up from a start adds the start to the sum. -/
theorem foldl_add (a : K) (v : List K) : v.foldl (· + ·) a = a + v.sum := by
  induction v generalizing a with
  | nil => simp
  | cons b v ih =>
    rw [List.foldl_cons, ih, List.sum_cons, add_assoc]

/-- The sum that is formed from the left is that of the list. -/
theorem sum_eq (v : List K) : sum v = v.sum := by
  rw [sum, foldl_add, zero_add]

/-- Nothing sums to zero. -/
@[simp] theorem sum_nil : sum ([] : List K) = 0 := rfl

/-- A sum is the first entry and the sum of the rest. -/
@[simp] theorem sum_cons (a : K) (v : List K) : sum (a :: v) = a + sum v := by
  simp only [sum_eq, List.sum_cons]

/-- The sum of a joined list is that of its parts. -/
theorem sum_append (v w : List K) : sum (v ++ w) = sum v + sum w := by
  simp only [sum_eq, List.sum_append]

/-- The zero vector sums to zero. -/
@[simp] theorem sum_zeros (n : Nat) : sum (zeros n : List K) = 0 := by
  rw [sum_eq]
  exact List.sum_eq_zero fun a ha => List.eq_of_mem_replicate ha

/-- An empty vector has inner product zero with any other. -/
@[simp] theorem dot_nil_left (v : List K) : dot [] v = 0 := rfl

/-- Any vector has inner product zero with an empty one. -/
@[simp] theorem dot_nil_right (v : List K) : dot v [] = 0 := by
  simp [dot]

/-- An inner product is that of the first entries and that of the rest. -/
@[simp] theorem dot_cons (a b : K) (v w : List K) : dot (a :: v) (b :: w) = a * b + dot v w := by
  simp [dot]

/-- The inner product does not depend on the order of its factors. -/
theorem dot_comm (v w : List K) : dot v w = dot w v := by
  induction v generalizing w with
  | nil => simp
  | cons a v ih =>
    cases w with
    | nil => simp
    | cons b w => rw [dot_cons, dot_cons, ih, mul_comm]

/-- The zero vector has inner product zero with any other. -/
@[simp] theorem dot_zeros_left (n : Nat) (v : List K) : dot (zeros n) v = 0 := by
  induction n generalizing v with
  | zero => rfl
  | succ n ih =>
    cases v with
    | nil => simp
    | cons b v =>
      change dot (0 :: zeros n) (b :: v) = 0
      rw [dot_cons, ih, zero_mul, zero_add]

/-- One times a vector is the vector. -/
theorem scale_one (v : List K) : scale 1 v = v := by
  simp [scale]

/-- A scalar comes out of an inner product. -/
theorem dot_scale_left (a : K) (v w : List K) : dot (scale a v) w = a * dot v w := by
  induction v generalizing w with
  | nil => simp [scale]
  | cons b v ih =>
    cases w with
    | nil => simp
    | cons c w =>
      change dot (a * b :: scale a v) (c :: w) = _
      rw [dot_cons, dot_cons, ih]
      ring

/-- The inner product is additive in its left factor. -/
theorem dot_add_left {v w : List K} (h : v.length = w.length) (u : List K) :
    dot (add v w) u = dot v u + dot w u := by
  induction v generalizing w u with
  | nil =>
    cases w with
    | nil => simp [add]
    | cons b w => simp at h
  | cons a v ih =>
    cases w with
    | nil => simp at h
    | cons b w =>
      cases u with
      | nil => simp
      | cons c u =>
        change dot ((a + b) :: add v w) (c :: u) = _
        rw [dot_cons, dot_cons, dot_cons, ih (by simpa using h)]
        ring

/-- The inner product is additive in its right factor. -/
theorem dot_add_right {v w : List K} (h : v.length = w.length) (u : List K) :
    dot u (add v w) = dot u v + dot u w := by
  rw [dot_comm, dot_add_left h, dot_comm v, dot_comm w]

/-- A difference is as long as the shorter of its vectors. -/
@[simp] theorem length_sub (v w : List K) : (sub v w).length = min v.length w.length := by
  simp [sub]

/-- Differences come out of the left factor of an inner product. -/
theorem dot_sub_left {v w : List K} (h : v.length = w.length) (u : List K) :
    dot (sub v w) u = dot v u - dot w u := by
  induction v generalizing w u with
  | nil =>
    cases w with
    | nil => simp [sub]
    | cons b w => simp at h
  | cons a v ih =>
    cases w with
    | nil => simp at h
    | cons b w =>
      cases u with
      | nil => simp
      | cons c u =>
        change dot ((a - b) :: sub v w) (c :: u) = _
        rw [dot_cons, dot_cons, dot_cons, ih (by simpa using h)]
        ring

/-- Differences come out of the right factor of an inner product. -/
theorem dot_sub_right {v w : List K} (h : v.length = w.length) (u : List K) :
    dot u (sub v w) = dot u v - dot u w := by
  rw [dot_comm, dot_sub_left h, dot_comm v, dot_comm w]

/-- An inner product changes with an entry by the other factor of this entry. -/
theorem dot_set {a x : List K} {i : Nat} {entry factor : K} (hx : x[i]? = some entry)
    (ha : a[i]? = some factor) (moved : K) :
    dot a (x.set i moved) = dot a x + factor * (moved - entry) := by
  induction i generalizing a x with
  | zero =>
    obtain ⟨c, a, rfl⟩ := List.exists_cons_of_ne_nil (l := a) (by rintro rfl; cases ha)
    obtain ⟨y, x, rfl⟩ := List.exists_cons_of_ne_nil (l := x) (by rintro rfl; cases hx)
    cases ha
    cases hx
    rw [List.set_cons_zero, dot_cons, dot_cons]
    ring
  | succ i ih =>
    obtain ⟨c, a, rfl⟩ := List.exists_cons_of_ne_nil (l := a) (by rintro rfl; cases ha)
    obtain ⟨y, x, rfl⟩ := List.exists_cons_of_ne_nil (l := x) (by rintro rfl; cases hx)
    rw [List.set_cons_succ, dot_cons, dot_cons, ih hx ha, add_assoc]

/-- A displacement of `v`, seen from `u`. -/
theorem add_sub_add {u v w : List K} (hv : v.length = u.length) (hw : w.length = u.length) :
    add u (add (sub v u) w) = add v w := by
  induction u generalizing v w with
  | nil =>
    obtain rfl := List.length_eq_zero_iff.mp hv
    rfl
  | cons a u ih =>
    cases v with
    | nil => cases hv
    | cons b v =>
      cases w with
      | nil => cases hw
      | cons c w =>
        change (a + (b - a + c)) :: add u (add (sub v u) w) = (b + c) :: add v w
        rw [ih (Nat.succ.inj hv) (Nat.succ.inj hw), ← add_assoc, add_sub_cancel]

end Algebra

section Norm

variable [IsStrictOrderedRing K]

/-- A squared length is not negative. -/
theorem normSq_nonneg (v : List K) : 0 ≤ normSq v := by
  induction v with
  | nil => exact le_rfl
  | cons a v ih =>
    rw [normSq, dot_cons]
    exact add_nonneg (mul_self_nonneg a) ih

omit [IsStrictOrderedRing K] in
/-- A difference is as long either way round. -/
theorem normSq_sub_comm (v w : List K) : normSq (sub v w) = normSq (sub w v) := by
  induction v generalizing w with
  | nil => simp [sub]
  | cons a v ih =>
    cases w with
    | nil => simp [sub]
    | cons b w =>
      have htail := ih w
      simp only [normSq, sub, List.zipWith_cons_cons, dot_cons] at htail ⊢
      rw [htail]
      ring

/-- Only equal vectors have no distance. -/
theorem eq_of_normSq_sub_eq_zero {v w : List K} (h : v.length = w.length)
    (hz : normSq (sub v w) = 0) : v = w := by
  induction v generalizing w with
  | nil => exact (List.length_eq_zero_iff.mp h.symm).symm
  | cons a v ih =>
    cases w with
    | nil => simp at h
    | cons b w =>
      have hs : (a - b) * (a - b) + normSq (sub v w) = 0 := by
        simpa only [normSq, sub, List.zipWith_cons_cons, dot_cons] using hz
      have hhead := mul_self_nonneg (a - b)
      have htail := normSq_nonneg (sub v w)
      have ha : a - b = 0 := mul_self_eq_zero.mp (by linarith)
      rw [sub_eq_zero.mp ha, ih (by simpa using h) (by linarith)]

omit [IsStrictOrderedRing K] in
/-- What is largest from a start is bounded as the start and all entries are. -/
theorem foldl_larger_le_iff {v : List K} {a r : K} :
    v.foldl Scalar.larger a ≤ r ↔ a ≤ r ∧ ∀ b ∈ v, b ≤ r := by
  induction v generalizing a with
  | nil => simp
  | cons b v ih =>
    rw [List.foldl_cons, ih, Scalar.larger_eq_max, max_le_iff, List.forall_mem_cons, and_assoc]

/-- The largest absolute value is bounded as all absolute values are, by a number that is not
negative. -/
theorem normInf_le_iff {v : List K} {r : K} : normInf v ≤ r ↔ 0 ≤ r ∧ ∀ a ∈ v, |a| ≤ r := by
  rw [normInf, foldl_larger_le_iff, List.forall_mem_map]
  simp only [Scalar.abs_eq]

/-- The largest absolute value is not negative. -/
theorem normInf_nonneg (v : List K) : 0 ≤ normInf v :=
  (normInf_le_iff.mp (le_refl (normInf v))).1

/-- No entry has a larger absolute value. -/
theorem abs_le_normInf {v : List K} {a : K} (h : a ∈ v) : |a| ≤ normInf v :=
  (normInf_le_iff.mp le_rfl).2 a h

/-- A vector has no distance from itself. -/
theorem normInf_sub_self (v : List K) : normInf (sub v v) = 0 := by
  refine le_antisymm (normInf_le_iff.mpr ⟨le_rfl, fun a ha => ?_⟩) (normInf_nonneg _)
  obtain ⟨i, hi, rfl⟩ := List.mem_iff_getElem.mp ha
  simp [sub]

omit [IsStrictOrderedRing K] in
/-- The largest entry of a vector that has any is bounded as all entries are. -/
theorem maximum_le_iff {v : List K} {r : K} (hv : v ≠ []) : maximum v ≤ r ↔ ∀ a ∈ v, a ≤ r := by
  cases v with
  | nil => exact absurd rfl hv
  | cons a v => rw [maximum, foldl_larger_le_iff, List.forall_mem_cons]

omit [IsStrictOrderedRing K] in
/-- No entry is larger than the largest one. -/
theorem le_maximum {v : List K} {a : K} (h : a ∈ v) : a ≤ maximum v :=
  (maximum_le_iff (List.ne_nil_of_mem h)).mp le_rfl a h

end Norm

end NonsmoothDescent.Vec
