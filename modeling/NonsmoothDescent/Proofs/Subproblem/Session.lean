import NonsmoothDescent.Proofs.Subproblem.Transfer

/-!
# Sessions with a solver

A solver is used by replacing or adding planes, by solving cold or warm, and by setting
its parameters, in any order. What a solve leaves stays until the next one, and what is
kept for warm solves is renewed only when planes are added: these are the weights that
the last solve before the addition left. A warm solve starts from them, with zeros, or
from equal weights where there are none or they are of no use.

Every start point is a weighting. The kept weights belong to the first of the present
planes if the planes were not replaced between that solve and the addition. The solver
only compares their number with the number of planes, so weights of planes that were
replaced are used like those of planes that are still there.
-/

namespace NonsmoothDescent.Solver

section Generic

variable {α : Type} [Scalar α]

/-- A use of a solver. -/
inductive Use (α : Type) [Scalar α] where
  /-- Replacing the planes. -/
  | load (slopes : List (List α)) (biases : List α)
  /-- Adding planes. -/
  | extend (slopes : List (List α)) (biases : List α)
  /-- Solving cold or warm, with the minimizer's answer to what it may be asked. -/
  | solve (warm : Bool) (ask : Request α → Answer α)
  /-- Bounding the step. -/
  | setRadius (radius : Option α)
  /-- Setting the tolerance for inexact solutions. -/
  | setInexactness (tolerance : α)
  /-- Setting the step to zero. -/
  | clearStep

namespace Use

/-- The use is a solve. -/
def IsSolve : Use α → Prop
  | .solve _ _ => True
  | _ => False

/-- The use replaces the planes; a batch that does not fit would be refused. -/
def Replaces (dimension : Nat) : Use α → Prop
  | .load slopes biases => ∃ planes, batch dimension slopes biases = .ok planes
  | _ => False

/-- The use adds planes; a batch that does not fit would be refused. -/
def Adds (dimension : Nat) : Use α → Prop
  | .extend slopes biases => ∃ planes, batch dimension slopes biases = .ok planes
  | _ => False

variable {dimension : Nat} {u : Use α}

/-- To add planes is not to solve. -/
theorem Adds.not_isSolve (h : u.Adds dimension) : ¬u.IsSolve := by
  cases u with
  | extend => exact id
  | load | solve | setRadius | setInexactness | clearStep => exact h.elim

/-- To add planes is not to replace them. -/
theorem Adds.not_replaces (h : u.Adds dimension) : ¬u.Replaces dimension := by
  cases u with
  | extend => exact id
  | load | solve | setRadius | setInexactness | clearStep => exact h.elim

end Use

/-- The solver after a use. What is refused changes nothing. -/
def apply (s : Solver α) : Use α → Solver α
  | .load slopes biases => (s.load slopes biases).toOption.getD s
  | .extend slopes biases => (s.extend slopes biases).toOption.getD s
  | .solve warm ask => (s.solveBy warm ask).solver
  | .setRadius radius => s.setRadius radius
  | .setInexactness tolerance => s.setInexactness tolerance
  | .clearStep => s.clearStep

/-- The solver after a session. -/
def after (s : Solver α) (uses : List (Use α)) : Solver α := uses.foldl apply s

/-- Without uses a solver stays as it is. -/
@[simp] theorem after_nil (s : Solver α) : s.after [] = s := rfl

/-- A session is its first use and the session that follows. -/
@[simp] theorem after_cons (s : Solver α) (u : Use α) (uses : List (Use α)) :
    s.after (u :: uses) = (s.apply u).after uses := rfl

/-- Sessions follow one another. -/
@[simp] theorem after_append (s : Solver α) (early late : List (Use α)) :
    s.after (early ++ late) = (s.after early).after late :=
  List.foldl_append

/-! ## Single uses -/

section Apply

omit [Scalar α] in
/-- A batch becomes as many planes as it has biases. -/
theorem length_of_batch {dimension : Nat} {slopes : List (List α)} {biases : List α}
    {planes : List (Plane α)} (h : batch dimension slopes biases = .ok planes) :
    planes.length = biases.length := by
  unfold batch at h
  split at h
  · cases h
  · rename_i hcount
    have hlength : slopes.length = biases.length := not_not.mp hcount
    split at h
    · cases h
      exact hlength
    · split at h
      · cases h
      · split at h
        · cases h
        · cases h
          rw [List.length_zipWith, hlength, min_self]

variable {s : Solver α} {u : Use α}

/-- What a use can do: replace planes, add planes, solve, or leave planes, weights and
what is kept as they are. -/
theorem apply_cases (s : Solver α) (u : Use α) :
    (u.Replaces s.dimension ∧ ∃ planes, s.apply u = s.loaded planes) ∨
    (u.Adds s.dimension ∧ ∃ planes, s.apply u = s.extended planes) ∨
    (∃ warm ask, u = .solve warm ask) ∨
    (∃ bound inexactness step, s.apply u =
      { s with subproblem := { s.subproblem with bound }, inexactness, step }) := by
  cases u with
  | load slopes biases =>
    cases hbatch : batch s.dimension slopes biases with
    | error fault =>
      refine .inr (.inr (.inr ⟨s.subproblem.bound, s.inexactness, s.step, ?_⟩))
      rw [apply, load, hbatch]
      rfl
    | ok planes =>
      refine .inl ⟨⟨planes, hbatch⟩, planes, ?_⟩
      rw [apply, load, hbatch, loaded, length_of_batch hbatch]
      rfl
  | extend slopes biases =>
    cases hbatch : batch s.dimension slopes biases with
    | error fault =>
      refine .inr (.inr (.inr ⟨s.subproblem.bound, s.inexactness, s.step, ?_⟩))
      rw [apply, extend, hbatch]
      rfl
    | ok planes =>
      refine .inr (.inl ⟨⟨planes, hbatch⟩, planes, ?_⟩)
      rw [apply, extend, hbatch]
      rfl
  | solve warm ask => exact .inr (.inr (.inl ⟨warm, ask, rfl⟩))
  | setRadius radius => exact .inr (.inr (.inr ⟨.ofRadius radius, s.inexactness, s.step, rfl⟩))
  | setInexactness tolerance =>
    exact .inr (.inr (.inr ⟨s.subproblem.bound, Scalar.greater 0 tolerance, s.step, rfl⟩))
  | clearStep =>
    exact .inr (.inr (.inr ⟨s.subproblem.bound, s.inexactness, Vec.zeros s.dimension, rfl⟩))

/-- No use changes the number of variables. -/
@[simp] theorem apply_dimension : (s.apply u).dimension = s.dimension := by
  rcases s.apply_cases u with ⟨_, _, he⟩ | ⟨_, _, he⟩ | ⟨warm, ask, rfl⟩ | ⟨_, _, _, he⟩
  · rw [he]; rfl
  · rw [he]; rfl
  · simp [apply, dimension]
  · rw [he]; rfl

/-- Only a solve changes the weights. -/
theorem apply_weights (h : ¬u.IsSolve) : (s.apply u).weights = s.weights := by
  rcases s.apply_cases u with ⟨_, _, he⟩ | ⟨_, _, he⟩ | ⟨warm, ask, rfl⟩ | ⟨_, _, _, he⟩
  · rw [he]; rfl
  · rw [he]; rfl
  · exact absurd trivial h
  · rw [he]

/-- Only a change of the planes changes what is kept. -/
theorem apply_saved (hreplaces : ¬u.Replaces s.dimension) (hadds : ¬u.Adds s.dimension) :
    (s.apply u).saved = s.saved := by
  rcases s.apply_cases u with ⟨h, _⟩ | ⟨h, _⟩ | ⟨warm, ask, rfl⟩ | ⟨_, _, _, he⟩
  · exact absurd h hreplaces
  · exact absurd h hadds
  · exact s.solveBy_saved warm ask
  · rw [he]

/-- Only an addition makes the solver keep weights. -/
theorem saved_apply_eq_none (hs : s.saved = none) (h : ¬u.Adds s.dimension) :
    (s.apply u).saved = none := by
  rcases s.apply_cases u with ⟨_, _, he⟩ | ⟨ha, _⟩ | ⟨warm, ask, rfl⟩ | ⟨_, _, _, he⟩
  · rw [he]; rfl
  · exact absurd ha h
  · exact (s.solveBy_saved warm ask).trans hs
  · rw [he]; exact hs

/-- Only a replacement takes planes away. -/
theorem planes_prefix_apply (h : ¬u.Replaces s.dimension) :
    s.subproblem.planes <+: (s.apply u).subproblem.planes := by
  rcases s.apply_cases u with ⟨hr, _⟩ | ⟨_, planes, he⟩ | ⟨warm, ask, rfl⟩ | ⟨_, _, _, he⟩
  · exact absurd hr h
  · rw [he]
    exact List.prefix_append _ planes
  · rw [apply, solveBy_subproblem]
  · rw [he]

/-- A replacement forgets what was kept. -/
theorem saved_apply_of_replaces (h : u.Replaces s.dimension) : (s.apply u).saved = none := by
  cases u with
  | load slopes biases =>
    obtain ⟨planes, hbatch⟩ := h
    rw [apply, load, hbatch]
    rfl
  | extend | solve | setRadius | setInexactness | clearStep => exact h.elim

/-- An addition keeps the weights, if there are any. -/
theorem saved_apply_of_adds (h : u.Adds s.dimension) :
    (s.apply u).saved = if s.weights.isEmpty then none else some s.weights := by
  cases u with
  | extend slopes biases =>
    obtain ⟨planes, hbatch⟩ := h
    rw [apply, extend, hbatch]
    rfl
  | load | solve | setRadius | setInexactness | clearStep => exact h.elim

end Apply

/-! ## Sessions -/

section After

variable {s : Solver α} {uses : List (Use α)}

/-- No session changes the number of variables. -/
@[simp] theorem after_dimension : (s.after uses).dimension = s.dimension := by
  induction uses generalizing s with
  | nil => rfl
  | cons u uses ih => rw [after_cons, ih, apply_dimension]

/-- Only solves change the weights. -/
theorem after_weights (h : ∀ u ∈ uses, ¬u.IsSolve) : (s.after uses).weights = s.weights := by
  induction uses generalizing s with
  | nil => rfl
  | cons u uses ih =>
    obtain ⟨hu, hrest⟩ := List.forall_mem_cons.mp h
    rw [after_cons, ih hrest, apply_weights hu]

/-- Only new planes change what is kept for a warm solve. -/
theorem after_saved (hreplaces : ∀ u ∈ uses, ¬u.Replaces s.dimension)
    (hadds : ∀ u ∈ uses, ¬u.Adds s.dimension) : (s.after uses).saved = s.saved := by
  induction uses generalizing s with
  | nil => rfl
  | cons u uses ih =>
    obtain ⟨hr, hreplaces⟩ := List.forall_mem_cons.mp hreplaces
    obtain ⟨ha, hadds⟩ := List.forall_mem_cons.mp hadds
    rw [after_cons, ih (by simpa using hreplaces) (by simpa using hadds), apply_saved hr ha]

/-- Where nothing is kept, nothing is until planes are added. -/
theorem after_saved_eq_none (hs : s.saved = none) (h : ∀ u ∈ uses, ¬u.Adds s.dimension) :
    (s.after uses).saved = none := by
  induction uses generalizing s with
  | nil => exact hs
  | cons u uses ih =>
    obtain ⟨hu, hrest⟩ := List.forall_mem_cons.mp h
    exact ih (saved_apply_eq_none hs hu) (by simpa using hrest)

/-- Until planes are replaced new ones come behind them. -/
theorem planes_prefix_after (h : ∀ u ∈ uses, ¬u.Replaces s.dimension) :
    s.subproblem.planes <+: (s.after uses).subproblem.planes := by
  induction uses generalizing s with
  | nil => exact List.prefix_rfl
  | cons u uses ih =>
    obtain ⟨hu, hrest⟩ := List.forall_mem_cons.mp h
    exact (planes_prefix_apply hu).trans (ih (by simpa using hrest))

end After

/-! ## What is kept -/

/-- The solve of a session whose weights are kept for a warm solve: planes were added
after it, with no solve between, and have neither been added nor replaced since. -/
structure Kept (first : Solver α) (uses : List (Use α)) where
  /-- The uses before the solve. -/
  early : List (Use α)
  /-- Whether the solve was warm. -/
  warm : Bool
  /-- What the minimizer answered. -/
  ask : Request α → Answer α
  /-- The uses between the solve and the addition. -/
  between : List (Use α)
  /-- The addition. -/
  addition : Use α
  /-- The uses after the addition. -/
  late : List (Use α)
  uses_eq : uses = early ++ .solve warm ask :: (between ++ addition :: late)
  unsolved : ∀ u ∈ between, ¬u.IsSolve
  adds : addition.Adds first.dimension
  unreplaced : ∀ u ∈ late, ¬u.Replaces first.dimension
  unextended : ∀ u ∈ late, ¬u.Adds first.dimension

namespace Kept

variable {first : Solver α} {uses : List (Use α)}

/-- The solver right after that solve. -/
def solver (k : first.Kept uses) : Solver α :=
  ((first.after k.early).solveBy k.warm k.ask).solver

/-- Its planes were not replaced before the addition, and no later solve was made. -/
structure Current (k : first.Kept uses) : Prop where
  unreplaced : ∀ u ∈ k.between, ¬u.Replaces first.dimension
  unsolved : ∀ u ∈ k.late, ¬u.IsSolve

/-- A session that keeps weights is what came before the solve, between, the addition and what
came after. -/
theorem after_eq (k : first.Kept uses) :
    first.after uses = ((k.solver.after k.between).apply k.addition).after k.late := by
  refine (congrArg first.after k.uses_eq).trans ?_
  rw [after_append, after_cons, after_append, after_cons]
  rfl

/-- The solver that solved has the number of variables of the first. -/
@[simp] theorem solver_dimension (k : first.Kept uses) : k.solver.dimension = first.dimension := by
  have h : k.solver.dimension = (first.after k.early).dimension := by
    simp [solver, dimension]
  rw [h, after_dimension]

/-- The kept weights are those that the solve left. -/
theorem saved_eq (k : first.Kept uses) : (first.after uses).saved =
    if k.solver.weights.isEmpty then none else some k.solver.weights := by
  have hweights : (k.solver.after k.between).weights = k.solver.weights :=
    after_weights k.unsolved
  rw [k.after_eq, after_saved, saved_apply_of_adds, hweights]
  · simpa using k.adds
  · simpa using k.unreplaced
  · simpa using k.unextended

/-- The planes of a current solve are the first of those at the end. -/
theorem Current.planes_stay {k : first.Kept uses} (h : k.Current) :
    k.solver.subproblem.planes <+: (first.after uses).subproblem.planes := by
  have hbetween : k.solver.subproblem.planes <+: (k.solver.after k.between).subproblem.planes :=
    planes_prefix_after (by simpa using h.unreplaced)
  rw [k.after_eq]
  refine (hbetween.trans (planes_prefix_apply ?_)).trans (planes_prefix_after ?_)
  · simpa using k.adds.not_replaces
  · simpa using k.unreplaced

end Kept

/-- A list has a last element with a property, or none. -/
theorem forall_not_or_exists_last {β : Type} (p : β → Prop) (l : List β) :
    (∀ b ∈ l, ¬p b) ∨
      ∃ early b late, l = early ++ b :: late ∧ p b ∧ ∀ c ∈ late, ¬p c := by
  induction l with
  | nil => exact .inl nofun
  | cons a l ih =>
    rcases ih with hnone | ⟨early, b, late, rfl, hb, hlate⟩
    · by_cases ha : p a
      · exact .inr ⟨[], a, l, rfl, ha, hnone⟩
      · exact .inl (List.forall_mem_cons.mpr ⟨ha, hnone⟩)
    · exact .inr ⟨a :: early, b, late, rfl, hb, hlate⟩

variable {first : Solver α} {uses early late : List (Use α)} {u : Use α}

/-- Nothing is kept after a replacement until planes are added. -/
theorem saved_eq_none_of_replaces (hu : u.Replaces first.dimension)
    (hadds : ∀ v ∈ late, ¬v.Adds first.dimension) :
    (first.after (early ++ u :: late)).saved = none := by
  rw [after_append, after_cons]
  exact after_saved_eq_none (saved_apply_of_replaces (by simpa using hu)) (by simpa using hadds)

/-- Without a solve whose weights are kept, nothing is kept. -/
theorem saved_eq_none (hweights : first.weights = []) (hsaved : first.saved = none)
    (h : IsEmpty (first.Kept uses)) : (first.after uses).saved = none := by
  rcases forall_not_or_exists_last (fun u => u.Replaces first.dimension ∨ u.Adds first.dimension)
      uses with hnone | ⟨early, u, late, rfl, hu, hlate⟩
  · exact after_saved_eq_none hsaved fun u hu ha => hnone u hu (.inr ha)
  · have hreplaces : ∀ v ∈ late, ¬v.Replaces first.dimension := fun v hv hr => hlate v hv (.inl hr)
    have hadds : ∀ v ∈ late, ¬v.Adds first.dimension := fun v hv ha => hlate v hv (.inr ha)
    rcases hu with hu | hu
    · exact saved_eq_none_of_replaces hu hadds
    · -- the addition keeps weights only if a solve was made before it
      rcases forall_not_or_exists_last Use.IsSolve early with
        hnone | ⟨before, v, between, rfl, hv, hbetween⟩
      · rw [after_append, after_cons, after_saved (by simpa using hreplaces)
          (by simpa using hadds), saved_apply_of_adds (by simpa using hu), after_weights hnone,
          hweights]
        rfl
      · cases v with
        | solve warm ask =>
          refine h.elim ⟨before, warm, ask, between, u, late, ?_, hbetween, hu, hreplaces, hadds⟩
          rw [List.append_assoc, List.cons_append]
        | load | extend | setRadius | setInexactness | clearStep => exact hv.elim

end Generic

/-! ## Start points -/

section Exact

variable {K : Type} [Field K] [LinearOrder K] [FloorRing K]

/-- The start point is made of the weights of the most recent solve, whose planes are the
first of the present ones. -/
def StartsRecent (first : Solver K) (uses : List (Use K)) (start : List K) : Prop :=
  ∃ early warm ask late, uses = early ++ .solve warm ask :: late ∧
    (∀ u ∈ late, ¬u.IsSolve ∧ ¬u.Replaces first.dimension) ∧
    let t := ((first.after early).solveBy warm ask).solver
    t.subproblem.planes <+: (first.after uses).subproblem.planes ∧
      start = t.weights ++ Vec.zeros ((first.after uses).cuts - t.cuts)

variable {first : Solver K} {uses : List (Use K)}

/-- A warm solve starts from the kept weights, unless they are of no use. -/
theorem Kept.warmStart_eq (k : first.Kept uses) : (first.after uses).warmStart =
    if (first.after uses).cuts < k.solver.cuts ∨ Vec.sum k.solver.weights ≤ 0 then
      (first.after uses).equalWeights
    else k.solver.weights ++ Vec.zeros ((first.after uses).cuts - k.solver.cuts) := by
  have hlength : k.solver.weights.length = k.solver.cuts := by
    rw [Kept.solver, length_solveBy_weights, cuts_solveBy]
  unfold warmStart
  rw [k.saved_eq]
  by_cases hempty : k.solver.weights = []
  · rw [hempty]
    simp
  · rw [if_neg (by simpa using hempty)]
    simp [hlength]

variable [IsStrictOrderedRing K]

omit [IsStrictOrderedRing K] in
/-- Equal weights are one over the number of planes. -/
theorem equalWeights_eq (s : Solver K) :
    s.equalWeights = List.replicate s.cuts (1 / (s.cuts : K)) := by
  have hcast : (Scalar.ofInt s.cuts : K) = s.cuts := Int.cast_natCast s.cuts
  rw [equalWeights, hcast]

/-- Equal weights on some planes are a weighting. -/
theorem isWeighting_equalWeights {s : Solver K} (h : s.cuts ≠ 0) :
    IsWeighting s.cuts s.equalWeights := by
  have hne : (s.cuts : K) ≠ 0 := Nat.cast_ne_zero.mpr h
  rw [equalWeights_eq]
  refine ⟨List.length_replicate, fun a ha => ?_, ?_⟩
  · rw [List.eq_of_mem_replicate ha]
    exact div_nonneg zero_le_one (Nat.cast_nonneg _)
  · rw [Vec.sum_eq, List.sum_replicate, nsmul_eq_mul, mul_one_div_cancel hne]

/-- The kept weights are a weighting if they are of use. -/
theorem Kept.isWeighting (k : first.Kept uses) (h : 0 < Vec.sum k.solver.weights) :
    IsWeighting k.solver.cuts k.solver.weights := by
  have hweighting := isWeighting_of_sum_pos h
  rwa [Kept.solver, cuts_solveBy]

/-- A warm start is a weighting, whatever was kept. -/
theorem isWeighting_warmStart (hweights : first.weights = []) (hsaved : first.saved = none)
    (hc : (first.after uses).cuts ≠ 0) :
    IsWeighting (first.after uses).cuts (first.after uses).warmStart := by
  rcases isEmpty_or_nonempty (first.Kept uses) with hnone | ⟨⟨k⟩⟩
  · rw [warmStart, saved_eq_none hweights hsaved hnone]
    exact isWeighting_equalWeights hc
  · rw [k.warmStart_eq]
    split
    · exact isWeighting_equalWeights hc
    · rename_i huse
      obtain ⟨hfits, hsum⟩ := not_or.mp huse
      have hpadded := Subproblem.isWeighting_append_zeros (k.isWeighting (not_le.mp hsum))
        ((first.after uses).cuts - k.solver.cuts)
      rwa [Nat.add_sub_cancel' (not_lt.mp hfits)] at hpadded

omit [IsStrictOrderedRing K] in
/-- If the solve whose weights are kept is current, a warm solve starts from equal weights
or from the weights of the most recent solve. -/
theorem warmStart_of_current (hweights : first.weights = []) (hsaved : first.saved = none)
    (h : ∀ k : first.Kept uses, k.Current) :
    (first.after uses).warmStart = (first.after uses).equalWeights ∨
      StartsRecent first uses (first.after uses).warmStart := by
  rcases isEmpty_or_nonempty (first.Kept uses) with hnone | ⟨⟨k⟩⟩
  · rw [warmStart, saved_eq_none hweights hsaved hnone]
    exact .inl rfl
  · rw [k.warmStart_eq]
    split
    · exact .inl rfl
    · refine .inr ⟨k.early, k.warm, k.ask, k.between ++ k.addition :: k.late, k.uses_eq,
        List.forall_mem_append.mpr ⟨fun u hu => ⟨k.unsolved u hu, (h k).unreplaced u hu⟩,
          List.forall_mem_cons.mpr ⟨⟨k.adds.not_isSolve, k.adds.not_replaces⟩, fun u hu =>
            ⟨(h k).unsolved u hu, k.unreplaced u hu⟩⟩⟩, (h k).planes_stay, rfl⟩

/-- The point from which the minimizer starts in any session with a new solver. It is
always a weighting of the present planes, and equal weights in a cold solve. A warm solve
starts from equal weights if no weights are kept, so after a replacement until planes are
added, and otherwise from the kept weights, if they are not too many and their sum is
positive. If the solve that left them is current, they are those of the most recent solve
and belong to the first of the present planes; if it is not, they are used all the same. -/
theorem session_start_points (dimension : Nat) (settings : Settings K) (drill : Option Drill)
    (uses : List (Use K)) (warm : Bool) (ask : Request K → Answer K) :
    let first : Solver K := create dimension settings drill
    let s := first.after uses
    ((s.solveBy warm ask).consultation.isSome ↔ 2 ≤ s.cuts) ∧
      ∀ c ∈ (s.solveBy warm ask).consultation,
        c.request.subproblem = s.subproblem ∧
        IsWeighting s.cuts c.request.start ∧
        (warm = false → c.request.start = s.equalWeights) ∧
        (warm = true →
          (IsEmpty (first.Kept uses) → c.request.start = s.equalWeights) ∧
          (∀ early u late, uses = early ++ u :: late → u.Replaces dimension →
            (∀ v ∈ late, ¬v.Adds dimension) → c.request.start = s.equalWeights) ∧
          (∀ k : first.Kept uses, c.request.start =
            if s.cuts < k.solver.cuts ∨ Vec.sum k.solver.weights ≤ 0 then s.equalWeights
            else k.solver.weights ++ Vec.zeros (s.cuts - k.solver.cuts)) ∧
          ((∀ k : first.Kept uses, k.Current) →
            c.request.start = s.equalWeights ∨ StartsRecent first uses c.request.start)) := by
  intro first s
  rw [consultation_solveBy]
  by_cases hfew : s.cuts < 2
  · rw [if_pos hfew]
    exact ⟨⟨nofun, fun h => absurd h (not_le.mpr hfew)⟩, nofun⟩
  rw [if_neg hfew]
  have hc : s.cuts ≠ 0 := by omega
  refine ⟨⟨fun _ => not_lt.mp hfew, fun _ => rfl⟩, fun c hmem => ?_⟩
  cases hmem
  refine ⟨rfl, ?_, fun hcold => hcold ▸ rfl, fun hwarm => ?_⟩
  · cases warm with
    | false => exact isWeighting_equalWeights hc
    | true => exact isWeighting_warmStart rfl rfl hc
  · have hstart : (s.request warm).start = s.warmStart := hwarm ▸ rfl
    dsimp only
    rw [hstart]
    refine ⟨fun hnone => ?_, ?_, fun k => k.warmStart_eq, warmStart_of_current rfl rfl⟩
    · rw [warmStart, saved_eq_none rfl rfl hnone]
    · rintro early u late rfl hu hadds
      have hnone : s.saved = none := saved_eq_none_of_replaces hu hadds
      rw [warmStart, hnone]

/-! ## Planes replaced between a solve and an addition -/

/-- Two planes are solved, then replaced, and two more are added. -/
def replacing : List (Use ℚ) :=
  [.load [[1], [-1]] [0, 0], .solve false fun _ => ⟨[3 / 4, 1 / 4], 0, 4, ""⟩,
    .load [[2], [-3]] [1 / 2, 1 / 4], .extend [[1], [-1]] [1 / 8, 0]]

/-- The solver for one variable after that. -/
def replaced : Solver ℚ := (create 1 {} none).after replacing

/-- The weights of the planes that were replaced are kept. -/
def keptReplacing : Kept (create 1 {} none) replacing where
  early := [.load [[1], [-1]] [0, 0]]
  warm := false
  ask := fun _ => ⟨[3 / 4, 1 / 4], 0, 4, ""⟩
  between := [.load [[2], [-3]] [1 / 2, 1 / 4]]
  addition := .extend [[1], [-1]] [1 / 8, 0]
  late := []
  uses_eq := rfl
  unsolved := List.forall_mem_singleton.mpr id
  adds := ⟨[⟨[1], 1 / 8⟩, ⟨[-1], 0⟩], rfl⟩
  unreplaced := nofun
  unextended := nofun

/-- The planes of the most recent solve are gone. -/
theorem not_startsRecent_replacing (start : List ℚ) :
    ¬StartsRecent (create 1 {} none) replacing start := by
  rintro ⟨early, warm, ask, late, hsplit, hlate, -⟩
  have hreplacement : Use.load [[2], [-3]] [1 / 2, 1 / 4] ∈ late := by
    match early, hsplit with
    | [_], h =>
      cases h
      exact List.mem_cons_self
    | _ :: _ :: _ :: _ :: [], h => cases h
    | _ :: _ :: _ :: _ :: _ :: _, h => cases h
  exact (hlate _ hreplacement).2 ⟨[⟨[2], 1 / 2⟩, ⟨[-3], 1 / 4⟩], rfl⟩

/-- The next warm solve starts from them, neither from equal weights nor from weights that
belong to planes that are still there. -/
theorem stale_start_after_replacement :
    ∃ c ∈ (replaced.solveBy true fun _ => ⟨[1 / 2, 1 / 2, 0, 0], 0, 3, ""⟩).consultation,
      c.request.start = [3 / 4, 1 / 4, 0, 0] ∧ c.request.start ≠ replaced.equalWeights ∧
      ¬StartsRecent (create 1 {} none) replacing c.request.start := by
  obtain ⟨hasked, hstart⟩ := session_start_points 1 {} none replacing true
    fun _ => ⟨[1 / 2, 1 / 2, 0, 0], 0, 3, ""⟩
  obtain ⟨c, hc⟩ := Option.isSome_iff_exists.mp (hasked.mpr (by decide +kernel))
  obtain ⟨-, -, -, hwarm⟩ := hstart c hc
  have hkept : c.request.start = [3 / 4, 1 / 4, 0, 0] :=
    ((hwarm rfl).2.2.1 keptReplacing).trans (by decide +kernel)
  exact ⟨c, hc, hkept, by rw [hkept]; decide +kernel, not_startsRecent_replacing _⟩

end Exact

end NonsmoothDescent.Solver
