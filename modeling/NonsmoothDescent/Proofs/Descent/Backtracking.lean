import NonsmoothDescent.Proofs.Descent.LineSearch
import NonsmoothDescent.Proofs.Search.Coherence
import NonsmoothDescent.Proofs.Search.Reporting
import NonsmoothDescent.Proofs.Workspace.Memory

/-!
# The longest acceptable step

Stepsizes come in falling order, so the first one that passes is the longest. In exact
arithmetic they are the halvings of one down to the smallest allowed: a line search that
gives up has tried them all, and one that ends earlier has tried all those that are longer
than what it found.
-/

namespace NonsmoothDescent.LineSearch

section Order

variable {β : Type} [LinearOrder β] {before after : List β} {t : β} {p : β → Prop}

/-- The first that passes in a falling list is the greatest that does. -/
theorem isGreatest_of_first (hfall : (before ++ t :: after).Pairwise (· > ·))
    (hbefore : ∀ s ∈ before, ¬p s) (ht : p t) :
    IsGreatest {s | s ∈ before ++ t :: after ∧ p s} t := by
  obtain ⟨-, htail, -⟩ := List.pairwise_append.mp hfall
  refine ⟨⟨by simp, ht⟩, fun s ⟨hs, hp⟩ => ?_⟩
  rcases List.mem_append.mp hs with hs | hs
  · exact absurd hp (hbefore s hs)
  · rcases List.mem_cons.mp hs with rfl | hs
    · exact le_rfl
    · exact (List.rel_of_pairwise_cons htail hs).le

/-- A falling list begins with the entries that are not below a given one. -/
theorem mem_concat_iff_of_falling (hfall : (before ++ t :: after).Pairwise (· > ·)) (s : β) :
    s ∈ before ++ [t] ↔ s ∈ before ++ t :: after ∧ t ≤ s := by
  obtain ⟨-, htail, hhead⟩ := List.pairwise_append.mp hfall
  simp only [List.mem_append, List.mem_cons, List.not_mem_nil, or_false]
  constructor
  · rintro (hs | rfl)
    · exact ⟨.inl hs, (hhead s hs t List.mem_cons_self).le⟩
    · exact ⟨.inr (.inl rfl), le_rfl⟩
  · rintro ⟨hs | rfl | hs, hle⟩
    · exact .inl hs
    · exact .inr rfl
    · exact absurd hle (List.rel_of_pairwise_cons htail hs).not_ge

end Order

section Exact

variable {K : Type} [Field K] [LinearOrder K] [FloorRing K]

/-- The stepsizes of a line search: the halvings of one that are long enough. -/
def Allowed (t : K) : Prop := ∃ k : ℕ, t = 0.5 ^ k ∧ 1e-8 ≤ t

/-- Where a step along a direction leads. -/
def endpoint (x d : List K) (t : K) : List K := Vec.add x (Vec.scale t d)

/-- The stepsizes at whose end the objective can be evaluated, and lies below its value at
the start by a small multiple of stepsize times squared length of the direction. -/
def acceptable (o : Oracle K) (x d : List K) : Set K :=
  {t | Allowed t ∧ ∃ here there, o.value x = .ok here ∧ o.value (endpoint x d t) = .ok there ∧
    there < here - 1e-4 * t * Vec.normSq d}

/-- The sample at a point, with its objective evaluated. -/
def evaluatedAt (o : Oracle K) (x : List K) : Sample K :=
  { position := x, objective := .ofOption (o.evaluateObjective x).1 }

/-- All that a line search leaves behind: for each stepsize that was tried a new sample whose
objective was evaluated, and the count of these evaluations. -/
structure OnlyTried (o : Oracle K) (w : Workspace K) (tries : List K) (w' : Workspace K) :
    Prop where
  samples_eq : w'.samples = w.samples ++ (tries.map fun t =>
    evaluatedAt o (endpoint w.currentSample.position w.direction t)).toArray
  objectiveEvaluations_eq :
    w'.objectiveEvaluations = w.objectiveEvaluations + tries.length
  gradientEvaluations_eq : w'.gradientEvaluations = w.gradientEvaluations
  current_eq : w'.current = w.current
  currentSample_eq : w'.currentSample = w.currentSample
  direction_eq : w'.direction = w.direction
  bundle_eq : w'.bundle = w.bundle
  radii_eq : w'.radii = w.radii

/-- What a line search ends with, given the stepsizes that it tried. -/
structure Searched (o : Oracle K) (w : Workspace K) (tries : List K) (found : Option SampleId)
    (w' : Workspace K) : Prop extends OnlyTried o w tries w' where
  decreasing : tries.Pairwise (· > ·)
  /-- A stepsize is tried unless a longer one is acceptable. -/
  mem_tries_iff : ∀ t, t ∈ tries ↔
    Allowed t ∧ t ∈ upperBounds (acceptable o w.currentSample.position w.direction)
  /-- What is found is the trial point, at the end of the longest acceptable step. -/
  longest : ∀ id ∈ found, id = w'.trial ∧ ∃ t value,
    IsGreatest (acceptable o w.currentSample.position w.direction) t ∧
      o.value (endpoint w.currentSample.position w.direction t) = .ok value ∧
      (w'.sampleAt id).position = endpoint w.currentSample.position w.direction t ∧
      (w'.sampleAt id).objective = .known value
  none_iff : found = none ↔ acceptable o w.currentSample.position w.direction = ∅

section Stepsizes

variable [IsStrictOrderedRing K]

/-- The stepsizes are the powers of the ratio, as far as they are long enough. -/
theorem mem_stepsizesFrom_iff {fuel : ℕ} {a t : K} (ha : 0 ≤ a) : t ∈ stepsizesFrom fuel a ↔
    ∃ k < fuel, t = a * ratio ^ k ∧ leastStepsize ≤ t := by
  have hratio : (0 : K) ≤ ratio ∧ (ratio : K) ≤ 1 := by norm_num [ratio]
  induction fuel generalizing a with
  | zero => simp [stepsizesFrom]
  | succ fuel ih =>
    rw [stepsizesFrom]
    have hrest : t ∈ stepsizesFrom fuel (a * ratio) ↔
        ∃ k < fuel, t = a * ratio * ratio ^ k ∧ leastStepsize ≤ t := ih (mul_nonneg ha hratio.1)
    by_cases hleast : leastStepsize ≤ a
    · rw [if_pos hleast, List.mem_cons, hrest]
      constructor
      · rintro (rfl | ⟨k, hk, ht, hlong⟩)
        · exact ⟨0, Nat.succ_pos _, by simp, hleast⟩
        · exact ⟨k + 1, Nat.succ_lt_succ hk, by rw [ht]; ring, hlong⟩
      · rintro ⟨_ | k, hk, ht, hlong⟩
        · exact .inl (by simpa using ht)
        · exact .inr ⟨k, Nat.lt_of_succ_lt_succ hk, by rw [ht]; ring, hlong⟩
    · rw [if_neg hleast]
      refine ⟨nofun, fun ⟨k, _, ht, hlong⟩ => absurd (hlong.trans ?_) hleast⟩
      rw [ht]
      exact mul_le_of_le_one_right ha (pow_le_one₀ hratio.1 hratio.2)

/-- The stepsizes fall. -/
theorem pairwise_stepsizesFrom (fuel : ℕ) (a : K) :
    (stepsizesFrom fuel a).Pairwise (· > ·) := by
  have hratio : (0 : K) < ratio ∧ (ratio : K) < 1 := by norm_num [ratio]
  induction fuel generalizing a with
  | zero => exact .nil
  | succ fuel ih =>
    rw [stepsizesFrom]
    by_cases hleast : leastStepsize ≤ a
    · rw [if_pos hleast]
      have hpos : 0 < a := lt_of_lt_of_le (by norm_num [leastStepsize]) hleast
      have hnext : 0 ≤ a * ratio := (mul_pos hpos hratio.1).le
      refine .cons (fun t ht => ?_) (ih _)
      obtain ⟨k, _, rfl, _⟩ := (mem_stepsizesFrom_iff hnext).mp ht
      calc a * ratio * ratio ^ k ≤ a * ratio :=
            mul_le_of_le_one_right hnext (pow_le_one₀ hratio.1.le hratio.2.le)
        _ < a := mul_lt_of_lt_one_right hpos hratio.2
    · rw [if_neg hleast]
      exact .nil

/-- The halvings that are long enough end before the twenty-eighth. -/
theorem mem_stepsizes_iff {t : K} : t ∈ (stepsizes : List K) ↔ Allowed t := by
  rw [stepsizes, mem_stepsizesFrom_iff zero_le_one]
  simp only [one_mul]
  refine ⟨fun ⟨k, _, h⟩ => ⟨k, h⟩, fun ⟨k, ht, hlong⟩ => ⟨k, ?_, ht, hlong⟩⟩
  by_contra hk
  -- The list stops after 28 entries whatever they are; by then they are too short.
  have hshort : (0.5 : K) ^ k ≤ 0.5 ^ 28 :=
    pow_le_pow_of_le_one (by norm_num) (by norm_num) (not_lt.mp hk)
  have hleast : (0.5 : K) ^ 28 < 1e-8 := by norm_num
  exact ((ht ▸ hlong).trans hshort).not_gt hleast

end Stepsizes

section Steps

variable {o : Oracle K} {w : Workspace K} {value : K}

/-- A trial is the sample evaluated at the end of its step. -/
theorem tried_eq (o : Oracle K) (w : Workspace K) (t : K) :
    w.tried o t = evaluatedAt o (endpoint w.currentSample.position w.direction t) := by
  rw [evaluatedAt, endpoint, ← Sample.position_moved]
  rfl

/-- A value is known at a point if the objective gives it. -/
theorem objective_evaluatedAt {x : List K} :
    (evaluatedAt o x).objective = .known value ↔ o.value x = .ok value := by
  have hknown : (evaluatedAt o x).objective = .known value ↔
      (o.evaluateObjective x).1 = some value := by
    rw [evaluatedAt]
    cases (o.evaluateObjective x).1 <;> simp [Evaluation.ofOption]
  rw [hknown, Sample.evaluateObjective_eq_some_iff]
  exact and_iff_left rfl

/-- A stepsize is acceptable if it is allowed and its trial passes. -/
theorem mem_acceptable_iff (hhere : o.value w.currentSample.position = .ok value) (t : K) :
    t ∈ acceptable o w.currentSample.position w.direction ↔
      Allowed t ∧ Passes o w (some value) (Vec.normSq w.direction) t := by
  refine and_congr_right fun _ => ?_
  rw [Passes, tried_eq]
  constructor
  · rintro ⟨here, there, hhere', hthere, hlower⟩
    obtain rfl : value = here := Except.ok.inj (hhere.symm.trans hhere')
    rw [objective_evaluatedAt.mpr hthere]
    exact isLower_iff.mpr hlower
  · intro hpasses
    cases hthere : (evaluatedAt o (endpoint w.currentSample.position w.direction t)).objective with
    | pending | failed =>
      rw [hthere] at hpasses
      cases hpasses
    | known there =>
      rw [hthere] at hpasses
      exact ⟨value, there, hhere, objective_evaluatedAt.mp hthere, isLower_iff.mp hpasses⟩

/-- Trials change only what trials change. -/
theorem onlyTried_afterTrials (hcurrent : w.current < w.samples.size) (tries : List K) :
    OnlyTried o w tries (w.afterTrials o tries) := by
  obtain ⟨trial, notices, heq⟩ := Workspace.afterTrials_eq (o := o) hcurrent tries
  rw [heq, funext (tried_eq o w)]
  refine ⟨rfl, rfl, rfl, rfl, ?_, rfl, rfl, rfl⟩
  simp [Workspace.currentSample, Workspace.sampleAt_eq, Array.getElem?_append, hcurrent]

end Steps

variable [IsStrictOrderedRing K] {o : Oracle K} {w : Workspace K} {value : K}

/-- A search that ends with the first stepsize that passes has found the longest one. -/
theorem searched_of_first {before after : List K} {t : K} (hw : w.WellFormed o)
    (hhere : o.value w.currentSample.position = .ok value)
    (hall : (stepsizes : List K) = before ++ t :: after)
    (hbefore : ∀ s ∈ before, ¬Passes o w (some value) (Vec.normSq w.direction) s)
    (ht : Passes o w (some value) (Vec.normSq w.direction) t) :
    Searched o w (before ++ [t]) (some (w.samples.size + before.length))
      (w.afterTrials o (before ++ [t])) := by
  have hfall : (before ++ t :: after).Pairwise (· > ·) := hall ▸ pairwise_stepsizesFrom 28 1
  have hacceptable : acceptable o w.currentSample.position w.direction =
      {s | s ∈ before ++ t :: after ∧ Passes o w (some value) (Vec.normSq w.direction) s} := by
    ext s
    rw [mem_acceptable_iff hhere, ← mem_stepsizes_iff, hall, Set.mem_ofPred_eq]
  have hgreatest := isGreatest_of_first hfall hbefore ht
  rw [← hacceptable] at hgreatest
  have hsample : (w.afterTrials o (before ++ [t])).sampleAt (w.samples.size + before.length) =
      evaluatedAt o (endpoint w.currentSample.position w.direction t) :=
    (Workspace.sampleAt_afterTrials hw.current_lt (by simp)).trans (tried_eq o w t)
  refine ⟨onlyTried_afterTrials hw.current_lt _, ?_, fun s => ?_, fun id hid => ?_, ?_⟩
  · exact hfall.sublist ((List.singleton_sublist.mpr List.mem_cons_self).append_left before)
  · rw [mem_concat_iff_of_falling hfall, ← hall, mem_stepsizes_iff]
    refine and_congr_right fun _ => ?_
    exact ⟨fun hle _ hr => (hgreatest.2 hr).trans hle, fun hs => hs hgreatest.1⟩
  · cases hid
    obtain ⟨_, _, there, _, hthere, _⟩ := hgreatest.1
    refine ⟨(Workspace.trial_afterTrials_concat hw.current_lt before t).symm, t, there, hgreatest,
      hthere, ?_, ?_⟩
    · rw [hsample]
      rfl
    · rw [hsample, objective_evaluatedAt.mpr hthere]
  · exact ⟨nofun, fun hempty => absurd hgreatest.1 (hempty ▸ Set.notMem_empty t)⟩

/-- A search that has failed at every stepsize has tried all that are allowed. -/
theorem searched_of_none (hw : w.WellFormed o)
    (hhere : o.value w.currentSample.position = .ok value)
    (hnone : ∀ s ∈ (stepsizes : List K), ¬Passes o w (some value) (Vec.normSq w.direction) s) :
    Searched o w stepsizes none (w.afterTrials o stepsizes) := by
  have hempty : acceptable o w.currentSample.position w.direction = ∅ := by
    refine Set.eq_empty_of_forall_notMem fun s hs => ?_
    obtain ⟨hallowed, hpasses⟩ := (mem_acceptable_iff hhere s).mp hs
    exact hnone s (mem_stepsizes_iff.mpr hallowed) hpasses
  refine ⟨onlyTried_afterTrials hw.current_lt _, pairwise_stepsizesFrom 28 1, fun s => ?_, nofun,
    iff_of_true rfl hempty⟩
  rw [mem_stepsizes_iff, hempty, upperBounds_empty]
  exact (and_iff_left trivial).symm

/-- The line search finds the longest acceptable step, and finds nothing only if there is no
such step; all that it leaves behind otherwise are the trial points, each evaluated once. -/
theorem backtrack_finds_longest (hw : w.WellFormed o) (hd : w.direction.length = w.dimension)
    (hknown : w.currentSample.objective.isKnown = true) :
    ∃ tries found w', backtrack o w = .ok found w' ∧ Searched o w tries found w' := by
  obtain ⟨value, hvalue⟩ := Workspace.isKnown_iff.mp hknown
  have hhere : o.value w.currentSample.position = .ok value :=
    (Sample.evaluateObjective_eq_some_iff.mp
      ((hw.faithful _ hw.current_lt).objective_eq hvalue)).1
  have hstart : backtrack o w =
      firstAcceptable o (some value) (Vec.normSq w.direction) stepsizes w := by
    rw [← hvalue]
    rfl
  rw [hstart]
  rcases firstAcceptable_run stepsizes hw hd with
    ⟨before, t, after, hall, hbefore, ht, hrun⟩ | ⟨hnone, hrun⟩
  · exact ⟨_, _, _, hrun, searched_of_first hw hhere hall hbefore ht⟩
  · exact ⟨_, _, _, hrun, searched_of_none hw hhere hnone⟩

end Exact

/-- A step of length one from here ends beyond the cliff. -/
def beforeCliff : Workspace ℚ where
  dimension := 1
  samples := #[{ position := [-1], objective := .known 1 }]
  direction := [3]
  radii := ⟨1, 1⟩
  startTime := 0
  timeLimit := 1
  searchTime := 0

/-- The start before the cliff is well formed. -/
theorem wellFormed_beforeCliff : beforeCliff.WellFormed cliff where
  dimension_eq := rfl
  length_position id hid := by
    rw [Nat.lt_one_iff.mp hid]
    rfl
  faithful id hid := by
    rw [Nat.lt_one_iff.mp hid]
    exact ⟨.inr (by decide +kernel), .inl rfl⟩
  current_lt := Nat.one_pos
  bundle_lt id hid := absurd hid List.not_mem_nil

/-- There is no value beyond the cliff, and half of the step leads to a lower point. -/
theorem backtrack_finds_longest_before_cliff :
    beforeCliff.WellFormed cliff ∧ beforeCliff.direction.length = beforeCliff.dimension ∧
      beforeCliff.currentSample.objective.isKnown = true ∧
      ∃ tries w', backtrack cliff beforeCliff = .ok (some 2) w' ∧
        Searched cliff beforeCliff tries (some 2) w' ∧
        (w'.sampleAt 2).position = [1 / 2] ∧ w'.objectiveEvaluations = 2 := by
  have hknown : beforeCliff.currentSample.objective.isKnown = true := rfl
  obtain ⟨tries, found, w', hrun, hsearched⟩ :=
    backtrack_finds_longest wellFormed_beforeCliff rfl hknown
  have hend : (match backtrack cliff beforeCliff with
      | .ok found w' => some (found, (w'.sampleAt 2).position, w'.objectiveEvaluations)
      | .error _ _ => none) = some (some 2, [1 / 2], 2) := by
    decide +kernel
  rw [hrun] at hend
  obtain ⟨rfl, hposition, hcount⟩ : found = some 2 ∧ (w'.sampleAt 2).position = [1 / 2] ∧
      w'.objectiveEvaluations = 2 := by simpa using hend
  exact ⟨wellFormed_beforeCliff, rfl, hknown, tries, w', hrun, hsearched, hposition, hcount⟩

end NonsmoothDescent.LineSearch
