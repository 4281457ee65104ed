import NonsmoothDescent.Proofs.Search.Anchor

/-!
# Cuts as minorants

Where the gradients that the oracle gives are subgradients of the objective, as they are
for a convex one, every plane of a search lies below the objective: the plane at a sample
is a linearization, the downshift only lowers it, and a mixture of minorants is one. So
the dual value of a solve that succeeds bounds the objective from below, up to half the
squared step, within the trust-region radius.
-/

namespace NonsmoothDescent

variable {K : Type} [Field K] [LinearOrder K] [FloorRing K]

/-- A slope with which a linear function through the value of a function at a point stays
below it. The value `⊤` stands for a point outside the domain. -/
def IsSubgradient (f : List K → WithTop K) (x slope : List K) : Prop :=
  ∀ y : List K, y.length = x.length → f x + (Vec.dot slope y : K) ≤ f (Vec.add x y)

/-- The values that the oracle gives are those of a function, and the gradients that it
gives are subgradients. -/
structure Oracle.HasSubgradients (o : Oracle K) (f : List K → WithTop K) : Prop where
  value_eq : ∀ {x : List K} {value : K}, x.length = o.dimension →
    (o.evaluateObjective x).1 = some value → f x = value
  isSubgradient : ∀ {x slope : List K} {value : K}, x.length = o.dimension →
    (o.evaluateObjective x).1 = some value → (o.evaluateGradient x).1 = some slope →
    IsSubgradient f x slope

/-- The plane lies below the function around a point. -/
def Plane.IsMinorant (f : List K → WithTop K) (x : List K) (p : Plane K) : Prop :=
  ∀ y : List K, y.length = x.length →
    ((p.bias + Vec.dot p.slope y : K) : WithTop K) ≤ f (Vec.add x y)

/-- The linearization at a point is a minorant around it. -/
theorem Oracle.HasSubgradients.isMinorant {o : Oracle K} {f : List K → WithTop K}
    (h : o.HasSubgradients f) {x slope : List K} {value : K} (hx : x.length = o.dimension)
    (hvalue : (o.evaluateObjective x).1 = some value)
    (hslope : (o.evaluateGradient x).1 = some slope) : Plane.IsMinorant f x ⟨slope, value⟩ := by
  intro y hy
  have hbelow := h.isSubgradient hx hvalue hslope y hy
  rwa [h.value_eq hx hvalue, ← WithTop.coe_add] at hbelow

section Law

variable [IsStrictOrderedRing K]

/-- A linearization at a point is a minorant around any other point, with the bias that it
has there; with a lower bias all the more. -/
theorem Plane.IsMinorant.shifted {f : List K → WithTop K} {x z slope : List K} {value bias : K}
    (h : Plane.IsMinorant f z ⟨slope, value⟩) (hx : x.length = z.length)
    (hbias : bias ≤ value + Vec.dot slope (Vec.sub x z)) : Plane.IsMinorant f x ⟨slope, bias⟩ := by
  intro y hy
  have hlength : (Vec.sub x z).length = y.length := by
    rw [Vec.length_sub, hx, min_self, hy, hx]
  have hbelow := h (Vec.add (Vec.sub x z) y) (by rw [Vec.length_add, hlength, min_self, hy, hx])
  rw [Vec.add_sub_add hx (hy.trans hx)] at hbelow
  refine le_trans (WithTop.coe_le_coe.mpr ?_) hbelow
  rw [Vec.dot_add_right hlength, ← add_assoc]
  exact add_le_add_left hbias _

/-- A mixture of minorants is a minorant. -/
theorem isMinorant_mix {f : List K → WithTop K} {n : Nat} {x : List K} {planes : List (Plane K)}
    {weights : List K} (hlength : ∀ p ∈ planes, p.slope.length = n)
    (h : ∀ p ∈ planes, p.IsMinorant f x) (hweights : IsWeighting planes.length weights) :
    (Subproblem.mix n planes weights).IsMinorant f x := by
  intro y hy
  let q : Subproblem K := { dimension := n, planes, bound := .unbounded }
  have hvalue : (Subproblem.mix n planes weights).bias +
      Vec.dot (Subproblem.mix n planes weights).slope y = Vec.dot weights (q.valuesAt y) := by
    rw [Subproblem.dot_valuesAt (p := q) hlength, Vec.dot_comm q.biases]
    rfl
  rw [hvalue]
  cases hf : f (Vec.add x y) with
  | top => exact le_top
  | coe bound =>
    refine WithTop.coe_le_coe.mpr (hweights.dot_le (Subproblem.length_valuesAt q y) ?_)
    intro value hv
    obtain ⟨p, hp, rfl⟩ := List.mem_map.mp hv
    exact WithTop.coe_le_coe.mp ((h p hp y hy).trans_eq hf)

/-- Being a minorant of the objective is a law of planes. -/
theorem minorantLaw {setting : Setting K} {f : List K → WithTop K}
    (hf : setting.oracle.HasSubgradients f) (radius : K) :
    PlaneLaw setting radius fun w p => p.IsMinorant f w.currentSample.position where
  grows hw hg hp := by
    rw [(hg.currentSample hw.current_lt).position_eq]
    exact hp
  current {w p} hw hp := by
    have hfaithful := hw.faithful _ hw.current_lt
    exact hf.isMinorant ((hw.length_position _ hw.current_lt).trans hw.dimension_eq.symm)
      (hfaithful.objective_eq hp.objective_eq) (hfaithful.gradient_eq hp.gradient_eq)
  sampled {w id p} hw hid hp _ := by
    obtain ⟨slope, value, currentValue, hg, hv, _, rfl⟩ := Sample.plane?_eq_some_iff.mp hp
    have hfaithful := hw.faithful id hid
    have hposition := hw.length_position id hid
    have hsample := hf.isMinorant (hposition.trans hw.dimension_eq.symm)
      (hfaithful.objective_eq hv) (hfaithful.gradient_eq hg)
    refine hsample.shifted ((hw.length_position _ hw.current_lt).trans hposition.symm) ?_
    rw [Cut.shiftedBias, Scalar.lesser_eq_min]
    exact min_le_left _ _
  mixed _ hlength hplanes hweights := isMinorant_mix hlength hplanes hweights

/-- The dual value of a weighting of minorants bounds the function within the bound. -/
theorem Subproblem.dual_le_of_isMinorant {f : List K → WithTop K} {x : List K}
    {p : Subproblem K} {weights y : List K} (hp : p.WellFormed) (hb : p.bound.Positive)
    (hweights : IsWeighting p.planes.length weights) (h : ∀ q ∈ p.planes, q.IsMinorant f x)
    (hx : p.dimension = x.length) (hy : p.Feasible y) :
    (p.dual weights : WithTop K) ≤ f (Vec.add x y) + (1 / 2 * Vec.normSq y : K) := by
  have hmix := isMinorant_mix hp h hweights y (hy.length_eq.trans hx)
  have hvalue : (mix p.dimension p.planes weights).bias +
      Vec.dot (mix p.dimension p.planes weights).slope y =
        Vec.dot p.biases weights + Vec.dot (p.combination weights) y := by
    rw [Vec.dot_comm p.biases]
    rfl
  have hlength : (p.combination weights).length = y.length := by
    rw [length_combination hp, hy.length_eq]
  have hgrowth := linear_growth hb hlength hy.allowed
  have hdistance := Vec.normSq_nonneg (Vec.sub y (p.stepOf (p.combination weights)))
  have hdual : p.dual weights ≤ (mix p.dimension p.planes weights).bias +
      Vec.dot (mix p.dimension p.planes weights).slope y + 1 / 2 * Vec.normSq y := by
    rw [hvalue, dual_eq, stepAt]
    linarith
  refine (WithTop.coe_le_coe.mpr hdual).trans ?_
  rw [WithTop.coe_add]
  exact add_le_add_left hmix _

/-- Within the radius every entry is allowed. -/
theorem StepBound.allows_ofRadius {radius : K} {y : List K} (h : Vec.normInf y ≤ radius) :
    ∀ a ∈ y, (StepBound.ofRadius (some radius)).Allows a := by
  intro a ha
  by_cases hr : 0 < radius
  · rw [ofRadius, if_pos hr]
    exact (Vec.abs_le_normInf ha).trans h
  · rw [ofRadius, if_neg hr]
    trivial

variable {setting : Setting K} {entry : SearchState K}

/-- In a call on an objective of which all evaluated gradients are subgradients, all planes
of every solve are minorants of the objective around the current point. After every
success the dual value bounds the objective within the trust-region radius, up to half
the squared step. -/
theorem planes_are_minorants {f : List K → WithTop K}
    (hw : entry.workspace.WellFormed setting.oracle) (ho : setting.options.Accepted)
    (hf : setting.oracle.HasSubgradients f) :
    ∀ m, Event.solved m ∈
        (finalState (Search.computeDirection setting entry)).journal.toList →
      (∀ p ∈ m.solver.subproblem.planes, ∀ y : List K, y.length = setting.oracle.dimension →
        ((p.bias + Vec.dot p.slope y : K) : WithTop K) ≤
          f (Vec.add entry.workspace.currentSample.position y)) ∧
      (m.solver.status = .success → ∀ y : List K, y.length = setting.oracle.dimension →
        Vec.normInf y ≤ entry.workspace.radii.trust →
          (m.solver.subproblem.dual m.solver.weights : WithTop K) ≤
            f (Vec.add entry.workspace.currentSample.position y) +
              (1 / 2 * Vec.normSq y : K)) := by
  intro m hm
  obtain ⟨start, hopens, kind, journal, hreached⟩ :=
    (Search.computeDirection_cases hw).cases_of_event hm
  obtain ⟨hsolves, _⟩ := (hreached.inv hopens.inv).holds
  have hempty : start.engine.activeCuts = [] := by rw [Engine.activeCuts, hopens.active_eq]
  have hobeys := ((minorantLaw hf _).obeys hopens.inv ho
    ⟨hopens.fullCuts_eq, hopens.aggregatedCuts_eq, hempty⟩ hreached).activeCuts
  have hplanes := hsolves.denote.obey hobeys
  have hposition : m.workspace.currentSample.position = entry.workspace.currentSample.position :=
    ((hopens.grows.trans (hreached.grows hopens.inv)).currentSample hw.current_lt).position_eq
  have hlength : entry.workspace.currentSample.position.length = setting.oracle.dimension :=
    (hw.length_position _ hw.current_lt).trans hw.dimension_eq.symm
  rw [hposition] at hplanes
  refine ⟨fun p hp y hy => hplanes p hp y (hy.trans hlength.symm), fun hsuccess y hy hradius => ?_⟩
  have hweighted : m.solver.Weighted := hreached.weighs hopens.inv (.inl hsuccess)
  have hbound := (hreached.alike hopens.inv).bound_eq.trans hopens.bound_eq
  have hdimension : m.solver.subproblem.dimension = setting.oracle.dimension :=
    m.dimension_solver.trans hsolves.wellFormed.dimension_eq.symm
  refine Subproblem.dual_le_of_isMinorant (Moment.wellFormed_subproblem hsolves.denote) ?_
    hweighted.isWeighting hplanes (hdimension.trans hlength.symm) ⟨hy.trans hdimension.symm, ?_⟩
  · rw [hbound]
    exact StepBound.positive_ofRadius _
  · rw [hbound]
    exact StepBound.allows_ofRadius hradius

end Law

/-- The absolute value of one variable, with other vectors outside the domain. -/
def valleyValue : List ℚ → WithTop ℚ
  | [x] => (|x| : ℚ)
  | _ => ⊤

/-- The gradients of the valley are its subgradients, also at its lowest point. -/
theorem hasSubgradients_valley : valley.HasSubgradients valleyValue where
  value_eq {x value} hx hvalue := by
    obtain ⟨a, rfl⟩ := List.length_eq_one_iff.mp hx
    cases hvalue
    rfl
  isSubgradient {x slope value} hx _ hslope := by
    obtain ⟨a, rfl⟩ := List.length_eq_one_iff.mp hx
    intro y hy
    obtain ⟨b, rfl⟩ := List.length_eq_one_iff.mp hy
    have hsign : slope = [if a < 0 then -1 else 1] := by
      cases hslope
      rfl
    change ((|a| : ℚ) : WithTop ℚ) + (Vec.dot slope [b] : ℚ) ≤ ((|a + b| : ℚ) : WithTop ℚ)
    rw [← WithTop.coe_add, WithTop.coe_le_coe, hsign, Vec.dot_cons, Vec.dot_nil_left, add_zero]
    split
    · rename_i hneg
      rw [abs_of_neg hneg]
      linarith [neg_abs_le (a + b)]
    · rename_i hpos
      rw [abs_of_nonneg (not_lt.mp hpos)]
      linarith [le_abs_self (a + b)]

/-- Cuts from both sides of the valley and their aggregates are minorants, and the dual value
bounds all values within the radius. -/
theorem planes_are_minorants_across_valley :
    ∃ m, Event.solved m ∈
        (finalState (Search.computeDirection condensing acrossValley)).journal.toList ∧
      m.solver.cuts = 3 ∧
      (∀ p ∈ m.solver.subproblem.planes, ∀ y : ℚ,
        ((p.bias + Vec.dot p.slope [y] : ℚ) : WithTop ℚ) ≤ valleyValue [1 / 100 + y]) ∧
      ∀ y : ℚ, Vec.normInf [y] ≤ 1 →
        (m.solver.subproblem.dual m.solver.weights : WithTop ℚ) ≤
          valleyValue [1 / 100 + y] + (1 / 2 * Vec.normSq [y] : ℚ) := by
  have hfound :
      ((solvesOf (finalState (Search.computeDirection condensing acrossValley)).journal.toList).any
        fun m => decide (m.solver.cuts = 3 ∧ m.solver.status = .success)) = true := by
    decide +kernel
  have hw : acrossValley.workspace.WellFormed condensing.oracle := wellFormed_acrossValley
  obtain ⟨m, hevent, hsolved⟩ := exists_solved_of_any hfound
  obtain ⟨hcuts, hsuccess⟩ := of_decide_eq_true hsolved
  obtain ⟨hplanes, hdual⟩ :=
    planes_are_minorants hw accepted_condensing hasSubgradients_valley m hevent
  exact ⟨m, hevent, hcuts, fun p hp y => hplanes p hp [y] rfl,
    fun y hy => hdual hsuccess [y] rfl hy⟩

end NonsmoothDescent
