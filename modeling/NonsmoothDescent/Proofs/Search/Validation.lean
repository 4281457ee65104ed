import NonsmoothDescent.Proofs.Double
import NonsmoothDescent.Proofs.Search.Coherence

/-!
# Validated settings

A workspace refuses a radius that is at most zero and a time limit below zero, and a
shrinking rule refuses a tolerance below zero. A double that is not a number is neither, so
it passes these checks; every other double that passes is in range. The factor of a rule is
checked the other way round: it has to be above zero and at most one, which a double that
is not a number is not. Where products of radii and factors are exact, a radius that was in
range at first stays positive and never grows, whatever calls follow.
-/

namespace NonsmoothDescent

/-- A result that is no fault is a value. -/
theorem exists_of_isOk {ε β : Type} {result : Except ε β} (h : result.isOk = true) :
    ∃ value, result = .ok value := by
  cases result with
  | error => cases h
  | ok value => exact ⟨value, rfl⟩

/-- Numbers, some of them possibly infinite or undefined, with exact products. An undefined
number is not even at most itself. -/
class ExactProducts (α : Type) [Scalar α] : Prop where
  /-- A defined number is at most zero or positive. -/
  pos_of_not_le {a : α} : a ≤ a → ¬ a ≤ 0 → 0 < a
  le_of_pos {a : α} : 0 < a → a ≤ a
  le_trans {a b c : α} : a ≤ b → b ≤ c → a ≤ c
  mul_pos {a b : α} : 0 < a → 0 < b → 0 < a * b
  mul_le {a b : α} : 0 < a → 0 < b → b ≤ 1 → a * b ≤ a

instance {K : Type} [Field K] [LinearOrder K] [FloorRing K] [IsStrictOrderedRing K] :
    ExactProducts K where
  pos_of_not_le _ h := not_le.mp h
  le_of_pos _ := le_rfl
  le_trans := le_trans
  mul_pos := mul_pos
  mul_le ha _ hb := mul_le_of_le_one_right ha.le hb

section Generic

variable {α : Type} [Scalar α]

/-- A rule decides like a shrinking rule that was made with checked factors. -/
def RadiusRule.Validated (rule : RadiusRule α) : Prop :=
  ∃ tolerance factor shrinks made, ShrinkRule.make tolerance factor shrinks = .ok made ∧
    rule.verdict = made.toRule.verdict

/-- Each radius that was in range at first is still positive and no larger than it was. -/
structure Radii.Within (first radii : Radii α) : Prop where
  stationarity : 0 < first.stationarity →
    0 < radii.stationarity ∧ radii.stationarity ≤ first.stationarity
  trust : 0 < first.trust → 0 < radii.trust ∧ radii.trust ≤ first.trust

/-- Within a history the radii are changed by the calls only. -/
def SameRadii (w w' : Workspace α) : Prop := w'.radii = w.radii

section Exact

variable [ExactProducts α]

/-- Radii are within themselves. -/
theorem Radii.Within.refl (first : Radii α) : first.Within first :=
  ⟨fun h => ⟨h, ExactProducts.le_of_pos h⟩, fun h => ⟨h, ExactProducts.le_of_pos h⟩⟩

/-- A factor in range makes a radius smaller and leaves it positive. -/
theorem ExactProducts.shrunk {first r factor : α} (hpos : 0 < factor) (hle : factor ≤ 1)
    (h : 0 < r ∧ r ≤ first) : 0 < r * factor ∧ r * factor ≤ first :=
  ⟨mul_pos h.1 hpos, le_trans (mul_le h.1 hpos hle) h.2⟩

/-- A validated rule keeps radii in range. -/
theorem RadiusRule.Validated.keeps {rule : RadiusRule α} (h : rule.Validated) (first : Radii α) :
    rule.Keeps first.Within := by
  obtain ⟨tolerance, factor, shrinks, made, hmade, hverdict⟩ := h
  obtain ⟨rfl, _, hpos, hle⟩ := ShrinkRule.of_make hmade
  intro checks radii status norm hradii
  rw [hverdict]
  refine ShrinkRule.keeps (fun radii hradii => ?_) checks radii status norm hradii
  cases shrinks with
  | false => exact hradii
  | true =>
    exact ⟨fun h => ExactProducts.shrunk hpos hle (hradii.stationarity h),
      fun h => ExactProducts.shrunk hpos hle (hradii.trust h)⟩

/-- Radii in range stay so in a history of calls with validated rules. -/
theorem History.within {o : Oracle α} {first w : Workspace α} {calls : List (Call α)}
    (h : History o SameRadii first calls w) (hw : first.WellFormed o)
    (hrules : ∀ call ∈ calls, call.setting.rule.Validated) : first.radii.Within w.radii :=
  (h.radii hw (.refl first.radii) (fun _ _ hsame hwithin => hsame ▸ hwithin)
    fun call hc => (hrules call hc).keeps first.radii).1

end Exact

end Generic

/-- Doubles that pass the checks are in range or not a number, and the factor of a rule is
in range. In exact arithmetic, every radius that is defined is positive at first and, after
any history of calls with rules that passed the checks, positive and not larger. -/
theorem validation_lasts (n : Nat) (clock : Nat → Float) (settings : WorkspaceSettings Float)
    (origin : Nested Float) (tolerance factor : Float) (shrinks : Bool) :
    (∀ {w : Workspace Float}, Workspace.create n clock settings origin = .ok w →
      (0 < w.radii.stationarity ∨ w.radii.stationarity.isNaN = true) ∧
      (0 < w.radii.trust ∨ w.radii.trust.isNaN = true) ∧
      (0 ≤ w.timeLimit ∨ w.timeLimit.isNaN = true)) ∧
    (∀ {rule : ShrinkRule Float}, ShrinkRule.make tolerance factor shrinks = .ok rule →
      (0 ≤ rule.tolerance ∨ rule.tolerance.isNaN = true) ∧ 0 < rule.factor ∧
      rule.factor ≤ 1) ∧
    ∀ {α : Type} [Scalar α] [ExactProducts α] {o : Oracle α} {clock : Nat → α}
        {settings : WorkspaceSettings α} {origin : Nested α} {first w : Workspace α}
        {calls : List (Call α)},
      Workspace.create o.dimension clock settings origin = .ok first →
      History o SameRadii first calls w →
      (∀ call ∈ calls, call.setting.rule.Validated) →
        (settings.stationarity ≤ settings.stationarity →
          0 < w.radii.stationarity ∧ w.radii.stationarity ≤ settings.stationarity) ∧
        (settings.trust ≤ settings.trust →
          0 < w.radii.trust ∧ w.radii.trust ≤ settings.trust) := by
  refine ⟨fun h => ?_, fun h => ?_, fun hcreate h hrules => ?_⟩
  · obtain ⟨⟨hstationarity, htrust, htime⟩, _, _, _, _, rfl⟩ := Workspace.exists_of_create h
    exact ⟨Double.pos_or_isNaN_of_not_le hstationarity, Double.pos_or_isNaN_of_not_le htrust,
      Double.nonneg_or_isNaN_of_not_lt htime⟩
  · obtain ⟨rfl, htolerance, hpos, hle⟩ := ShrinkRule.of_make h
    exact ⟨Double.nonneg_or_isNaN_of_not_lt htolerance, hpos, hle⟩
  · have hwithin := h.within (Workspace.wellFormed_create hcreate) hrules
    obtain ⟨⟨hstationarity, htrust, _⟩, _, _, _, _, rfl⟩ := Workspace.exists_of_create hcreate
    refine ⟨fun hdefined => hwithin.stationarity ?_, fun hdefined => hwithin.trust ?_⟩
    · exact ExactProducts.pos_of_not_le hdefined hstationarity
    · exact ExactProducts.pos_of_not_le hdefined htrust

/-- A double that is not a number. -/
def undefinedDouble : Float := 0.0 / 0.0

/-- Every call on the slope shrinks the radii by half. -/
def halvingRule : ShrinkRule ℚ := ⟨20, 1 / 2, true⟩

/-- A call that shrinks the radii. -/
def firstHalving : Call ℚ where
  setting := timed {} halvingRule.toRule
  entry := { workspace := onSlope, engine := {} }

/-- The next one shrinks them again. -/
def secondHalving : Call ℚ := firstHalving.next (timed {} halvingRule.toRule)

/-- The two calls that halve the radii are a history. -/
theorem history_secondHalving : History valley SameRadii onSlope [firstHalving, secondHalving]
    secondHalving.final.workspace := by
  have hfirst : History valley SameRadii onSlope [] firstHalving.entry.workspace := .start
  have hsecond : History valley SameRadii onSlope [firstHalving] secondHalving.entry.workspace :=
    hfirst.next rfl _
  exact hsecond.called rfl

/-- A radius and a tolerance that are not numbers are let through. On the slope the radii are
halved by each of two calls. -/
theorem validation_lasts_on_slope :
    (∃ w : Workspace Float, Workspace.create 1 (fun _ => 0)
        { stationarity := undefinedDouble } (.row [.number 0.5]) = .ok w ∧
      w.radii.stationarity.isNaN = true ∧ 0 < w.radii.trust) ∧
    (∃ rule : ShrinkRule Float, ShrinkRule.make undefinedDouble 0.5 true = .ok rule ∧
      rule.tolerance.isNaN = true ∧ 0 < rule.factor ∧ rule.factor ≤ 1) ∧
    secondHalving.final.workspace.radii.stationarity = 1 / 40 ∧
      0 < secondHalving.final.workspace.radii.stationarity ∧
      secondHalving.final.workspace.radii.trust ≤ 2 := by
  obtain ⟨hcreated, hmade, hlasting⟩ := validation_lasts 1 (fun _ => 0)
    { stationarity := undefinedDouble } (.row [.number 0.5]) undefinedDouble 0.5 true
  have hundefined : undefinedDouble.isNaN = true := by decide +kernel
  refine ⟨?_, ?_, by decide +kernel, ?_⟩
  · have hok : (Workspace.create 1 (fun _ => 0) { stationarity := undefinedDouble }
        (.row [.number 0.5])).isOk = true := by decide +kernel
    obtain ⟨w, hw⟩ := exists_of_isOk hok
    have htrust := (hcreated hw).2.1
    obtain ⟨_, _, _, _, _, rfl⟩ := Workspace.exists_of_create hw
    have hdefined : ¬ (1.0 : Float).isNaN = true := by decide +kernel
    exact ⟨_, hw, hundefined, htrust.resolve_right hdefined⟩
  · have hok : (ShrinkRule.make undefinedDouble 0.5 true).isOk = true := by decide +kernel
    obtain ⟨rule, hrule⟩ := exists_of_isOk hok
    obtain ⟨_, hfactor⟩ := hmade hrule
    obtain ⟨rfl, _⟩ := ShrinkRule.of_make hrule
    exact ⟨_, hrule, hundefined, hfactor⟩
  · have hmake : ShrinkRule.make 20 (1 / 2) true = .ok halvingRule := by
      norm_num [ShrinkRule.make, halvingRule]
    have hvalidated : halvingRule.toRule.Validated := ⟨_, _, _, _, hmake, rfl⟩
    have hrules : ∀ call ∈ [firstHalving, secondHalving], call.setting.rule.Validated :=
      List.forall_mem_cons.mpr ⟨hvalidated, List.forall_mem_singleton.mpr hvalidated⟩
    obtain ⟨hstationarity, htrust⟩ := hlasting create_onSlope history_secondHalving hrules
    exact ⟨(hstationarity le_rfl).1, (htrust le_rfl).2⟩

end NonsmoothDescent
