import NonsmoothDescent.RadiusRule

/-!
# What radius rules decide

A rule may answer anything, with any radii. Two properties are of use: a rule keeps a
property of radii if its radii have it whenever the radii that it was asked about have it,
and it is steady if it changes the radii only where it fires. The shrinking rule is steady,
fires exactly after a successful solve with a small combination of slopes, and then
shrinks the radii.
-/

namespace NonsmoothDescent

variable {α : Type}

namespace RadiusRule

/-- A rule gives only radii with a property when it is asked about such radii. -/
def Keeps (rule : RadiusRule α) (P : Radii α → Prop) : Prop :=
  ∀ checks radii status norm, P radii → P (rule.verdict checks radii status norm).radii

/-- A rule changes the radii only where it fires. -/
def Steady (rule : RadiusRule α) : Prop :=
  ∀ checks radii status norm, (rule.verdict checks radii status norm).fires = false →
    (rule.verdict checks radii status norm).radii = radii

variable {rule : RadiusRule α} {record : RuleRecord} {radii : Radii α} {status : SolveStatus}
  {norm : α}

/-- A steady rule that does not fire leaves the radii as they were. -/
theorem Steady.ask_radii (h : rule.Steady)
    (hfired : (rule.ask record radii status norm).1.fired = false) :
    (rule.ask record radii status norm).2 = radii := h _ _ _ _ hfired

/-- The rule that never fires keeps every property of radii. -/
theorem keeps_never {P : Radii α → Prop} : (never : RadiusRule α).Keeps P :=
  fun _ _ _ _ hradii => hradii

/-- The rule that never fires is steady. -/
theorem steady_never : (never : RadiusRule α).Steady := fun _ _ _ _ _ => rfl

end RadiusRule

namespace ShrinkRule

variable [Scalar α] {rule : ShrinkRule α} {radii : Radii α} {status : SolveStatus} {norm : α}

/-- What a rule that was made is like. -/
theorem of_make {tolerance factor : α} {shrinks : Bool}
    (h : make tolerance factor shrinks = .ok rule) :
    rule = ⟨tolerance, factor, shrinks⟩ ∧ ¬ tolerance < 0 ∧ 0 < factor ∧ factor ≤ 1 := by
  unfold make at h
  by_cases htolerance : tolerance < 0
  · rw [if_pos htolerance] at h
    cases h
  by_cases hfactor : 0 < factor ∧ factor ≤ 1
  · rw [if_neg htolerance, if_pos hfactor] at h
    cases h
    exact ⟨rfl, htolerance, hfactor⟩
  · rw [if_neg htolerance, if_neg hfactor] at h
    cases h

/-- A shrinking rule fires if the solve was a success and the combination is small. -/
theorem fires_iff : (rule.verdict radii status norm).fires = true ↔
    status = .success ∧ norm ≤ rule.tolerance * radii.stationarity := by
  unfold verdict
  split
  · exact iff_of_true rfl ‹_›
  · exact iff_of_false Bool.false_ne_true ‹_›

/-- Where a shrinking rule fires it shrinks the radii, and otherwise it leaves them alone. -/
theorem radii_verdict : (rule.verdict radii status norm).radii =
    if (rule.verdict radii status norm).fires = true then rule.shrink radii else radii := by
  unfold verdict
  split <;> rfl

/-- A shrinking rule is steady. -/
theorem steady (rule : ShrinkRule α) : rule.toRule.Steady :=
  fun _ _ _ _ hfires => radii_verdict.trans (if_neg (Bool.eq_false_iff.mp hfires))

/-- A shrinking rule keeps what shrinking keeps. -/
theorem keeps {P : Radii α → Prop} (h : ∀ radii, P radii → P (rule.shrink radii)) :
    rule.toRule.Keeps P := by
  intro checks radii status norm hradii
  change P (rule.verdict radii status norm).radii
  rw [radii_verdict]
  split
  · exact h radii hradii
  · exact hradii

end ShrinkRule

end NonsmoothDescent
