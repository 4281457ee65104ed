import NonsmoothDescent.Fault
import NonsmoothDescent.Status

/-!
# Radius rules

A search works with two radii: sampled points count as near within the stationarity
radius, and steps stay within the trust-region radius. When the combination of
gradients that a solve has chosen is small against the stationarity radius, the
current point is nearly stationary at that scale, and the radii are to shrink. A
rule is asked before each acceptance test. The radii are from then on those that the
rule gives, and if it fires, the search ends with success.
-/

namespace NonsmoothDescent

/-- The two radii of a search. -/
structure Radii (α : Type) where
  /-- Within this distance of the current point, sampled points are near. -/
  stationarity : α
  /-- Largest entry of a step. -/
  trust : α
  deriving Repr

/-- What a rule decides. -/
structure Verdict (α : Type) where
  /-- Whether the rule fires. -/
  fires : Bool
  /-- The radii from then on. -/
  radii : Radii α

/-- A rule and the texts that it shows in reports. -/
structure RadiusRule (α : Type) where
  /-- The decision, given how often the rule was asked before, the present radii, how the
  last solve ended, and the largest entry of its combination of slopes. -/
  verdict : Nat → Radii α → SolveStatus → α → Verdict α
  /-- A text that report lines show in place of the rule's figures; empty for none. -/
  blank : String := ""
  /-- Texts that single lines show instead, by the number of lines before in the report. -/
  blankAt? : Nat → Option String := fun _ => none

/-- The text for a line that comes after so many lines in the report. -/
def RadiusRule.blankAfter {α : Type} (rule : RadiusRule α) (lines : Nat) : String :=
  (rule.blankAt? lines).getD rule.blank

/-- How a rule has been asked so far. -/
structure RuleRecord where
  /-- How often the rule was asked. -/
  checks : Nat := 0
  /-- Whether it fired when it was last asked. -/
  fired : Bool := false
  deriving Repr

/-- Asks a rule: the record afterwards, and the radii that the rule gives. -/
def RadiusRule.ask {α : Type} (rule : RadiusRule α) (r : RuleRecord) (radii : Radii α)
    (status : SolveStatus) (norm : α) : RuleRecord × Radii α :=
  let verdict := rule.verdict r.checks radii status norm
  (⟨r.checks + 1, verdict.fires⟩, verdict.radii)

/-- Shrinks both radii when the combination of slopes is small. -/
structure ShrinkRule (α : Type) where
  /-- The combination is small up to this multiple of the stationarity radius. -/
  tolerance : α
  /-- Factor that shrinks the radii. -/
  factor : α
  /-- Whether the radii are changed at all when the rule fires. -/
  shrinks : Bool
  deriving Repr

namespace ShrinkRule

variable {α : Type} [Scalar α]

/-- A rule with checked factors. -/
def make (tolerance factor : α) (shrinks : Bool) : Except (Fault α) (ShrinkRule α) :=
  if tolerance < 0 then .error (.toleranceFactorNegative tolerance)
  else if 0 < factor ∧ factor ≤ 1 then .ok ⟨tolerance, factor, shrinks⟩
  else .error (.updateFactorOutOfRange factor)

/-- The default tolerance and factor. -/
def standard : ShrinkRule α := ⟨0.1, 0.1, true⟩

/-- The radii after the rule has fired. -/
def shrink (rule : ShrinkRule α) (radii : Radii α) : Radii α :=
  if rule.shrinks then ⟨radii.stationarity * rule.factor, radii.trust * rule.factor⟩ else radii

/-- Fires after a successful solve with a small combination of slopes. -/
def verdict (rule : ShrinkRule α) (radii : Radii α) (status : SolveStatus) (norm : α) :
    Verdict α :=
  if status = .success ∧ norm ≤ rule.tolerance * radii.stationarity then
    ⟨true, rule.shrink radii⟩
  else ⟨false, radii⟩

/-- The rule as seen by a search. -/
def toRule (rule : ShrinkRule α) : RadiusRule α := { verdict := fun _ => rule.verdict }

end ShrinkRule

/-- A rule that never fires and leaves the radii alone. -/
def RadiusRule.never {α : Type} : RadiusRule α := { verdict := fun _ radii _ _ => ⟨false, radii⟩ }

end NonsmoothDescent
