import NonsmoothDescent.Subproblem.Minimizer

/-!
# An active-set minimizer

The dual of the subproblem is a quadratic program over nonnegative weights: on the
planes, with sum one, and two on each entry of the step for the bound. With one
column per weight, slopes for the planes and unit vectors of either sign for the
bound, and one gain per weight, biases for the planes and minus the radius for the
bound, half the squared length of the combination of columns less the combination of
gains is to be minimized.

A set of weights, the basis, is kept optimal among themselves. The weight whose
increase lowers the objective fastest is increased while the basis follows so that
it stays optimal, until the objective stops falling or a weight of the basis is zero
and leaves. Basis directions are kept orthogonal in the space of columns, so each
movement is a projection. The fuel bounds the number of movements.
-/

namespace NonsmoothDescent.ActiveSet

variable {α : Type} [Scalar α]

/-! ## The dual program -/

/-- A weight of the dual program. -/
structure Column (α : Type) where
  /-- What the weight adds to the combination. -/
  vector : List α
  /-- What the weight gains. -/
  gain : α
  /-- Whether the weight counts in the sum that is one. -/
  isPlane : Bool

/-- A combination of weights, with the combination of columns that belongs to it. -/
structure Combination (α : Type) where
  /-- One weight per column. -/
  weights : List α
  /-- The combination of columns. -/
  vector : List α

namespace Combination

/-- A multiple of one combination added to another. -/
def addMultiple (a : Combination α) (factor : α) (b : Combination α) : Combination α :=
  { weights := Vec.add a.weights (Vec.scale factor b.weights)
    vector := Vec.add a.vector (Vec.scale factor b.vector) }

/-- A combination less its projections on orthogonal ones. -/
def orthogonalTo (a : Combination α) (basis : List (Combination α)) : Combination α :=
  basis.foldl (fun rest b =>
    rest.addMultiple (-(Vec.dot rest.vector b.vector / Vec.normSq b.vector)) b) a

end Combination

/-- The largest absolute value of a coefficient. -/
def largestSlope (p : Subproblem α) : α :=
  Vec.normInf (p.planes.map fun plane => Vec.normInf plane.slope)

/-- The subproblem in units in which the largest coefficient is one, with biases relative
to the largest. Its weights at the optimum are the same. -/
def normalize (p : Subproblem α) : Subproblem α :=
  let unitLength := largestSlope p
  let top := Vec.maximum p.biases
  if 0 < unitLength then
    { dimension := p.dimension
      planes := p.planes.map fun plane =>
        ⟨plane.slope.map (· / unitLength), (plane.bias - top) / unitLength / unitLength⟩
      bound := match p.bound with
        | .unbounded => .unbounded
        | .within radius => .within (radius / unitLength) }
  else p

/-- A unit vector. -/
def unit (length place : Nat) : List α :=
  (List.range length).map fun i => if i = place then 1 else 0

/-- The columns of a subproblem: one per plane, then those of the bound, which are left
out if it cannot be active since the step is minus a convex combination of slopes. -/
def columns (p : Subproblem α) : List (Column α) :=
  let planes := p.planes.map fun plane => Column.mk plane.slope plane.bias true
  match p.bound with
  | .unbounded => planes
  | .within radius =>
    if largestSlope p ≤ radius then planes
    else planes ++ (List.range p.dimension).flatMap fun i =>
      [⟨unit p.dimension i, -radius, false⟩,
       ⟨Vec.scale (-1) (unit p.dimension i), -radius, false⟩]

/-! ## Movements -/

/-- The weights with their basis. -/
structure State (α : Type) where
  /-- The weights; those outside the basis are zero. -/
  current : Combination α
  /-- Places of the basis. -/
  basis : List Nat

/-- The derivatives of the objective by each weight. -/
def derivatives (cols : List (Column α)) (s : State α) : List α :=
  cols.map fun c => Vec.dot c.vector s.current.vector - c.gain

/-- A plane of the basis, which gives what another plane takes. -/
def reference? (cols : List (Column α)) (basis : List Nat) : Option Nat :=
  basis.find? fun i => (cols[i]?.map Column.isPlane).getD false

/-- The movement that raises one weight, at the cost of the reference if it is a plane. -/
def direction (cols : List (Column α)) (reference : Option Nat) (place : Nat) :
    Combination α :=
  let raised : Combination α :=
    ⟨unit cols.length place, (cols[place]?.map Column.vector).getD []⟩
  match reference with
  | none => raised
  | some r =>
    if (cols[place]?.map Column.isPlane).getD false && r ≠ place then
      raised.addMultiple (-1) ⟨unit cols.length r, (cols[r]?.map Column.vector).getD []⟩
    else raised

/-- Orthogonal movements within the basis. -/
def basisDirections (cols : List (Column α)) (reference : Option Nat) (basis : List Nat) :
    List (Combination α) :=
  (basis.filter fun i => some i ≠ reference).foldl (fun found place =>
    found ++ [((direction cols reference place).orthogonalTo found).orthogonalTo found]) []

/-- The rate at which the objective changes along a movement. -/
def rate (derivatives : List α) (movement : Combination α) : α :=
  Vec.dot derivatives movement.weights

/-- How far weights of the basis can move until one is zero, and which one that is. -/
def blocking (s : State α) (movement : Combination α) : Option (α × Nat) :=
  s.basis.foldl (fun best i =>
    match s.current.weights[i]?, movement.weights[i]? with
    | some w, some m =>
      if m < 0 then
        let length := w / -m
        match best with
        | some (least, _) => if length < least then some (length, i) else best
        | none => some (length, i)
      else best
    | _, _ => best) none

/-- The movement by which a weight is raised while the basis stays optimal. A movement
that leaves the combination unchanged up to rounding has no curvature. -/
def raising (cols : List (Column α)) (basis : List Nat) (place : Nat) :
    Combination α × α :=
  let reference := reference? cols basis
  let free := basisDirections cols reference basis
  let movement := ((direction cols reference place).orthogonalTo free).orthogonalTo free
  let curvature := Vec.normSq movement.vector
  (movement, if curvature < 0.000000000000000000001 then 0 else curvature)

/-- Sets a weight to exactly zero. -/
def clear (c : Combination α) (place : Nat) : Combination α :=
  { c with weights := c.weights.set place 0 }

/-- Raises a weight until the objective stops falling along the way. Weights of the basis
that become zero leave it. -/
def raise (cols : List (Column α)) (place : Nat) : Nat → State α → State α
  | 0, s => s
  | fuel + 1, s =>
    let isPlane := (cols[place]?.map Column.isPlane).getD false
    if isPlane && (reference? cols s.basis).isNone then { s with basis := place :: s.basis }
    else
      let (movement, curvature) := raising cols s.basis place
      let slope := rate (derivatives cols s) movement
      let wanted := if 0 < curvature then some (-slope / curvature) else none
      match wanted, blocking s movement with
      | some length, none =>
        ⟨s.current.addMultiple length movement, place :: s.basis⟩
      | none, none => s
      | wanted, some (limit, leaving) =>
        match wanted.filter fun length => decide (length ≤ limit) with
        | some length => ⟨s.current.addMultiple length movement, place :: s.basis⟩
        | none =>
          let moved := clear (s.current.addMultiple limit movement) leaving
          raise cols place fuel ⟨moved, s.basis.filter (· ≠ leaving)⟩

/-- Makes the weights of the basis optimal among themselves once more, against rounding. -/
def refine (cols : List (Column α)) (s : State α) : State α :=
  let free := basisDirections cols (reference? cols s.basis) s.basis
  let moved := free.foldl (fun c movement =>
    let slope := Vec.dot (cols.map fun col => Vec.dot col.vector c.vector - col.gain)
      movement.weights
    c.addMultiple (-(slope / Vec.normSq movement.vector)) movement) s.current
  if moved.weights.all fun w => 0 ≤ w then { s with current := moved } else s

/-- The weight outside the basis that lowers the objective fastest, if one does beyond
rounding. -/
def entering? (cols : List (Column α)) (s : State α) : Option Nat :=
  let slopes := derivatives cols s
  let level := ((reference? cols s.basis).bind fun r => slopes[r]?).getD 0
  let candidates := (cols.zip slopes).zipIdx.filterMap fun ((c, slope), i) =>
    let excess := if c.isPlane then slope - level else slope
    let tolerance := 0.00000000000001 * (1 + Scalar.abs c.gain)
    if s.basis.contains i || !(decide (excess < -tolerance)) then none else some (excess, i)
  (candidates.foldl (fun best candidate => match best with
    | some (least, _) => if candidate.1 < least then some candidate else best
    | none => some candidate) none).map Prod.snd

/-- Movements until no weight outside the basis lowers the objective. -/
def search (cols : List (Column α)) : Nat → State α → State α
  | 0, s => s
  | fuel + 1, s =>
    match entering? cols s with
    | none => s
    | some place => search cols fuel (refine cols (raise cols place cols.length s))

/-- The start: all weight on the plane with the best objective of its own. -/
def start (cols : List (Column α)) : State α :=
  let values := cols.zipIdx.filterMap fun (c, i) =>
    if c.isPlane then some (0.5 * Vec.normSq c.vector - c.gain, i) else none
  let place := ((values.foldl (fun best candidate => match best with
    | some (least, _) => if candidate.1 < least then some candidate else best
    | none => some candidate) none).map Prod.snd).getD 0
  ⟨direction cols none place, [place]⟩

/-- The weights of the planes at the optimum. -/
def weights (p : Subproblem α) : List α :=
  let cols := columns (normalize p)
  let found := search cols (10 * cols.length + 100) (start cols)
  (refine cols found).current.weights.take p.planes.length

/-- The minimizer. It needs no start point and always reports success. -/
def minimizer : Minimizer α := fun _ request =>
  { point := weights request.subproblem, exitCode := 0, iterations := 0, message := "" }

end NonsmoothDescent.ActiveSet
