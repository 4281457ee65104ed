import NonsmoothDescent.Status
import NonsmoothDescent.Text.Template

/-!
# Progress reports

Lines are buffered with their kind and emitted together by a flush, which also
keeps them for good. Lines of inner iterations are emitted at a finer level than
lines of whole iterations. The report is generic in what a line is; the search
writes lines that keep the figures they show.
-/

namespace NonsmoothDescent

/-- Importance of a message. -/
inductive Level where
  /-- Detail of a search. -/
  | debug
  /-- Progress. -/
  | info
  /-- Something that should not happen often. -/
  | warning
  deriving DecidableEq, Repr

namespace Level

/-- The name of a level. -/
def name : Level → String
  | .debug => "DEBUG"
  | .info => "INFO"
  | .warning => "WARNING"

/-- The order of levels. -/
def rank : Level → Nat
  | .debug => 10
  | .info => 20
  | .warning => 30

/-- Whether messages of a level pass a threshold. -/
def passes (level threshold : Level) : Bool := threshold.rank ≤ level.rank

end Level

/-- What a line reports on. -/
inductive LineKind where
  /-- A whole iteration. -/
  | iteration
  /-- An inner iteration. -/
  | innerIteration
  deriving DecidableEq, Repr

namespace LineKind

/-- All kinds of lines. -/
def all : List LineKind := [.iteration, .innerIteration]

/-- The name of a kind. -/
def name : LineKind → String
  | .iteration => "per_iteration"
  | .innerIteration => "per_inner_iteration"

/-- The kind with a given name. -/
def ofName? (text : String) : Option LineKind := all.find? fun kind => kind.name == text

/-- The level at which lines of a kind are emitted. -/
def level : LineKind → Level
  | .iteration => .info
  | .innerIteration => .debug

end LineKind

/-- Buffered and emitted lines. -/
structure Report (ι : Type) where
  /-- Lines that wait for a flush. -/
  pending : Array (LineKind × ι) := #[]
  /-- Lines that were emitted. -/
  lines : Array ι := #[]

namespace Report

variable {ι : Type}

/-- The number of lines that a report was given. -/
def size (r : Report ι) : Nat := r.lines.size + r.pending.size

/-- Buffers a line. -/
def add (r : Report ι) (kind : LineKind) (line : ι) : Report ι :=
  { r with pending := r.pending.push (kind, line) }

/-- Emits all buffered lines: the report afterwards and what was emitted. -/
def flush (r : Report ι) : Report ι × List (LineKind × ι) :=
  ({ pending := #[], lines := r.lines ++ r.pending.map Prod.snd }, r.pending.toList)

end Report

/-- Buffers a line that is made from a template. -/
def Report.addFilled (r : Report String) (kind : LineKind) (template : String)
    (entries : List (Entry Float)) : Except TemplateFault (Report String) := do
  return r.add kind (← Template.fill template entries)

/-- The figures of a report line. -/
structure Figures (α : Type) where
  /-- Inner iterations of this search so far. -/
  innerIterations : Int
  /-- Cuts in the subproblem. -/
  cuts : Nat
  /-- Iterations of the minimizer in this search so far. -/
  minimizerIterations : Int
  /-- How the last solve ended. -/
  status : SolveStatus
  /-- Optimality error of the last solve. -/
  optimalityError : α
  /-- Largest entry of the last step. -/
  stepNorm : α
  /-- Half the squared length of the last step. -/
  quadraticValue : α

/-- A line of a search report. -/
inductive ProgressLine (α : Type) where
  /-- The figures of a round whose step was rejected. -/
  | inner (figures : Figures α)
  /-- The text that stands for the figures of the radius rule. -/
  | blank (text : String)
  /-- The figures at the end of a search. -/
  | summary (figures : Figures α)

/-- The columns of a line: four whole numbers and three real ones. -/
def Figures.columns (figures : Figures Float) : List String :=
  let column := Template.showWhole { width := 8 }
  let real := Template.showReal { plus := true, precision := some 2 } .exponent
  [column figures.innerIterations, column figures.cuts, column figures.minimizerIterations,
   Template.showWhole { width := 2 } figures.status.code, real figures.optimalityError,
   real figures.stepNorm, real figures.quadraticValue]

/-- The figures as text, in columns. -/
def Figures.render (figures : Figures Float) : String := " " ++ " ".intercalate figures.columns

namespace ProgressLine

/-- The text of a line. -/
def render : ProgressLine Float → String
  | .inner figures | .summary figures => figures.render
  | .blank text => " " ++ text

/-- The heading above the figures. -/
def header : String := "In. Its.  QP Pts.  QP Its. QP   QP KKT    |Step|   |Step|_H"

/-- What stands in place of the figures where there are none. -/
def nullValues : String := "-------- -------- -------- -- --------- --------- ---------"

end ProgressLine

end NonsmoothDescent
