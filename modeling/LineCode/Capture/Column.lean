/-!
# Columns of captures

Four columns make up a capture.  A header cell names a column by what stands after its last full
stop, and the first cell that names a column is the column.
-/

namespace LineCode.Capture

inductive Column where
  | data
  | period
  | control
  | expected
  deriving DecidableEq

def Column.name : Column → String
  | data => "data_in"
  | period => "ve_in"
  | control => "control_in"
  | expected => "q_out"

/-- What stands after the last full stop, or everything if there is none. -/
def lastSegment (cs : List Char) : List Char :=
  (cs.reverse.takeWhile (· ≠ '.')).reverse

/-- Whether a header cell names the column. -/
def Column.IsNamedBy (c : Column) (cell : String) : Prop :=
  lastSegment cell.toList = c.name.toList

instance (c : Column) (cell : String) : Decidable (c.IsNamedBy cell) :=
  inferInstanceAs (Decidable (_ = _))

/-- The index of the first header cell that names the column. -/
def Column.find? (header : List String) (c : Column) : Option Nat :=
  header.findIdx? fun cell => c.IsNamedBy cell

/-- Where the columns stand. -/
structure Layout where
  data : Nat
  period : Nat
  control : Nat
  expected : Nat
  deriving DecidableEq

def Layout.index (l : Layout) : Column → Nat
  | .data => l.data
  | .period => l.period
  | .control => l.control
  | .expected => l.expected

/-- The text in a column of a row. -/
def Layout.cell (l : Layout) (row : List String) (c : Column) : String :=
  row.getD (l.index c) ""

/-- The layout that a header lays down, or else the first column that it does not name. -/
def Layout.ofHeader (header : List String) : Except Column Layout := do
  let find (c : Column) : Except Column Nat :=
    match c.find? header with
    | some i => .ok i
    | none => .error c
  return {
    data := ← find .data
    period := ← find .period
    control := ← find .control
    expected := ← find .expected }

end LineCode.Capture
