import LineCode.Capture.Column
import LineCode.Capture.Number
import LineCode.Event
import LineCode.Table.Read

/-!
# Reading captures

A capture is read from a table, row by row.  Within a row the period is judged first, then the data,
the control input and the expected symbol.  How texts become numbers is left open, for it depends on
what arithmetic does at an overflow: it wraps around, or it is checked and stops the program.
-/

namespace LineCode.Capture

/-- Why a capture cannot be read or played back. -/
inductive ReadError where
  | table (cause : Table.Error)
  | missingColumn (column : Column)
  /-- A cell holds no number, or none that its column can take. -/
  | unreadable (row : Nat) (column : Column) (text : String)
  | outOfRange (cause : OutOfRange)
  deriving DecidableEq

def ReadError.message : ReadError → String
  | table e => "csv error: " ++ e.message
  | missingColumn c => "missing column `" ++ c.name ++ "`"
  | unreadable row c text =>
    "row " ++ toString row ++ ": cannot parse `" ++ text ++ "` in column `" ++ c.name ++ "`"
  | outOfRange e => "codec error: " ++ e.message

/-! ## Arithmetic -/

/-- The number that a text spells, where arithmetic wraps around. -/
def wrapping (text : String) : Except ReadError (Option Int) :=
  return Number.ofText? text

/-- The number that a text spells, where arithmetic is checked: an overflow stops the program. -/
def checked (text : String) : ExceptT ReadError Option (Option Int) :=
  .mk (if Number.overflows text.toList then none else some (.ok (Number.ofText? text)))

/-! ## Cells -/

/-- A number as a word of 32 bits, if it fits. -/
def word32? (n : Int) : Option Int32 :=
  if -0x80000000 ≤ n ∧ n < 0x80000000 then some (Int32.ofInt n) else none

/-- A number as a word of 16 bits without a sign, if it fits. -/
def word16? (n : Int) : Option UInt16 :=
  if 0 ≤ n ∧ n < 0x10000 then some (UInt16.ofNat n.toNat) else none

/-- A number as a truth value, if it is one of 0 and 1. -/
def truth? (n : Int) : Option Bool :=
  if n = 0 then some false else if n = 1 then some true else none

section Row

variable {m : Type → Type} [Monad m] [MonadExceptOf ReadError m] (ofText : String → m (Option Int))
  (l : Layout) (row : Nat) (cells : List String)

/-- The fault of a cell, told with its text. -/
def unreadableCell (c : Column) : ReadError :=
  .unreadable row c (l.cell cells c)

/-- The number in a column. -/
def number (c : Column) : m Int := do
  match ← ofText (l.cell cells c) with
  | some n => return n
  | none => throw (unreadableCell l row cells c)

/-- The number in a column that takes some numbers only.  Any other is told as the cell holds it. -/
def fitting {α : Type} (take? : Int → Option α) (c : Column) : m α := do
  match take? (← number ofText l row cells c) with
  | some a => return a
  | none => throw (unreadableCell l row cells c)

/-- The number in a column that takes 32 bits.  Any other is told in decimal. -/
def fitting32 (c : Column) : m Int32 := do
  let n ← number ofText l row cells c
  match word32? n with
  | some w => return w
  | none => throw (ReadError.unreadable row c (toString n))

/-- The sample in a row. -/
def sampleOf : m Sample := do
  let dataPeriod ← fitting ofText l row cells truth? .period
  let data ← fitting32 ofText l row cells .data
  let control ← fitting32 ofText l row cells .control
  let expected ← fitting ofText l row cells word16? .expected
  return { data, dataPeriod, control, expected }

end Row

/-! ## Tables -/

def layoutOf (t : Table) : Except ReadError Layout :=
  (Layout.ofHeader t.header).mapError .missingColumn

section Table

variable {m : Type → Type} [Monad m] [MonadExceptOf ReadError m] (ofText : String → m (Option Int))

/-- The samples in rows, the first of which has the given number. -/
def samplesOf (l : Layout) (row : Nat) : List (List String) → m (List Sample)
  | [] => return []
  | cells :: rows => do
    let sample ← sampleOf ofText l row cells
    return sample :: (← samplesOf l (row + 1) rows)

/-- The samples of a table.  A fault of the table counts only after all its rows. -/
def ofTable (t : Table) : m (List Sample) := do
  let layout ← liftExcept (layoutOf t)
  let samples ← samplesOf ofText layout 1 t.rows
  match t.fault with
  | some e => throw (ReadError.table e)
  | none => return samples

/-- The samples of a source, by a way to take texts for numbers. -/
def readBy (s : Table.Source) : m (List Sample) := do
  ofTable ofText (← liftExcept ((Table.read s).mapError ReadError.table))

end Table

/-- Reads a capture.  Arithmetic wraps around. -/
def read (s : Table.Source) : Except ReadError (List Sample) :=
  readBy wrapping s

/-- Reads a capture with arithmetic that is checked.  No result means that an overflow stopped the
program. -/
def readChecked (s : Table.Source) : Option (Except ReadError (List Sample)) :=
  (readBy checked s).run

/-- What reading a capture tells. -/
def readEvents (s : Table.Source) : List Event :=
  match ((Table.read s).mapError .table).bind layoutOf with
  | .error _ => []
  | .ok l =>
    .columnsFound l.data l.period l.control l.expected ::
      match read s with
      | .error _ => []
      | .ok samples => [.loaded samples.length]

end LineCode.Capture
