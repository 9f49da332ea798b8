import LineCode.Table.Scanner
import LineCode.Text.Blank
import LineCode.Text.Utf8

/-!
# Reading tables

The first record is the header.  Each record is looked at as it comes: first that it is as long as
the header, then that its cells are text.  Cells are kept without the blanks at their ends; those of
rows lose the blanks of ASCII already before they are read as text.
-/

namespace LineCode.Table

/-- The cells of a record as text; `i` is the index of the first of them. -/
def cellTexts (p : Position) (i : Nat) : List (List UInt8) → Except Error (List String)
  | [] => .ok []
  | cell :: cells =>
    match Text.decode cell with
    | .error n => .error (.notText p i n)
    | .ok s => (cellTexts p (i + 1) cells).map (Text.trim s :: ·)

/-- The cells of the record that is the header. -/
def RawRecord.header (r : RawRecord) : Except Error (List String) :=
  cellTexts r.position 0 r.cells

/-- The cells of a record that has to be of the given length. -/
def RawRecord.row (width : Nat) (r : RawRecord) : Except Error (List String) :=
  if r.cells.length = width then cellTexts r.position 0 (r.cells.map Text.trimBytes)
  else .error (.unequalLengths r.position r.cells.length width)

/-- Rows up to the first record that cannot be read. -/
def rowsOf (width : Nat) : List RawRecord → List (List String) × Option Error
  | [] => ([], none)
  | r :: rs =>
    match r.row width with
    | .error e => ([], some e)
    | .ok row =>
      let (rows, fault) := rowsOf width rs
      (row :: rows, fault)

/-- The table that records make up, given how the source failed if it did.  No record at all is an
empty header. -/
def ofRecords : List RawRecord × Option Stream.Fault → Except Error Table
  | ([], some f) => .error (.source f)
  | ([], none) => .ok ⟨[], [], none⟩
  | (first :: rest, fault) =>
    let (rows, rowFault) := rowsOf first.cells.length rest
    first.header.map fun header => ⟨header, rows, rowFault.or (fault.map .source)⟩

/-- Reads a table.  An unreadable header is an error, an unreadable row ends the table. -/
def read (s : Source) : Except Error Table :=
  ofRecords s.records

end LineCode.Table
