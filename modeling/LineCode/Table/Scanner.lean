import LineCode.Table.Basic
import LineCode.Table.Source

/-!
# Splitting bytes into records

The scanner takes a table byte by byte.  Cells are parted by semicolons, records by line feeds or
carriage returns, and blank lines count for nothing.  A cell whose first byte is a double quote goes
on to the next single one; two in a row stand for one.

Since a scanner takes bytes one at a time, it does not matter in which pieces they come.
-/

namespace LineCode.Table

namespace Scanner

def delimiter : UInt8 := 0x3B

def quote : UInt8 := 0x22

def lineFeed : UInt8 := 0x0A

def carriageReturn : UInt8 := 0x0D

def isTerminator (b : UInt8) : Bool :=
  b == lineFeed || b == carriageReturn

/-- Where the scanner is within the record. -/
inductive Place where
  | recordStart
  | cellStart
  | plain
  | quoted
  /-- Behind a quote inside a quoted cell: the end of the quoting, or the first of two. -/
  | quoteSeen
  deriving DecidableEq

end Scanner

open Scanner in
/-- What is known of the bytes so far.  Lists that grow are kept last element first. -/
structure Scanner where
  place : Place := .recordStart
  cell : List UInt8 := []
  cells : List (List UInt8) := []
  records : List RawRecord := []
  /-- Where reading of the record began. -/
  start : Position := ⟨0, 1, 0⟩
  byte : Nat := 0
  line : Nat := 1

namespace Scanner

/-- Counts a byte. -/
def advance (s : Scanner) (b : UInt8) : Scanner :=
  { s with byte := s.byte + 1, line := if b = lineFeed then s.line + 1 else s.line }

/-- Adds a byte to the cell. -/
def push (s : Scanner) (b : UInt8) (place : Place) : Scanner :=
  { s with place, cell := b :: s.cell }

def endCell (s : Scanner) : Scanner :=
  { s with place := .cellStart, cell := [], cells := s.cell.reverse :: s.cells }

/-- The record that ends here. -/
def record (s : Scanner) : RawRecord :=
  ⟨s.start, (s.cell.reverse :: s.cells).reverse⟩

/-- Ends the record.  Reading of the next one begins at the next byte. -/
def endRecord (s : Scanner) : Scanner :=
  { s with
    place := .recordStart
    cell := []
    cells := []
    records := s.record :: s.records
    start := ⟨s.start.record + 1, s.line, s.byte⟩ }

/-- A byte outside quotes. -/
def stepPlain (s : Scanner) (b : UInt8) : Scanner :=
  if b = delimiter then s.endCell
  else if isTerminator b then s.endRecord
  else s.push b .plain

/-- The first byte of a cell. -/
def stepFirst (s : Scanner) (b : UInt8) : Scanner :=
  if b = quote then { s with place := .quoted } else s.stepPlain b

/-- Takes a byte that has been counted. -/
def take (s : Scanner) (b : UInt8) : Scanner :=
  match s.place with
  | .recordStart => if isTerminator b then s else s.stepFirst b
  | .cellStart => s.stepFirst b
  | .plain => s.stepPlain b
  | .quoted => if b = quote then { s with place := .quoteSeen } else s.push b .quoted
  | .quoteSeen => if b = quote then s.push b .quoted else s.stepPlain b

def step (s : Scanner) (b : UInt8) : Scanner :=
  (s.advance b).take b

def scan (s : Scanner) (bytes : List UInt8) : Scanner :=
  bytes.foldl step s

/-- The end of the source ends a record that has begun. -/
def finish (s : Scanner) : Scanner :=
  match s.place with
  | .recordStart => s
  | _ => s.endRecord

@[simp] theorem scan_nil (s : Scanner) : s.scan [] = s := rfl

@[simp] theorem scan_cons (s : Scanner) (b : UInt8) (bs : List UInt8) :
    s.scan (b :: bs) = (s.step b).scan bs := rfl

theorem scan_append (s : Scanner) (bs cs : List UInt8) :
    s.scan (bs ++ cs) = (s.scan bs).scan cs := by
  simp [scan]

/-- Scanning piece by piece is scanning the whole. -/
theorem foldl_scan (s : Scanner) (pieces : List (List UInt8)) :
    pieces.foldl scan s = s.scan pieces.flatten := by
  induction pieces generalizing s with
  | nil => rfl
  | cons p ps ih => simp [ih, scan_append]

/-- The byte order mark. -/
def mark : List UInt8 := [0xEF, 0xBB, 0xBF]

/-- Scans the first read of a source.  A byte order mark that it holds whole is skipped, and
counted. -/
def scanFirst (first : List UInt8) : Scanner :=
  if mark <+: first then ({ byte := mark.length } : Scanner).scan (first.drop mark.length)
  else ({} : Scanner).scan first

/-- Scans what a source gives. -/
def scanReads : List (List UInt8) → Scanner
  | [] => {}
  | first :: rest => rest.foldl scan (scanFirst first)

end Scanner

/-- The records that are complete before a source ends or fails, and how it failed if it did.  A
first read that holds a byte order mark and nothing else leaves no byte to scan, and no byte means
the end. -/
def Source.records (s : Source) : List RawRecord × Option Stream.Fault :=
  if s.reads.head? = some Scanner.mark then ([], none)
  else
    let scanned := Scanner.scanReads s.reads
    match s.fault with
    | none => (scanned.finish.records.reverse, none)
    | some f => (scanned.records.reverse, some f)

end LineCode.Table
