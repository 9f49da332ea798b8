import LineCode.Stream.Fault

/-!
# Tables

A table is a header and rows of as many cells, read from bytes.  What makes a table unreadable is
told with the place where the record at fault began.
-/

namespace LineCode

/-- Where reading of a record began: how many records came before, the line counted from 1, and the
number of bytes before it. -/
structure Table.Position where
  record : Nat
  line : Nat
  byte : Nat
  deriving DecidableEq

/-- A record as its bytes stand, quoting undone. -/
structure Table.RawRecord where
  position : Position
  cells : List (List UInt8)
  deriving DecidableEq

/-- Why a table cannot be read, or cannot be read further. -/
inductive Table.Error where
  /-- A record has another number of cells than the header. -/
  | unequalLengths (position : Position) (found expected : Nat)
  /-- The bytes of a cell are no text past the given length. -/
  | notText (position : Position) (cell validLength : Nat)
  | source (fault : Stream.Fault)
  deriving DecidableEq

/-- A table as far as it could be read. -/
structure Table where
  header : List String
  rows : List (List String)
  /-- Why there are no further rows, if not because the source ended. -/
  fault : Option Table.Error
  deriving DecidableEq

def Table.Error.message : Error → String
  | unequalLengths p found expected =>
    "CSV error: record " ++ toString p.record ++ " (line: " ++ toString p.line ++ ", byte: "
      ++ toString p.byte ++ "): found record with " ++ toString found
      ++ " fields, but the previous record has " ++ toString expected ++ " fields"
  | notText p cell validLength =>
    "CSV parse error: record " ++ toString p.record ++ " (line " ++ toString p.line ++ ", field: "
      ++ toString cell ++ ", byte: " ++ toString p.byte
      ++ "): invalid utf-8: invalid UTF-8 in field " ++ toString cell ++ " near byte index "
      ++ toString validLength
  | source f => f.message

end LineCode
