import LineCode.Table.Read

/-!
# Readings of tables

A reading is what comes of a table record by record: a header or an error, and then rows, each of
which may be an error, also after others.  A table is the part of a reading up to its first error.
-/

namespace LineCode.Table

/-- What reading a table record by record comes to. -/
structure Reading where
  header : Except Error (List String)
  rows : List (Except Error (List String))

/-- Rows up to the first error. -/
def untilError : List (Except Error (List String)) → List (List String) × Option Error
  | [] => ([], none)
  | .error e :: _ => ([], some e)
  | .ok row :: rest => (row :: (untilError rest).1, (untilError rest).2)

/-- The table that a reading comes to. -/
def Reading.table (r : Reading) : Except Error Table :=
  r.header.map fun header => ⟨header, (untilError r.rows).1, (untilError r.rows).2⟩

/-- Every record of a source as it is read, however the ones before it were. -/
def Source.reading (s : Source) : Reading :=
  match s.records with
  | ([], some f) => ⟨.error (.source f), []⟩
  | ([], none) => ⟨.ok [], []⟩
  | (first :: rest, fault) =>
    ⟨first.header,
      rest.map (·.row first.cells.length) ++ (fault.map Error.source).toList.map .error⟩

theorem untilError_ok_append (rows : List (List String)) (rest : List (Except Error (List String))) :
    untilError (rows.map .ok ++ rest) = (rows ++ (untilError rest).1, (untilError rest).2) := by
  induction rows with
  | nil => rfl
  | cons row rows ih => rw [List.map_cons, List.cons_append, untilError, ih]; rfl

theorem untilError_ok (rows : List (List String)) : untilError (rows.map .ok) = (rows, none) := by
  simpa [untilError] using untilError_ok_append rows []

/-- The rows up to the first error stand in front of everything else. -/
theorem exists_eq_untilError_append (results : List (Except Error (List String))) :
    ∃ rest, results = (untilError results).1.map .ok ++ rest := by
  induction results with
  | nil => exact ⟨[], rfl⟩
  | cons result results ih =>
    cases result with
    | error e => exact ⟨.error e :: results, rfl⟩
    | ok row =>
      obtain ⟨rest, split⟩ := ih
      exact ⟨rest, congrArg (.ok row :: ·) split⟩

/-- Rows of records, and then how the source failed if it did. -/
theorem rowsOf_eq_untilError (width : Nat) (records : List RawRecord) (fault : Option Error) :
    ((rowsOf width records).1, (rowsOf width records).2.or fault)
      = untilError (records.map (·.row width) ++ fault.toList.map .error) := by
  induction records with
  | nil => cases fault <;> rfl
  | cons r rs ih =>
    rw [List.map_cons, List.cons_append, rowsOf]
    cases h : r.row width with
    | error e => rfl
    | ok row => rw [untilError, ← ih]

/-- A table is read up to the first error of its reading. -/
theorem read_eq_table (s : Source) : read s = s.reading.table := by
  rw [read, Source.reading]
  rcases s.records with ⟨_ | ⟨first, rest⟩, fault⟩
  · cases fault <;> rfl
  · rw [Reading.table, ← rowsOf_eq_untilError]
    rfl

end LineCode.Table
