import LineCode.Proofs.Capture.Failing
import LineCode.Proofs.Table.Cells

/-!
# What refusals quote

A refusal of a cell names the row and the column, and quotes what stands there in the source,
without the blanks around it.  A number that does not fit the 32 bits of the data or of the control
input is the exception: it is told in decimal, however the cell writes it.
-/

namespace LineCode.Capture

/-! ## Cells of columns -/

/-- The first cell of the source's header that names the column has the given index. -/
def Column.IsHeadedAt (c : Column) (s : Table.Source) (i : Nat) : Prop :=
  (∃ name, s.Holds 0 i name ∧ c.IsNamedBy name) ∧
    ∀ j < i, ∀ name, s.Holds 0 j name → ¬ c.IsNamedBy name

/-- The text stands in the column of the row.  Rows are counted from 1, behind the header. -/
def StandsIn (s : Table.Source) (row : Nat) (c : Column) (cell : String) : Prop :=
  ∃ i, c.IsHeadedAt s i ∧ s.Holds row i cell

theorem Column.IsHeadedAt.unique {c : Column} {s : Table.Source} {i j : Nat}
    (hi : c.IsHeadedAt s i) (hj : c.IsHeadedAt s j) : i = j := by
  obtain ⟨⟨name, holds, named⟩, first⟩ := hi
  obtain ⟨⟨name', holds', named'⟩, first'⟩ := hj
  rcases Nat.lt_trichotomy i j with less | same | more
  · exact absurd named (first' i less name holds)
  · exact same
  · exact absurd named' (first j more name' holds')

/-- One text stands in a column of a row. -/
theorem StandsIn.unique {s : Table.Source} {row : Nat} {c : Column} {cell other : String}
    (h : StandsIn s row c cell) (h' : StandsIn s row c other) : cell = other := by
  obtain ⟨i, headed, holds⟩ := h
  obtain ⟨j, headed', holds'⟩ := h'
  obtain rfl : i = j := headed.unique headed'
  exact holds.unique holds'

/-- A column stands in the header as it was read where it stands in the source. -/
theorem Column.StandsAt.isHeadedAt {c : Column} {s : Table.Source} {names : List String} {i : Nat}
    (h : c.StandsAt names i) (header : ∀ j name, s.Holds 0 j name ↔ names[j]? = some name) :
    c.IsHeadedAt s i := by
  obtain ⟨name, stands, named, earlier⟩ := h
  refine ⟨⟨name, (header i name).mpr stands, named⟩, fun j hj other holds => earlier other ?_⟩
  obtain ⟨within, rfl⟩ := List.getElem?_eq_some_iff.mp ((header j other).mp holds)
  exact List.mem_take_iff_getElem.mpr ⟨j, by omega, rfl⟩

/-- The text that a layout finds in a row stands in the source. -/
theorem standsIn_cell {s : Table.Source} {l : Layout} {names cells : List String} {k : Nat}
    (header : s.reading.header = .ok names) (row : s.reading.rows[k]? = some (.ok cells))
    (stands : l.IsOf names) (c : Column) : StandsIn s (k + 1) c (l.cell cells c) := by
  obtain ⟨holdsHeader, holdsRow, same⟩ := Table.Source.holds_iff_of_reading header row
  refine ⟨l.index c, (stands c).isHeadedAt holdsHeader, (holdsRow _ _).mpr ?_⟩
  -- the row is as long as the header, so the column lies within it
  have within : l.index c < cells.length := by
    obtain ⟨name, found, -⟩ := stands c
    rw [same]
    exact (List.getElem?_eq_some_iff.mp found).1
  rw [Layout.cell, List.getD_eq_getElem?_getD, List.getElem?_eq_getElem within]
  rfl

/-! ## Refusals -/

/-- A refused cell is told as it stands, or it holds a number that does not fit 32 bits. -/
theorem Column.told_cases {c : Column} {cell : String} (h : ¬ c.Accepts cell) :
    c.told cell = cell ∧ (c = .period ∨ c = .expected ∨ Number.ofText? cell = none) ∨
    (c = .data ∨ c = .control) ∧ ∃ n, Number.ofText? cell = some n ∧ ¬ c.Takes n ∧
      c.told cell = toString n := by
  cases hn : Number.ofText? cell with
  | none => exact Or.inl ⟨told_of_none hn, Or.inr (Or.inr rfl)⟩
  | some n =>
    have notTaken : ¬ c.Takes n := fun taken => h ⟨n, hn, taken⟩
    cases c with
    | period => exact Or.inl ⟨rfl, Or.inl rfl⟩
    | expected => exact Or.inl ⟨rfl, Or.inr (Or.inl rfl)⟩
    | data => exact Or.inr ⟨Or.inl rfl, n, rfl, notTaken, by simp only [told, hn]; rfl⟩
    | control => exact Or.inr ⟨Or.inr rfl, n, rfl, notTaken, by simp only [told, hn]; rfl⟩

/-- A cell is refused in a row that could be read, and told with its text. -/
theorem exists_of_unreadable {r : Table.Reading} {row : Nat} {c : Column} {text : String}
    (h : ofReading r = .error (.unreadable row c text)) :
    ∃ names l k cells, r.header = .ok names ∧ r.rows[k]? = some (.ok cells) ∧
      Layout.IsOf l names ∧ IsFirstRefused l cells c ∧ row = k + 1 ∧
      text = c.told (l.cell cells c) := by
  have fault := ofReading_eq_error_iff.mp h
  generalize told : ReadError.unreadable row c text = err at fault
  cases fault with
  | header e rows => contradiction
  | column missing rows => contradiction
  | row stands before e rest => contradiction
  | @cell names l stands good before cells d first rest =>
    unfold refused at told
    obtain ⟨rfl, rfl, rfl⟩ := ReadError.unreadable.inj told
    refine ⟨names, l, good.length, cells, rfl, ?_, stands, first, rfl, rfl⟩
    show (good.map Except.ok ++ .ok cells :: rest)[good.length]? = some (.ok cells)
    rw [List.getElem?_append_right (by simp)]
    simp

/-- **A refusal of a cell quotes the source.**  In the column of the row that it names stands one
text, and the column does not accept it.  The refusal tells this text, except where the text is a
number that the data or the control input cannot take: of that it tells the number, in decimal. -/
theorem read_unreadable {s : Table.Source} {row : Nat} {c : Column} {text : String}
    (h : read s = .error (.unreadable row c text)) :
    1 ≤ row ∧ ∃ cell, (∀ other, StandsIn s row c other ↔ other = cell) ∧ ¬ c.Accepts cell ∧
      (text = cell ∧ (c = .period ∨ c = .expected ∨ Number.ofText? cell = none) ∨
        (c = .data ∨ c = .control) ∧ ∃ n, Number.ofText? cell = some n ∧ ¬ c.Takes n ∧
          text = toString n) := by
  rw [read_eq_ofReading] at h
  obtain ⟨names, l, k, cells, header, isRow, stands, first, rfl, rfl⟩ := exists_of_unreadable h
  have cell := standsIn_cell header isRow stands c
  refine ⟨Nat.le_add_left 1 k, l.cell cells c, fun other => ⟨fun stands' => ?_, ?_⟩,
    first.not_accepts, Column.told_cases first.not_accepts⟩
  · exact stands'.unique cell
  · rintro rfl
    exact cell

/-- A capture with the given text for the data and for the expected symbol of its second row. -/
def spelledRow (data expected : String) : Table.Source :=
  ⟨Text.encode ("data_in;ve_in;control_in;q_out\n0;1;0;256\n"
    ++ data ++ ";1;0;" ++ expected ++ "\n"), none, none⟩

theorem read_unreadable_expected :
    read (spelledRow "0" "0x10000") = .error (.unreadable 2 .expected "0x10000") ∧
    StandsIn (spelledRow "0" "0x10000") 2 .expected "0x10000" := by
  have refused : read (spelledRow "0" "0x10000") = .error (.unreadable 2 .expected "0x10000") := by
    decide +kernel
  refine ⟨refused, ?_⟩
  obtain ⟨-, cell, stands, -, ⟨rfl, -⟩ | ⟨never, -⟩⟩ := read_unreadable refused
  · exact (stands _).mpr rfl
  · simp at never

/-- A number that the data cannot take is told in decimal, also where hexadecimal digits write it. -/
theorem read_unreadable_data :
    read (spelledRow "0x80000000" "256") = .error (.unreadable 2 .data "2147483648") ∧
    StandsIn (spelledRow "0x80000000" "256") 2 .data "0x80000000" ∧
    ¬ StandsIn (spelledRow "0x80000000" "256") 2 .data "2147483648" := by
  have header : (spelledRow "0x80000000" "256").reading.header
      = .ok ["data_in", "ve_in", "control_in", "q_out"] := by decide +kernel
  have row : (spelledRow "0x80000000" "256").reading.rows[1]?
      = some (.ok ["0x80000000", "1", "0", "256"]) := by decide +kernel
  have stands : Layout.IsOf ⟨0, 1, 2, 3⟩ ["data_in", "ve_in", "control_in", "q_out"] := by
    intro c
    apply Column.find?_eq_some_iff.mp
    cases c <;> decide +kernel
  have cell : StandsIn (spelledRow "0x80000000" "256") 2 .data "0x80000000" :=
    standsIn_cell header row stands .data
  refine ⟨by decide +kernel, cell, fun other => ?_⟩
  exact absurd (cell.unique other) (by simp)

end LineCode.Capture
