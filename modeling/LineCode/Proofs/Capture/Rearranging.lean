import LineCode.Proofs.Capture.Judging
import LineCode.Proofs.Table.Grid

/-!
# Captures with rearranged columns

Columns of a capture are found by name, so it does not matter where they stand, what prefixes their
names have and which other columns stand between them: the same samples are read, or the capture is
refused for the same fault.  All that counts of a grid is which cells it carries under each of the
four names.
-/

namespace LineCode.Capture

/-! ## Names behind prefixes -/

/-- A prefix does not change what is named. -/
theorem Column.isNamedBy_trim_prefix (c : Column) (before title : String) :
    c.IsNamedBy (Text.trim (before ++ "." ++ Text.trim title)) ↔ c.IsNamedBy (Text.trim title) := by
  have trimmed : (Text.trim (before ++ "." ++ Text.trim title)).toList
      = before.toList.dropWhile Text.isBlank ++ '.' :: (Text.trim title).toList := by
    have stop : ¬ Text.isBlank '.' := by decide
    have split : (before ++ "." ++ Text.trim title).toList
        = before.toList ++ '.' :: Text.trimChars title.toList := by
      rw [String.toList_append, String.toList_append, Text.toList_trim, List.append_assoc]
      rfl
    rw [Text.toList_trim, Text.toList_trim, split]
    exact Text.stripBoth_append_cons_stripBoth stop _ _
  rw [IsNamedBy, IsNamedBy, trimmed, lastSegment_append]

/-! ## What grids carry -/

variable {height : Nat} {g g' : Table.Grid height}

/-- One of the columns that bear the name has these cells. -/
def Carries (columns : List (Table.Grid.Column height)) (c : Column)
    (cells : Vector Table.Plain height) : Prop :=
  ∃ col ∈ columns, c.IsNamedBy col.name ∧ col.cells = cells

theorem isIn_names_iff {c : Column} : c.IsIn g.names ↔ ∃ cells, Carries g.columns c cells := by
  constructor
  · rintro ⟨name, hname, named⟩
    obtain ⟨col, hcol, rfl⟩ := List.mem_map.mp hname
    exact ⟨col.cells, col, hcol, named, rfl⟩
  · rintro ⟨-, col, hcol, named, -⟩
    exact ⟨col.name, List.mem_map_of_mem hcol, named⟩

/-- The cells that a layout finds in the rows are carried under the name. -/
theorem Layout.IsOf.cell_row {l : Layout} (stands : l.IsOf g.names) (c : Column) :
    ∃ cells, Carries g.columns c cells ∧
      ∀ i : Fin height, l.cell (g.row i) c = Text.trim (cells.get i).text := by
  obtain ⟨name, found, named, -⟩ := stands c
  rw [Table.Grid.names, List.getElem?_map] at found
  obtain ⟨col, hcol, rfl⟩ := Option.map_eq_some_iff.mp found
  refine ⟨col.cells, ⟨col, List.mem_of_getElem? hcol, named, rfl⟩, fun i => ?_⟩
  rw [Layout.cell, List.getD_eq_getElem?_getD, Table.Grid.row, List.getElem?_map, hcol]
  rfl

/-- The samples in the rows of a grid, if its titles lay down every column. -/
theorem read_grid (g : Table.Grid height) (most : Option Nat) :
    read ⟨g.sheet.bytes, most, none⟩ =
      ((Layout.ofHeader g.names).mapError .missingColumn).bind fun l =>
        samplesOf wrapping l 1 (List.ofFn g.row) := by
  rw [read, readBy, g.read_sheet]
  change ofTable wrapping _ = _
  rw [ofTable, layoutOf]
  cases Layout.ofHeader g.names with
  | error c => rfl
  | ok l =>
    change (samplesOf wrapping l 1 (List.ofFn g.row)).bind _
      = samplesOf wrapping l 1 (List.ofFn g.row)
    cases samplesOf wrapping l 1 (List.ofFn g.row) <;> rfl

/-- A grid holds samples, lacks a column or has a cell that cannot be read. -/
theorem read_grid_cases (g : Table.Grid height) (most : Option Nat) :
    (∃ samples, read ⟨g.sheet.bytes, most, none⟩ = .ok samples) ∨
    (∃ c, read ⟨g.sheet.bytes, most, none⟩ = .error (.missingColumn c)) ∨
    ∃ row c text, read ⟨g.sheet.bytes, most, none⟩ = .error (.unreadable row c text) := by
  rw [read_grid]
  cases Layout.ofHeader g.names with
  | error c => exact Or.inr (Or.inl ⟨c, rfl⟩)
  | ok l =>
    rcases samplesOf_cases l 1 (List.ofFn g.row) with good | bad
    · exact Or.inl good
    · exact Or.inr (Or.inr bad)

/-- Grids that carry the same under the four names, and not twice, are read alike. -/
theorem read_grid_congr (same : ∀ c cells, Carries g.columns c cells ↔ Carries g'.columns c cells)
    (once : ∀ c cells cells', Carries g.columns c cells → Carries g.columns c cells' →
      cells = cells')
    (most most' : Option Nat) :
    read ⟨g.sheet.bytes, most, none⟩ = read ⟨g'.sheet.bytes, most', none⟩ := by
  have isIn : ∀ c : Column, c.IsIn g.names ↔ c.IsIn g'.names := fun c => by
    rw [isIn_names_iff, isIn_names_iff]
    exact exists_congr fun cells => same c cells
  rw [read_grid, read_grid]
  rcases Layout.ofHeader_cases g.names with ⟨l, laid, stands⟩ | ⟨c, notLaid, missing⟩
  · obtain ⟨l', stands'⟩ := Layout.exists_isOf fun c => (isIn c).mp (stands.isIn c)
    have rows : List.Forall₂ (fun cells cells' => ∀ c, l.cell cells c = l'.cell cells' c)
        (List.ofFn g.row) (List.ofFn g'.row) := by
      refine List.forall₂_iff_get.mpr ⟨by simp, fun i hi hi' c => ?_⟩
      obtain ⟨cells, carries, found⟩ := stands.cell_row c
      obtain ⟨cells', carries', found'⟩ := stands'.cell_row c
      obtain rfl := once c cells cells' carries ((same c cells').mpr carries')
      simp [found, found']
    rw [laid, Layout.ofHeader_of_isOf stands']
    exact samplesOf_congr rows 1
  · have missing' : c.IsFirstMissing g'.names := by
      simpa only [Column.IsFirstMissing, isIn] using missing
    rw [notLaid, Layout.ofHeader_of_isFirstMissing missing']
    rfl

/-! ## Rearranging -/

/-- The same cells, under the same title or under the trimmed title behind a prefix that ends in a
full stop. -/
def Retitled (col col' : Table.Grid.Column height) : Prop :=
  col'.cells = col.cells ∧
    (col'.title = col.title ∨ ∃ before : String, col'.title.text = before ++ "." ++ col.name)

/-- The second grid has the columns of the first, which may have got prefixes, and others that name
none of the four, in any order. -/
def Rearranged (g g' : Table.Grid height) : Prop :=
  ∃ retitled more, List.Forall₂ Retitled g.columns retitled ∧
    (∀ col ∈ more, ∀ c : Column, ¬ c.IsNamedBy col.name) ∧ g'.columns.Perm (retitled ++ more)

theorem Retitled.isNamedBy_iff {col col' : Table.Grid.Column height} (h : Retitled col col')
    (c : Column) : c.IsNamedBy col'.name ↔ c.IsNamedBy col.name := by
  obtain ⟨-, same | ⟨before, behind⟩⟩ := h
  · rw [Table.Grid.Column.name, Table.Grid.Column.name, same]
  · rw [Table.Grid.Column.name, behind, Table.Grid.Column.name, c.isNamedBy_trim_prefix]

theorem carries_iff_of_retitled {columns retitled : List (Table.Grid.Column height)}
    (h : List.Forall₂ Retitled columns retitled) (c : Column) (cells : Vector Table.Plain height) :
    Carries columns c cells ↔ Carries retitled c cells := by
  induction h with
  | nil => rfl
  | cons is _ ih =>
    rw [Carries, Carries, List.exists_mem_cons_iff, List.exists_mem_cons_iff, is.isNamedBy_iff c,
      is.1]
    exact or_congr_right ih

theorem carries_append_iff {columns more : List (Table.Grid.Column height)}
    (unnamed : ∀ col ∈ more, ∀ c : Column, ¬ c.IsNamedBy col.name) (c : Column)
    (cells : Vector Table.Plain height) :
    Carries (columns ++ more) c cells ↔ Carries columns c cells := by
  constructor
  · rintro ⟨col, hcol, named, same⟩
    rcases List.mem_append.mp hcol with hcol | added
    · exact ⟨col, hcol, named, same⟩
    · exact absurd named (unnamed col added c)
  · rintro ⟨col, hcol, carried⟩
    exact ⟨col, List.mem_append_left more hcol, carried⟩

theorem Rearranged.carries_iff (h : Rearranged g g') (c : Column)
    (cells : Vector Table.Plain height) :
    Carries g.columns c cells ↔ Carries g'.columns c cells := by
  obtain ⟨retitled, more, titles, unnamed, perm⟩ := h
  calc Carries g.columns c cells
      ↔ Carries retitled c cells := carries_iff_of_retitled titles c cells
    _ ↔ Carries (retitled ++ more) c cells := (carries_append_iff unnamed c cells).symm
    _ ↔ Carries g'.columns c cells := exists_congr fun col => and_congr_left' perm.mem_iff.symm

theorem eq_of_countP_le_one {α : Type} {p : α → Bool} {xs : List α} (once : xs.countP p ≤ 1)
    {x y : α} (hx : x ∈ xs) (px : p x) (hy : y ∈ xs) (py : p y) : x = y := by
  have hx : x ∈ xs.filter p := List.mem_filter.mpr ⟨hx, px⟩
  have hy : y ∈ xs.filter p := List.mem_filter.mpr ⟨hy, py⟩
  rw [List.countP_eq_length_filter] at once
  match h : xs.filter p with
  | [] => simp [h] at hx
  | [z] =>
    rw [h, List.mem_singleton] at hx hy
    rw [hx, hy]
  | _ :: _ :: _ =>
    rw [h] at once
    simp at once

/-- **It does not matter how the columns of a capture are laid out.**  If each of the four names is
that of at most one title, columns in another order, behind other prefixes and with others between
them are read as the same samples or refused for the same column or the same cell. -/
theorem read_rearranged (g g' : Table.Grid height) (most most' : Option Nat)
    (once : ∀ c : Column, g.names.countP (fun name => c.IsNamedBy name) ≤ 1)
    (rearranged : Rearranged g g') :
    read ⟨g'.sheet.bytes, most', none⟩ = read ⟨g.sheet.bytes, most, none⟩ ∧
    ((∃ samples, read ⟨g.sheet.bytes, most, none⟩ = .ok samples) ∨
      (∃ c, read ⟨g.sheet.bytes, most, none⟩ = .error (.missingColumn c)) ∨
      ∃ row c text, read ⟨g.sheet.bytes, most, none⟩ = .error (.unreadable row c text)) := by
  refine ⟨(read_grid_congr rearranged.carries_iff ?_ most most').symm, read_grid_cases g most⟩
  rintro c - - ⟨col, hcol, named, rfl⟩ ⟨col', hcol', named', rfl⟩
  have once := once c
  rw [Table.Grid.names, List.countP_map] at once
  rw [eq_of_countP_le_one once hcol (by simpa using named) hcol' (by simpa using named')]

/-- A capture with a cell that is refused in its second row. -/
def plainGrid : Table.Grid 2 where
  columns := [
    ⟨⟨"q_out", by decide⟩, #v[⟨"256", by decide⟩, ⟨"", by decide⟩]⟩,
    ⟨⟨" data_in\t", by decide⟩, #v[⟨"0", by decide⟩, ⟨"0xA5", by decide⟩]⟩,
    ⟨⟨"tb.ve_in", by decide⟩, #v[⟨"true", by decide⟩, ⟨" maybe", by decide⟩]⟩,
    ⟨⟨"control_in", by decide⟩, #v[⟨"0", by decide⟩, ⟨"0", by decide⟩]⟩]
  wide := by decide

/-- The same columns the other way round behind one of notes, two of them with other prefixes. -/
def movedGrid : Table.Grid 2 where
  columns := [
    ⟨⟨"ve_in.note", by decide⟩, #v[⟨"é", by decide⟩, ⟨"1", by decide⟩]⟩,
    ⟨⟨"control_in", by decide⟩, #v[⟨"0", by decide⟩, ⟨"0", by decide⟩]⟩,
    ⟨⟨"sim.top.tb.ve_in", by decide⟩, #v[⟨"true", by decide⟩, ⟨" maybe", by decide⟩]⟩,
    ⟨⟨" u 1.data_in", by decide⟩, #v[⟨"0", by decide⟩, ⟨"0xA5", by decide⟩]⟩,
    ⟨⟨"q_out", by decide⟩, #v[⟨"256", by decide⟩, ⟨"", by decide⟩]⟩]
  wide := by decide

/-- The cell is told where it stands in the table as it was moved, too. -/
theorem read_movedGrid :
    read ⟨plainGrid.sheet.bytes, none, none⟩ = .error (.unreadable 2 .period "maybe") ∧
    read ⟨movedGrid.sheet.bytes, some 1, none⟩ = .error (.unreadable 2 .period "maybe") := by
  have once : ∀ c : Column, plainGrid.names.countP (fun name => c.IsNamedBy name) ≤ 1 := by
    intro c
    cases c <;> decide +kernel
  have titles : List.Forall₂ Retitled plainGrid.columns movedGrid.columns.tail.reverse :=
    .cons ⟨rfl, .inl rfl⟩ (.cons ⟨rfl, .inr ⟨" u 1", by decide +kernel⟩⟩
      (.cons ⟨rfl, .inr ⟨"sim.top", by decide +kernel⟩⟩ (.cons ⟨rfl, .inl rfl⟩ .nil)))
  have unnamed : ∀ col ∈ movedGrid.columns.take 1, ∀ c : Column, ¬ c.IsNamedBy col.name := by
    intro col hcol c
    rw [List.mem_singleton.mp hcol]
    cases c <;> decide +kernel
  have refused : read ⟨plainGrid.sheet.bytes, none, none⟩
      = .error (.unreadable 2 .period "maybe") := by decide +kernel
  have order : movedGrid.columns.Perm
      (movedGrid.columns.tail.reverse ++ movedGrid.columns.take 1) := by
    change (movedGrid.columns.take 1 ++ movedGrid.columns.tail).Perm _
    exact (List.perm_append_comm.trans ((List.reverse_perm _).append_left _)).symm
  refine ⟨refused, ?_⟩
  rw [(read_rearranged plainGrid movedGrid none (some 1) once
    ⟨_, _, titles, unnamed, order⟩).1, refused]

end LineCode.Capture
