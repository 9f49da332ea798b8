import LineCode.Proofs.Table.Sheet

/-!
# Grids

A grid is a table given column by column, all of its cells plain.  It is written with a line feed
behind each row and read as it was written, in however large pieces the bytes come: no plain text
begins with a byte order mark, so that none is dropped.
-/

namespace LineCode.Table

/-! ## Plain texts -/

/-- The text may be written without quotes, also at the start of a source. -/
def IsPlain (text : String) : Prop :=
  ¬ text.toList.any needsQuotes ∧ text.toList.head? ≠ some '\uFEFF'

instance (text : String) : Decidable (IsPlain text) :=
  inferInstanceAs (Decidable (_ ∧ _))

/-- A plain text. -/
structure Plain where
  text : String
  plain : IsPlain text

def Plain.cell (p : Plain) : Cell :=
  .plain p.text p.plain.1

/-- The bytes of texts tell the first character. -/
theorem utf8EncodeChar_append_inj {c d : Char} {bs cs : List UInt8}
    (h : String.utf8EncodeChar c ++ bs = String.utf8EncodeChar d ++ cs) : c = d := by
  have decoded : ∀ (e : Char) (rest : List UInt8),
      (String.utf8EncodeChar e ++ rest).toByteArray.utf8DecodeChar? 0 = some e := by
    intro e rest
    rw [List.toByteArray_append]
    exact ByteArray.utf8DecodeChar?_utf8EncodeChar_append
  exact Option.some_inj.mp ((decoded c bs).symm.trans (h ▸ decoded d cs))

/-- A plain text with a delimiter behind it does not begin with the mark. -/
theorem Plain.not_mark_prefix (p : Plain) (bs : List UInt8) :
    ¬ Scanner.mark <+: Text.encode p.text ++ Scanner.delimiter :: bs := by
  rintro ⟨rest, split⟩
  rw [Text.encode_eq_flatMap] at split
  have mark : Scanner.mark = String.utf8EncodeChar '\uFEFF' := by decide
  rw [mark] at split
  cases h : p.text.toList with
  | nil =>
    rw [h, List.flatMap_nil, List.nil_append] at split
    have delimiter : Scanner.delimiter :: bs = String.utf8EncodeChar ';' ++ bs := rfl
    exact absurd (utf8EncodeChar_append_inj (split.trans delimiter)) (by decide)
  | cons c cs =>
    rw [h, List.flatMap_cons, List.append_assoc] at split
    have first := utf8EncodeChar_append_inj split
    exact p.plain.2 (by rw [h, ← first]; rfl)

/-! ## Columns side by side -/

/-- A column under its title. -/
structure Grid.Column (height : Nat) where
  title : Plain
  cells : Vector Plain height

/-- Columns of one height, of which there are two at least. -/
structure Grid (height : Nat) where
  columns : List (Grid.Column height)
  wide : 2 ≤ columns.length

namespace Grid

variable {height : Nat}

/-- The title without the blanks around it. -/
def Column.name (col : Column height) : String :=
  Text.trim col.title.text

/-- Plain texts as a line of their own. -/
def line (texts : List Plain) : Line :=
  ⟨texts.map Plain.cell, [.lineFeed]⟩

/-- The grid as it is written. -/
def sheet (g : Grid height) : Sheet where
  header := line (g.columns.map (·.title))
  rows := List.ofFn fun i : Fin height => line (g.columns.map (·.cells.get i))
  wide := by simpa [line] using g.wide
  even := by
    intro row hrow
    obtain ⟨i, rfl⟩ := List.mem_ofFn.mp hrow
    simp [line]
  ended := by
    intro l hl
    rcases List.mem_cons.mp (List.dropLast_subset _ hl) with rfl | hrow
    · simp [line]
    · obtain ⟨i, rfl⟩ := List.mem_ofFn.mp hrow
      simp [line]

/-- The header as it is read. -/
def names (g : Grid height) : List String :=
  g.columns.map Column.name

/-- A row as it is read. -/
def row (g : Grid height) (i : Fin height) : List String :=
  g.columns.map fun col => Text.trim (col.cells.get i).text

theorem texts_line (texts : List Plain) :
    (line texts).texts = texts.map fun p => Text.trim p.text := by
  rw [Line.texts, line, List.map_map]
  rfl

theorem not_mark_prefix_bytes (g : Grid height) : ¬ Scanner.mark <+: g.sheet.bytes := by
  obtain ⟨first, second, rest, split⟩ :
      ∃ first second rest, g.columns = first :: second :: rest := by
    match h : g.columns, g.wide with
    | first :: second :: rest, _ => exact ⟨first, second, rest, rfl⟩
  simp only [Sheet.bytes, sheet, line, Line.bytes, split, List.flatMap_cons, List.map_cons,
    List.intercalate_cons_cons, List.append_assoc, List.singleton_append]
  exact first.title.not_mark_prefix _

/-- A grid is read as it is written. -/
theorem read_sheet (g : Grid height) (most : Option Nat) :
    Table.read ⟨g.sheet.bytes, most, none⟩ = .ok ⟨g.names, List.ofFn g.row, none⟩ := by
  rw [Table.read_sheet g.sheet most g.not_mark_prefix_bytes]
  have header : g.sheet.header.texts = g.names := by
    rw [sheet, texts_line, List.map_map]
    rfl
  have rows : g.sheet.rows.map Line.texts = List.ofFn g.row := by
    rw [sheet, List.map_ofFn]
    refine congrArg List.ofFn (funext fun i => ?_)
    rw [Function.comp_apply, texts_line, List.map_map]
    rfl
  rw [header, rows]

end Grid

end LineCode.Table
