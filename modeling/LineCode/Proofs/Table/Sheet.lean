import LineCode.Proofs.Table.Cells
import LineCode.Proofs.Table.Lines

/-!
# Written tables

A sheet is a table as it is written down: cells plain or in quotes, parted by semicolons, and lines
that end in a line feed, a carriage return or both, with any number of blank lines behind.  Reading
the bytes of a sheet gives the texts of its cells without the blanks around them.

The scanner is followed through the bytes of a cell, of a line and of the whole sheet.  It is told
by the cells of the records that it holds; where these began in the source does not matter here.
-/

namespace LineCode.Table

/-! ## Sheets -/

/-- Whether only a quoted cell may hold the character. -/
def needsQuotes (c : Char) : Bool :=
  c == ';' || c == '"' || c == '\n' || c == '\r'

/-- A cell as it is written. -/
inductive Cell where
  | plain (text : String) (free : ¬ text.toList.any needsQuotes)
  | quoted (text : String)

namespace Cell

def text : Cell → String
  | plain text _ => text
  | quoted text => text

/-- A byte inside quotes: a quote is written twice. -/
def doubled (b : UInt8) : List UInt8 :=
  if b = Scanner.quote then [Scanner.quote, Scanner.quote] else [b]

def bytes : Cell → List UInt8
  | plain text _ => Text.encode text
  | quoted text => Scanner.quote :: (Text.encode text).flatMap doubled ++ [Scanner.quote]

end Cell

/-- What ends a line. -/
inductive LineEnd where
  | lineFeed
  | carriageReturn
  | both
  deriving DecidableEq

def LineEnd.bytes : LineEnd → List UInt8
  | lineFeed => [Scanner.lineFeed]
  | carriageReturn => [Scanner.carriageReturn]
  | both => [Scanner.carriageReturn, Scanner.lineFeed]

/-- A line with what ends it.  Any end after the first is that of a blank line. -/
structure Line where
  cells : List Cell
  ends : List LineEnd

namespace Line

def bytes (l : Line) : List UInt8 :=
  [Scanner.delimiter].intercalate (l.cells.map Cell.bytes) ++ l.ends.flatMap LineEnd.bytes

/-- What the cells hold. -/
def contents (l : Line) : List (List UInt8) :=
  l.cells.map fun cell => Text.encode cell.text

@[simp] theorem length_contents (l : Line) : l.contents.length = l.cells.length :=
  List.length_map _

/-- The texts of the cells without the blanks around them. -/
def texts (l : Line) : List String :=
  l.cells.map fun cell => Text.trim cell.text

end Line

/-- A table as it is written.  The end of the last line may be missing.  With a single column an
empty cell would be a blank line, so there are two at least. -/
structure Sheet where
  header : Line
  rows : List Line
  wide : 2 ≤ header.cells.length
  even : ∀ row ∈ rows, row.cells.length = header.cells.length
  ended : ∀ l ∈ (header :: rows).dropLast, l.ends ≠ []

def Sheet.bytes (s : Sheet) : List UInt8 :=
  (s.header :: s.rows).flatMap Line.bytes

/-! ## Bytes -/

theorem LineEnd.isTerminator_of_mem (e : LineEnd) : ∀ b ∈ e.bytes, Scanner.isTerminator b := by
  cases e <;> simp [LineEnd.bytes, Scanner.isTerminator]

theorem LineEnd.bytes_ne_nil (e : LineEnd) : e.bytes ≠ [] := by
  cases e <;> decide

/-- The bytes of a text without characters that need quotes are no signs to the scanner. -/
theorem not_sign_of_free {text : String} (free : ¬ text.toList.any needsQuotes) {b : UInt8}
    (hb : b ∈ Text.encode text) :
    b ≠ Scanner.delimiter ∧ b ≠ Scanner.quote ∧ ¬ Scanner.isTerminator b := by
  have absent : ∀ c : Char, c.toNat < 128 → needsQuotes c → b ≠ UInt8.ofNat c.toNat := by
    rintro c ascii needs rfl
    have code : (UInt8.ofNat c.toNat).toNat = c.toNat := by
      rw [UInt8.toNat_ofNat']
      omega
    obtain ⟨d, hd, same⟩ := Text.exists_char_of_mem_encode hb (by omega)
    have : d = c := by rw [← Char.ofNat_toNat d, same, code, Char.ofNat_toNat]
    exact free (List.any_eq_true.mpr ⟨d, hd, this ▸ needs⟩)
  refine ⟨absent ';' (by decide) (by decide), absent '"' (by decide) (by decide), ?_⟩
  rw [Scanner.isTerminator, Bool.or_eq_true, beq_iff_eq, beq_iff_eq]
  rintro (feed | ret)
  · exact absent '\n' (by decide) (by decide) feed
  · exact absent '\r' (by decide) (by decide) ret

namespace Scanner

variable {s : Scanner} {b : UInt8}

/-! ## Single bytes -/

theorem step_of_not_sign (outside : s.place ≠ .quoted)
    (hb : b ≠ delimiter ∧ b ≠ quote ∧ ¬ isTerminator b) : s.step b = (s.advance b).push b .plain := by
  obtain ⟨notDelimiter, notQuote, notEnd⟩ := hb
  rw [step, take, place_advance]
  cases h : s.place with
  | quoted => exact absurd h outside
  | _ => simp [stepFirst, stepPlain, notDelimiter, notQuote, notEnd]

theorem step_delimiter (outside : s.place ≠ .quoted) :
    s.step delimiter = (s.advance delimiter).endCell := by
  rw [step, take, place_advance]
  cases h : s.place with
  | quoted => exact absurd h outside
  | _ => rfl

theorem step_isTerminator_of_recordStart (h : s.place = .recordStart) (hb : isTerminator b) :
    s.step b = s.advance b := by
  rw [step, take, place_advance, h]
  simp [hb]

theorem step_quote (h : s.place = .recordStart ∨ s.place = .cellStart) :
    s.step quote = { s.advance quote with place := .quoted } := by
  rw [step, take, place_advance]
  rcases h with h | h <;> rw [h] <;> rfl

theorem step_of_quoted (h : s.place = .quoted) (hb : b ≠ quote) :
    s.step b = (s.advance b).push b .quoted := by
  rw [step, take, place_advance, h]
  simp [hb]

theorem step_quote_of_quoted (h : s.place = .quoted) :
    s.step quote = { s.advance quote with place := .quoteSeen } := by
  rw [step, take, place_advance, h]
  rfl

theorem step_quote_of_quoteSeen (h : s.place = .quoteSeen) :
    s.step quote = (s.advance quote).push quote .quoted := by
  rw [step, take, place_advance, h]
  rfl

/-! ## What a scanner shows -/

/-- The cells of the complete records and those of the record at hand, the last of which is the cell
at hand. -/
structure Shows (s : Scanner) (done : List (List (List UInt8))) (cells : List (List UInt8)) :
    Prop where
  done : s.records.reverse.map RawRecord.cells = done
  cells : s.record.cells = cells

section Shows

variable {done : List (List (List UInt8))} {before cells : List (List UInt8)} {cell : List UInt8}

theorem shows_empty : Shows {} [] [[]] :=
  ⟨rfl, rfl⟩

theorem Shows.advance (h : s.Shows done cells) (b : UInt8) : (s.advance b).Shows done cells :=
  ⟨h.done, h.cells⟩

theorem Shows.atPlace (h : s.Shows done cells) (place : Place) :
    Shows { s with place := place } done cells :=
  ⟨h.done, h.cells⟩

theorem Shows.push (h : s.Shows done (before ++ [cell])) (b : UInt8) (place : Place) :
    (s.push b place).Shows done (before ++ [cell ++ [b]]) := by
  refine ⟨h.done, ?_⟩
  have shown := h.cells
  simp only [record, List.reverse_cons] at shown
  obtain ⟨rfl, same⟩ := List.append_inj' shown rfl
  obtain rfl := List.singleton_inj.mp same
  simp [record, Scanner.push]

theorem Shows.endCell (h : s.Shows done cells) : s.endCell.Shows done (cells ++ [[]]) := by
  refine ⟨h.done, ?_⟩
  rw [← h.cells]
  simp [record, Scanner.endCell]

theorem Shows.endRecord (h : s.Shows done cells) : s.endRecord.Shows (done ++ [cells]) [[]] := by
  refine ⟨?_, rfl⟩
  rw [← h.done, ← h.cells]
  simp [Scanner.endRecord]

/-! ## Cells -/

theorem scan_of_not_sign {bs : List UInt8}
    (free : ∀ b ∈ bs, b ≠ delimiter ∧ b ≠ quote ∧ ¬ isTerminator b) (outside : s.place ≠ .quoted)
    (h : s.Shows done (before ++ [cell])) :
    (s.scan bs).Shows done (before ++ [cell ++ bs]) ∧ (s.scan bs).place ≠ .quoted ∧
      (s.place ≠ .recordStart → (s.scan bs).place ≠ .recordStart) := by
  induction bs generalizing s cell with
  | nil => exact ⟨by rwa [List.append_nil], outside, id⟩
  | cons b bs ih =>
    obtain ⟨hb, hbs⟩ := List.forall_mem_cons.mp free
    rw [scan_cons, step_of_not_sign outside hb]
    obtain ⟨shows, notQuoted, begun⟩ :=
      ih hbs (s := (s.advance b).push b .plain) (by simp [Scanner.push]) ((h.advance b).push b .plain)
    rw [List.append_assoc, List.singleton_append] at shows
    exact ⟨shows, notQuoted, fun _ => begun (by simp [Scanner.push])⟩

theorem scan_doubled (bs : List UInt8) (h : s.Shows done (before ++ [cell]))
    (inside : s.place = .quoted) :
    (s.scan (bs.flatMap Cell.doubled)).Shows done (before ++ [cell ++ bs]) ∧
      (s.scan (bs.flatMap Cell.doubled)).place = .quoted := by
  induction bs generalizing s cell with
  | nil => exact ⟨by rwa [List.append_nil], inside⟩
  | cons b bs ih =>
    have pushed : ∃ t : Scanner, s.scan (Cell.doubled b) = t.push b .quoted ∧
        t.Shows done (before ++ [cell]) := by
      by_cases hb : b = quote
      · subst hb
        refine ⟨_, ?_, ((h.advance quote).atPlace .quoteSeen).advance quote⟩
        rw [Cell.doubled, if_pos rfl, scan_cons, scan_cons, scan_nil, step_quote_of_quoted inside,
          step_quote_of_quoteSeen rfl]
      · refine ⟨_, ?_, h.advance b⟩
        rw [Cell.doubled, if_neg hb, scan_cons, scan_nil, step_of_quoted inside hb]
    obtain ⟨t, scanned, shown⟩ := pushed
    rw [List.flatMap_cons, scan_append, scanned]
    have := ih (shown.push b .quoted) rfl
    rwa [List.append_assoc, List.singleton_append] at this

/-- A cell is scanned from its first byte to behind its last. -/
theorem scan_cell (c : Cell) (start : s.place = .recordStart ∨ s.place = .cellStart)
    (h : s.Shows done (before ++ [[]])) :
    (s.scan c.bytes).Shows done (before ++ [Text.encode c.text]) ∧
      (s.scan c.bytes).place ≠ .quoted ∧
      (s.place ≠ .recordStart → (s.scan c.bytes).place ≠ .recordStart) := by
  cases c with
  | plain text free =>
    have outside : s.place ≠ .quoted := by rcases start with h | h <;> simp [h]
    exact scan_of_not_sign (fun b => not_sign_of_free free) outside h
  | quoted text =>
    obtain ⟨shows, inside⟩ := scan_doubled (Text.encode text)
      ((h.advance quote).atPlace .quoted) rfl
    rw [Cell.bytes, List.cons_append, scan_cons, step_quote start, scan_append, scan_cons, scan_nil,
      step_quote_of_quoted inside]
    exact ⟨(shows.advance quote).atPlace .quoteSeen, by simp, fun _ => by simp⟩

/-- A cell and what parts it from the next one. -/
theorem scan_cell_delimiter (c : Cell) (bs : List UInt8)
    (start : s.place = .recordStart ∨ s.place = .cellStart) (h : s.Shows done (before ++ [[]])) :
    ∃ t : Scanner, s.scan (c.bytes ++ [delimiter] ++ bs) = t.scan bs ∧ t.place = .cellStart ∧
      t.Shows done (before ++ [Text.encode c.text] ++ [[]]) := by
  obtain ⟨shows, outside, -⟩ := scan_cell c start h
  refine ⟨((s.scan c.bytes).advance delimiter).endCell, ?_, rfl, (shows.advance delimiter).endCell⟩
  rw [scan_append, scan_append, scan_cons, scan_nil, step_delimiter outside]

/-- The cells of a line behind its first one. -/
theorem scan_cells (c : Cell) (cs : List Cell) (start : s.place = .cellStart)
    (h : s.Shows done (before ++ [[]])) :
    let scanned := s.scan ([delimiter].intercalate ((c :: cs).map Cell.bytes))
    scanned.Shows done (before ++ (c :: cs).map fun cell => Text.encode cell.text) ∧
      scanned.place ≠ .quoted ∧ scanned.place ≠ .recordStart := by
  induction cs generalizing s c before with
  | nil =>
    obtain ⟨shows, outside, begun⟩ := scan_cell c (Or.inr start) h
    simpa using ⟨shows, outside, begun (by simp [start])⟩
  | cons c' cs ih =>
    rw [List.map_cons, List.map_cons, List.intercalate_cons_cons]
    obtain ⟨t, scanned, start', shows⟩ := scan_cell_delimiter c _ (Or.inr start) h
    rw [scanned]
    simpa using ih c' start' shows

/-! ## Lines -/

/-- The cells of a line are scanned as a record that has begun. -/
theorem scan_line_cells {l : Line} (wide : 2 ≤ l.cells.length) (start : s.place = .recordStart)
    (h : s.Shows done [[]]) :
    let scanned := s.scan ([delimiter].intercalate (l.cells.map Cell.bytes))
    scanned.Shows done l.contents ∧ scanned.place ≠ .quoted ∧ scanned.place ≠ .recordStart := by
  obtain ⟨c, c', cs, split⟩ : ∃ c c' cs, l.cells = c :: c' :: cs := by
    rcases hl : l.cells with _ | ⟨c, _ | ⟨c', cs⟩⟩
    · simp [hl] at wide
    · simp [hl] at wide
    · exact ⟨c, c', cs, rfl⟩
  rw [Line.contents, split, List.map_cons, List.map_cons, List.intercalate_cons_cons]
  obtain ⟨t, scanned, start', shows⟩ :=
    scan_cell_delimiter c _ (Or.inl start) (show s.Shows done ([] ++ [[]]) from h)
  rw [scanned]
  exact scan_cells c' cs start' shows

/-- Blank lines count for nothing. -/
theorem scan_isTerminator {bs : List UInt8} (ends : ∀ b ∈ bs, isTerminator b)
    (start : s.place = .recordStart) (h : s.Shows done cells) :
    (s.scan bs).Shows done cells ∧ (s.scan bs).place = .recordStart := by
  induction bs generalizing s with
  | nil => exact ⟨h, start⟩
  | cons b bs ih =>
    obtain ⟨hb, hbs⟩ := List.forall_mem_cons.mp ends
    rw [scan_cons, step_isTerminator_of_recordStart start hb]
    exact ih hbs start (h.advance b)

theorem scan_ends {ends : List LineEnd} (some : ends ≠ []) (outside : s.place ≠ .quoted)
    (begun : s.place ≠ .recordStart) (h : s.Shows done cells) :
    (s.scan (ends.flatMap LineEnd.bytes)).Shows (done ++ [cells]) [[]] ∧
      (s.scan (ends.flatMap LineEnd.bytes)).place = .recordStart := by
  have terminators : ∀ b ∈ ends.flatMap LineEnd.bytes, isTerminator b := by
    intro b hb
    obtain ⟨e, -, hb⟩ := List.mem_flatMap.mp hb
    exact e.isTerminator_of_mem b hb
  have nonempty : ends.flatMap LineEnd.bytes ≠ [] := by
    obtain ⟨e, es, rfl⟩ := List.exists_cons_of_ne_nil some
    simp [e.bytes_ne_nil]
  obtain ⟨b, bs, split⟩ := List.exists_cons_of_ne_nil nonempty
  rw [split] at terminators ⊢
  obtain ⟨hb, hbs⟩ := List.forall_mem_cons.mp terminators
  rw [scan_cons, step_isTerminator outside begun hb]
  exact scan_isTerminator hbs rfl (h.advance b).endRecord

theorem finish_of_recordStart (h : s.place = .recordStart) : s.finish = s := by
  rw [finish, h]

theorem finish_of_begun (h : s.place ≠ .recordStart) : s.finish = s.endRecord := by
  rw [finish]
  split
  · contradiction
  · rfl

/-- A line with its end is a record. -/
theorem scan_line {l : Line} (wide : 2 ≤ l.cells.length) (ended : l.ends ≠ [])
    (start : s.place = .recordStart) (h : s.Shows done [[]]) :
    (s.scan l.bytes).Shows (done ++ [l.contents]) [[]] ∧
      (s.scan l.bytes).place = .recordStart := by
  obtain ⟨shows, outside, begun⟩ := scan_line_cells wide start h
  rw [Line.bytes, scan_append]
  exact scan_ends ended outside begun shows

/-- The last line is a record, even without its end. -/
theorem finish_scan_line {l : Line} (wide : 2 ≤ l.cells.length) (start : s.place = .recordStart)
    (h : s.Shows done [[]]) :
    (s.scan l.bytes).finish.Shows (done ++ [l.contents]) [[]] := by
  by_cases ended : l.ends = []
  · obtain ⟨shows, -, begun⟩ := scan_line_cells wide start h
    rw [Line.bytes, ended, List.flatMap_nil, List.append_nil, finish_of_begun begun]
    exact shows.endRecord
  · obtain ⟨shows, ended⟩ := scan_line wide ended start h
    rwa [finish_of_recordStart ended]

/-- Lines are records. -/
theorem finish_scan_lines (l : Line) (ls : List Line) (wide : ∀ k ∈ l :: ls, 2 ≤ k.cells.length)
    (ended : ∀ k ∈ (l :: ls).dropLast, k.ends ≠ []) (start : s.place = .recordStart)
    (h : s.Shows done [[]]) :
    (s.scan ((l :: ls).flatMap Line.bytes)).finish.Shows
      (done ++ (l :: ls).map Line.contents) [[]] := by
  induction ls generalizing s l done with
  | nil => simpa using finish_scan_line (wide l (by simp)) start h
  | cons l' ls ih =>
    rw [List.dropLast_cons_cons] at ended
    obtain ⟨hl, hls⟩ := List.forall_mem_cons.mp ended
    obtain ⟨shows, start'⟩ := scan_line (wide l (by simp)) hl start h
    have := ih l' (List.forall_mem_cons.mp wide).2 hls start' shows
    rw [List.flatMap_cons, scan_append]
    simpa using this

end Shows

end Scanner

theorem Source.records_of_not_mark {s : Source} (whole : s.failure = none)
    (unmarked : ¬ Scanner.mark <+: s.bytes) :
    s.records = ((({} : Scanner).scan s.bytes).finish.records.reverse, none) := by
  have given : s.given = s.bytes := by rw [given, whole]
  have fault : s.fault = none := by rw [fault, whole]
  have first : s.first ≠ Scanner.mark := fun marked =>
    unmarked (marked ▸ given ▸ s.first_prefix)
  rw [records_eq first, fault, opening_of_not_mark (by rwa [given]), given, List.drop_zero]

/-! ## Tables -/

theorem Line.forall₂_contents (l : Line) : List.Forall₂ IsCellText l.contents l.texts := by
  rw [Line.contents, Line.texts, List.forall₂_map_left_iff, List.forall₂_map_right_iff,
    List.forall₂_same]
  intro cell _
  exact isCellText_encode cell.text

theorem RawRecord.header_of_cells {r : RawRecord} {l : Line} (h : r.cells = l.contents) :
    r.header = .ok l.texts :=
  header_eq_ok_iff.mpr (h ▸ l.forall₂_contents)

theorem RawRecord.row_of_cells {r : RawRecord} {l : Line} (h : r.cells = l.contents) :
    r.row l.cells.length = .ok l.texts :=
  row_eq_ok_iff.mpr ⟨by rw [h, Line.length_contents], h ▸ l.forall₂_contents⟩

theorem rowsOf_of_cells {width : Nat} {lines : List Line} (even : ∀ l ∈ lines, l.cells.length = width)
    {records : List RawRecord} (h : records.map RawRecord.cells = lines.map Line.contents) :
    rowsOf width records = (lines.map Line.texts, none) := by
  induction lines generalizing records with
  | nil =>
    rw [List.map_eq_nil_iff.mp h]
    rfl
  | cons l lines ih =>
    obtain ⟨r, rs, rfl, hr, hrs⟩ := List.map_eq_cons_iff.mp h
    obtain ⟨hl, hlines⟩ := List.forall_mem_cons.mp even
    rw [rowsOf, ← hl, RawRecord.row_of_cells hr]
    simp only [hl, ih hlines hrs]
    rfl

/-- A sheet is read as the texts of its cells without the blanks around them. -/
theorem read_sheet (sheet : Sheet) (most : Option Nat) (unmarked : ¬ Scanner.mark <+: sheet.bytes) :
    read ⟨sheet.bytes, most, none⟩
      = .ok ⟨sheet.header.texts, sheet.rows.map Line.texts, none⟩ := by
  have wide : ∀ l ∈ sheet.header :: sheet.rows, 2 ≤ l.cells.length :=
    List.forall_mem_cons.mpr ⟨sheet.wide, fun row hrow => by
      rw [sheet.even row hrow]
      exact sheet.wide⟩
  have shows := Scanner.finish_scan_lines sheet.header sheet.rows wide sheet.ended rfl
    Scanner.shows_empty
  have records := Source.records_of_not_mark (s := ⟨sheet.bytes, most, none⟩) rfl unmarked
  have cells := shows.done
  rw [List.nil_append, List.map_cons] at cells
  obtain ⟨first, rest, split, hfirst, hrest⟩ := List.map_eq_cons_iff.mp cells
  have width : first.cells.length = sheet.header.cells.length := by
    rw [hfirst, Line.length_contents]
  rw [Table.read, records, Sheet.bytes, split, ofRecords, width]
  simp only [rowsOf_of_cells sheet.even hrest, RawRecord.header_of_cells hfirst]
  rfl

end LineCode.Table
