import LineCode.Proofs.Capture.Judging
import LineCode.Proofs.Capture.Numbers
import LineCode.Proofs.Table.Sheet

/-!
# Written captures

A capture may be written in many ways: with the columns in any order and others between them, with
names behind prefixes, with blanks around numbers and with any spelling of these.  However it is
written, the samples that were recorded are read.
-/

namespace LineCode.Capture

/-! ## Spellings -/

/-- The text is a spelling of the number with any blanks around it. -/
def IsSpelling (text : String) (n : Int) : Prop :=
  ∃ before digits after : List Char, text.toList = before ++ digits ++ after ∧
    before.all Text.isBlank ∧ after.all Text.isBlank ∧
    Number.ofChars? digits = some n

namespace Number

theorem not_isBlank_of_all {cs : List Char} (h : cs.all fun c => !Text.isBlank c) :
    ∀ c ∈ cs, ¬ Text.isBlank c := by
  intro c hc
  simpa using List.all_eq_true.mp h c hc

theorem IsDigit.not_isBlank {base d : Nat} {c : Char} (h : IsDigit base c d) :
    ¬ Text.isBlank c := by
  have digits : (smallDigits ++ capitalDigits).all fun c => !Text.isBlank c := by decide
  apply not_isBlank_of_all digits
  obtain ⟨-, small | capital⟩ := h
  · exact List.mem_append_left _ (List.mem_of_getElem? small)
  · exact List.mem_append_right _ (List.mem_of_getElem? capital)

theorem IsBody.not_isBlank {cs : List Char} {m : Int} (h : IsBody cs m) :
    ∀ c ∈ cs, ¬ Text.isBlank c := by
  have inMarks : ∀ mark ∈ marks, mark.1.all fun c => !Text.isBlank c := by decide
  have inSigns : ∀ sign ∈ signs, sign.1.all fun c => !Text.isBlank c := by decide
  obtain ⟨mark, hmark, rest, rfl, sign, hsign, digits, n, rfl, natural, -⟩ := h
  intro c hc
  obtain hc | hc := List.mem_append.mp hc
  · exact not_isBlank_of_all (inMarks mark hmark) c hc
  obtain hc | hc := List.mem_append.mp hc
  · exact not_isBlank_of_all (inSigns sign hsign) c hc
  · obtain ⟨d, digit⟩ := natural.exists_isDigit c hc
    exact digit.not_isBlank

/-- No spelling of a number has a blank in it. -/
theorem not_isBlank_of_ofChars? {n : Int} {cs : List Char} (h : ofChars? cs = some n) :
    ∀ c ∈ cs, ¬ Text.isBlank c := by
  obtain ⟨rfl, -⟩ | ⟨rfl, -⟩ | ⟨w, body, -⟩ := ofChars?_eq_some_iff.mp h
  · exact not_isBlank_of_all (by decide)
  · exact not_isBlank_of_all (by decide)
  · by_cases minus : cs.head? = some '-'
    · obtain ⟨rest, rfl⟩ := List.head?_eq_some_iff.mp minus
      exact List.forall_mem_cons.mpr ⟨by decide, body.not_isBlank⟩
    · rw [unsigned, if_neg minus] at body
      exact body.not_isBlank

end Number

/-- The blanks around a spelling are trimmed, and nothing of the spelling is. -/
theorem IsSpelling.ofText?_trim {text : String} {n : Int} (h : IsSpelling text n) :
    Number.ofText? (Text.trim text) = some n := by
  obtain ⟨before, digits, after, split, hb, ha, value⟩ := h
  rw [Text.trim_eq split (List.all_eq_true.mp hb) (List.all_eq_true.mp ha)
    (Number.not_isBlank_of_ofChars? value), Number.ofText?, String.toList_ofList, value]

/-! ## Rows -/

/-- The row has spellings of the sample's numbers where the columns stand. -/
def Records (names : List String) (row : Table.Line) (s : Sample) : Prop :=
  ∀ (c : Column) (i : Nat), c.StandsAt names i →
    ∃ cell, row.cells[i]? = some cell ∧ IsSpelling cell.text (s.value c)

theorem Records.spells {names : List String} {l : Layout} (stands : l.IsOf names) {row : Table.Line}
    {s : Sample} (h : Records names row s) : Spells l row.texts s := by
  intro c
  obtain ⟨cell, found, spelling⟩ := h c _ (stands c)
  have : row.texts[l.index c]? = some (Text.trim cell.text) := by
    rw [Table.Line.texts, List.getElem?_map, found]
    rfl
  rw [Layout.cell, List.getD_eq_getElem?_getD, this, Option.getD_some, spelling.ofText?_trim]

theorem Records.of_isOf {names : List String} {l : Layout} (stands : l.IsOf names)
    {row : Table.Line} {s : Sample}
    (h : ∀ c, ∃ cell, row.cells[l.index c]? = some cell ∧ IsSpelling cell.text (s.value c)) :
    Records names row s := by
  intro c i hi
  exact hi.unique (stands c) ▸ h c

/-! ## Captures -/

/-- **A written capture is read back.**  If the header names every column and each row records a
sample, where for each column the first cell that names it counts, these samples are read, in
however large pieces the bytes come. -/
theorem read_written (sheet : Table.Sheet) (samples : List Sample) (most : Option Nat)
    (named : ∀ c : Column, c.IsIn sheet.header.texts)
    (recorded : List.Forall₂ (Records sheet.header.texts) sheet.rows samples)
    (unmarked : ¬ Table.Scanner.mark <+: sheet.bytes) :
    read ⟨sheet.bytes, most, none⟩ = .ok samples := by
  obtain ⟨l, stands⟩ := Layout.exists_isOf named
  have spells : List.Forall₂ (Spells l) (sheet.rows.map Table.Line.texts) samples :=
    List.forall₂_map_left_iff.mpr (recorded.imp fun _ _ => Records.spells stands)
  rw [read, readBy, Table.read_sheet sheet most unmarked]
  change ofTable wrapping _ = _
  rw [ofTable, layoutOf, Layout.ofHeader_of_isOf stands]
  change (samplesOf wrapping l 1 _).bind _ = _
  rw [samplesOf_of_spells spells]
  rfl

/-- Two samples with a column of notes, prefixes, a second column of a name, blanks, quotes and
several ends of lines, the last of which is missing. -/
def mixedSheet : Table.Sheet where
  header := ⟨[.plain "q_out" (by decide), .plain " tb.data_in\t" (by decide), .quoted "a;\"note\"\n",
    .quoted " ve_in", .plain "tb.u.control_in" (by decide), .plain "old.q_out" (by decide)],
    [.both, .lineFeed, .carriageReturn]⟩
  rows := [
    ⟨[.plain "0b1101010100" (by decide), .quoted "\r\n -0x2 ", .plain "\u2003é" (by decide),
      .plain "false" (by decide), .plain " 003" (by decide), .plain "" (by decide)],
      [.carriageReturn]⟩,
    ⟨[.plain "\u2003+852" (by decide), .plain "0xA5" (by decide), .plain "" (by decide),
      .quoted "true", .plain "0" (by decide), .quoted "\""], []⟩]
  wide := by decide
  even := by decide
  ended := by decide

theorem read_mixedSheet :
    read ⟨mixedSheet.bytes, some 1, none⟩ = .ok [⟨-2, false, 3, 852⟩, ⟨165, true, 0, 852⟩] := by
  have stands : Layout.IsOf ⟨1, 3, 4, 0⟩ mixedSheet.header.texts := fun c =>
    Column.find?_eq_some_iff.mp (by cases c <;> decide +kernel)
  refine read_written mixedSheet _ _ stands.isIn (.cons ?_ (.cons ?_ .nil)) (by decide +kernel)
  · refine Records.of_isOf stands fun c => ?_
    cases c with
    | data => exact ⟨_, rfl, ['\r', '\n', ' '], "-0x2".toList, [' '], by decide +kernel⟩
    | period => exact ⟨_, rfl, [], "false".toList, [], by decide +kernel⟩
    | control => exact ⟨_, rfl, [' '], "003".toList, [], by decide +kernel⟩
    | expected => exact ⟨_, rfl, [], "0b1101010100".toList, [], by decide +kernel⟩
  · refine Records.of_isOf stands fun c => ?_
    cases c with
    | data => exact ⟨_, rfl, [], "0xA5".toList, [], by decide +kernel⟩
    | period => exact ⟨_, rfl, [], "true".toList, [], by decide +kernel⟩
    | control => exact ⟨_, rfl, [], "0".toList, [], by decide +kernel⟩
    | expected => exact ⟨_, rfl, ['\u2003'], "+852".toList, [], by decide +kernel⟩

end LineCode.Capture
