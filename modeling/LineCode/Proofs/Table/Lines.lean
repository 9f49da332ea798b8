import LineCode.Table.Scanner

/-!
# The lines of a source

Each record but the last ends with the first byte of what ends its line.  These bytes are found in
the bytes of the source, and they tell which records are complete when the source fails: those whose
line ended before.  A byte order mark matters only where the first read holds it, and where that
read holds nothing else the table ends there.
-/

namespace LineCode.Table

namespace Scanner

/-- The byte ends the line: a line feed or a carriage return outside quotes, in a line that has
begun. -/
def Ends (s : Scanner) (b : UInt8) : Prop :=
  isTerminator b ∧ s.place ≠ .quoted ∧ s.place ≠ .recordStart

instance (s : Scanner) (b : UInt8) : Decidable (s.Ends b) :=
  inferInstanceAs (Decidable (_ ∧ _))

/-- The offsets of the bytes that end lines. -/
def lineEnds (s : Scanner) : List UInt8 → List Nat
  | [] => []
  | b :: bs => if s.Ends b then s.byte :: (s.step b).lineEnds bs else (s.step b).lineEnds bs

/-! ## Steps -/

variable {s : Scanner} {b : UInt8}

@[simp] theorem place_advance (s : Scanner) (b : UInt8) : (s.advance b).place = s.place := rfl

theorem step_isTerminator (outside : s.place ≠ .quoted) (begun : s.place ≠ .recordStart)
    (hb : isTerminator b) : s.step b = (s.advance b).endRecord := by
  have notDelimiter : b ≠ delimiter := by rintro rfl; exact absurd hb (by decide)
  have notQuote : b ≠ quote := by rintro rfl; exact absurd hb (by decide)
  rw [step, take, place_advance]
  cases h : s.place with
  | quoted => exact absurd h outside
  | recordStart => exact absurd h begun
  | _ => simp [stepFirst, stepPlain, notDelimiter, notQuote, hb]

/-- A byte that ends the line completes the record. -/
theorem records_step_of_ends (h : s.Ends b) : (s.step b).records = s.record :: s.records := by
  obtain ⟨hb, outside, begun⟩ := h
  rw [step_isTerminator outside begun hb]
  rfl

theorem stepPlain_of_not_isTerminator (hb : ¬ isTerminator b) :
    (s.stepPlain b).records = s.records ∧ (s.stepPlain b).byte = s.byte := by
  rw [stepPlain, if_neg hb]
  split <;> exact ⟨rfl, rfl⟩

theorem stepFirst_of_not_isTerminator (hb : ¬ isTerminator b) :
    (s.stepFirst b).records = s.records ∧ (s.stepFirst b).byte = s.byte := by
  rw [stepFirst]
  split
  · exact ⟨rfl, rfl⟩
  · exact stepPlain_of_not_isTerminator hb

/-- No other byte completes a record. -/
theorem step_of_not_ends (h : ¬ s.Ends b) :
    (s.step b).records = s.records ∧ (s.step b).byte = s.byte + 1 := by
  have goal : ∀ t : Scanner, t.place = s.place →
      (t.take b).records = t.records ∧ (t.take b).byte = t.byte := by
    intro t ht
    rw [take, ht]
    cases hp : s.place with
    | quoted => dsimp only; split <;> exact ⟨rfl, rfl⟩
    | recordStart =>
      by_cases hb : isTerminator b
      · simp [hb]
      · simpa [hb] using stepFirst_of_not_isTerminator hb
    | cellStart => exact stepFirst_of_not_isTerminator fun hb => h ⟨hb, by simp [hp]⟩
    | plain => exact stepPlain_of_not_isTerminator fun hb => h ⟨hb, by simp [hp]⟩
    | quoteSeen =>
      have hb : ¬ isTerminator b := fun hb => h ⟨hb, by simp [hp]⟩
      dsimp only
      split
      · exact ⟨rfl, rfl⟩
      · exact stepPlain_of_not_isTerminator hb
  exact goal (s.advance b) rfl

theorem byte_step (s : Scanner) (b : UInt8) : (s.step b).byte = s.byte + 1 := by
  by_cases h : s.Ends b
  · rw [step_isTerminator h.2.1 h.2.2 h.1]
    rfl
  · exact (step_of_not_ends h).2

/-! ## Scans -/

theorem byte_scan (s : Scanner) (bs : List UInt8) : (s.scan bs).byte = s.byte + bs.length := by
  induction bs generalizing s with
  | nil => rfl
  | cons b bs ih =>
    rw [scan_cons, ih, byte_step, List.length_cons, Nat.add_right_comm, Nat.add_assoc]

theorem lineEnds_append (s : Scanner) (bs cs : List UInt8) :
    s.lineEnds (bs ++ cs) = s.lineEnds bs ++ (s.scan bs).lineEnds cs := by
  induction bs generalizing s with
  | nil => rfl
  | cons b bs ih =>
    rw [List.cons_append, lineEnds, lineEnds, ih, scan_cons]
    split <;> rfl

theorem bounds_of_mem_lineEnds {bs : List UInt8} {i : Nat} (h : i ∈ s.lineEnds bs) :
    s.byte ≤ i ∧ i < s.byte + bs.length := by
  induction bs generalizing s with
  | nil => contradiction
  | cons b bs ih =>
    have later : i ∈ (s.step b).lineEnds bs → s.byte ≤ i ∧ i < s.byte + (b :: bs).length := by
      intro h
      have := ih h
      rw [byte_step] at this
      rw [List.length_cons]
      omega
    rw [lineEnds] at h
    split at h
    · rcases List.mem_cons.mp h with rfl | h
      · simp
      · exact later h
    · exact later h

/-- Scanning adds a record for each line that ends. -/
theorem exists_records_scan (s : Scanner) (bs : List UInt8) :
    ∃ added, (s.scan bs).records.reverse = s.records.reverse ++ added ∧
      added.length = (s.lineEnds bs).length := by
  induction bs generalizing s with
  | nil => exact ⟨[], by simp, rfl⟩
  | cons b bs ih =>
    obtain ⟨added, split, same⟩ := ih (s.step b)
    rw [scan_cons, lineEnds]
    by_cases h : s.Ends b
    · refine ⟨s.record :: added, ?_, by rw [if_pos h, List.length_cons, same, List.length_cons]⟩
      rw [split, records_step_of_ends h, List.reverse_cons, List.append_assoc,
        List.singleton_append]
    · exact ⟨added, by rw [split, (step_of_not_ends h).1], by rw [if_neg h, same]⟩

/-- The end of the source may complete one more record. -/
theorem exists_records_finish (s : Scanner) :
    ∃ added, s.finish.records.reverse = s.records.reverse ++ added := by
  rw [finish]
  split
  · exact ⟨[], by simp⟩
  · exact ⟨[s.record], by simp [endRecord]⟩

/-- The line ends among the first `n` bytes are those of the first lines. -/
theorem lt_length_lineEnds_take_iff (s : Scanner) (bs : List UInt8) (n k : Nat) :
    k < (s.lineEnds (bs.take n)).length ↔ ∃ i < s.byte + n, (s.lineEnds bs)[k]? = some i := by
  have split : s.lineEnds bs
      = s.lineEnds (bs.take n) ++ (s.scan (bs.take n)).lineEnds (bs.drop n) := by
    rw [← lineEnds_append, List.take_append_drop]
  rw [split]
  constructor
  · intro hk
    have := bounds_of_mem_lineEnds (List.getElem_mem hk)
    rw [List.length_take] at this
    refine ⟨_, ?_, by rw [List.getElem?_append_left hk, List.getElem?_eq_getElem hk]⟩
    omega
  · rintro ⟨i, hi, found⟩
    refine Nat.lt_of_not_le fun hk => ?_
    rw [List.getElem?_append_right hk] at found
    have := bounds_of_mem_lineEnds (List.mem_of_getElem? found)
    rw [byte_scan, List.length_take, List.length_drop] at this
    omega

/-- The first bytes complete the first records, one for each line that ends among them. -/
theorem exists_records_scan_take (s : Scanner) (bs : List UInt8) (n : Nat) :
    ∃ done more, (s.scan (bs.take n)).records.reverse = s.records.reverse ++ done ∧
      (s.scan bs).finish.records.reverse = s.records.reverse ++ (done ++ more) ∧
      ∀ k, k < done.length ↔ ∃ i < s.byte + n, (s.lineEnds bs)[k]? = some i := by
  obtain ⟨done, first, ended⟩ := s.exists_records_scan (bs.take n)
  obtain ⟨later, all, -⟩ := (s.scan (bs.take n)).exists_records_scan (bs.drop n)
  obtain ⟨last, finished⟩ := (s.scan bs).exists_records_finish
  rw [← scan_append, List.take_append_drop] at all
  refine ⟨done, later ++ last, first, ?_, fun k => ?_⟩
  · rw [finished, all, first, List.append_assoc, List.append_assoc]
  · rw [ended, lt_length_lineEnds_take_iff]

end Scanner

/-! ## First reads -/

namespace Source

/-- What the first read gives. -/
def first (s : Source) : List UInt8 :=
  s.reads.headD []

/-- The scanner that a source is begun with. -/
def opening (s : Source) : Scanner :=
  if Scanner.mark <+: s.first then { byte := Scanner.mark.length } else {}

/-- The offsets of the bytes that end the lines of a source. -/
def lineEnds (s : Source) : List Nat :=
  s.opening.lineEnds (s.bytes.drop s.opening.byte)

theorem first_eq (s : Source) :
    s.first = match s.most with
      | none => s.given
      | some n => s.given.take (n - 1 + 1) := by
  rw [first, reads]
  cases s.most with
  | none => rfl
  | some n =>
    dsimp only
    rw [pieces.eq_def]
    cases s.given <;> rfl

theorem first_prefix (s : Source) : s.first <+: s.given := by
  rw [first_eq]
  split
  · exact List.prefix_rfl
  · exact List.take_prefix ..

/-- The reads of a source are scanned as one. -/
theorem scanReads_eq (s : Source) :
    Scanner.scanReads s.reads = s.opening.scan (s.given.drop s.opening.byte) := by
  rw [opening, first, ← s.flatten_reads]
  cases s.reads with
  | nil => rfl
  | cons first rest =>
    rw [Scanner.scanReads, Scanner.foldl_scan, Scanner.scanFirst, List.headD_cons,
      List.flatten_cons]
    split
    · rename_i marked
      rw [List.drop_append_of_le_length marked.length_le, Scanner.scan_append]
    · rw [List.drop_zero, Scanner.scan_append]

/-- The records of a source whose first read does not hold the byte order mark and nothing else. -/
theorem records_eq {s : Source} (h : s.first ≠ Scanner.mark) :
    s.records = match s.fault with
      | none => ((s.opening.scan (s.given.drop s.opening.byte)).finish.records.reverse, none)
      | some f => ((s.opening.scan (s.given.drop s.opening.byte)).records.reverse, some f) := by
  have first : s.reads.head? ≠ some Scanner.mark := fun marked => h (by simp [Source.first, marked])
  cases hf : s.fault with
  | none => simp only [records, if_neg first, scanReads_eq, hf]
  | some f => simp only [records, if_neg first, scanReads_eq, hf]

theorem records_of_first_eq_mark {s : Source} (h : s.first = Scanner.mark) :
    s.records = ([], none) := by
  have first : s.reads.head? = some Scanner.mark := by
    rw [Source.first, List.headD_eq_head?_getD] at h
    cases hs : s.reads.head? with
    | none => rw [hs] at h; contradiction
    | some first => rw [hs] at h; exact congrArg some h
  rw [records, if_pos first]

theorem opening_of_not_mark {s : Source} (h : ¬ Scanner.mark <+: s.given) : s.opening = {} :=
  if_neg fun marked => h (marked.trans s.first_prefix)

/-! ## Failures -/

/-- The source without its failure. -/
def whole (s : Source) : Source :=
  { s with failure := none }

/-- What ends line `k` begins among the bytes that are given. -/
def GivesLine (s : Source) (k : Nat) : Prop :=
  ∃ i < s.given.length, s.whole.lineEnds[k]? = some i

theorem given_eq_take (s : Source) : s.given = s.bytes.take s.given.length := by
  rw [given]
  split
  · rw [List.take_length]
  · rw [List.length_take, List.take_eq_take_min]

theorem first_eq_take (s : Source) : s.first = s.whole.first.take s.given.length := by
  rw [first_eq, first_eq]
  change _ = List.take _ (match s.most with
    | none => s.bytes
    | some n => s.bytes.take (n - 1 + 1))
  cases s.most with
  | none => exact s.given_eq_take
  | some n =>
    calc s.given.take (n - 1 + 1)
        = (s.bytes.take s.given.length).take (n - 1 + 1) := by rw [← s.given_eq_take]
      _ = (s.bytes.take (n - 1 + 1)).take s.given.length := by
        rw [List.take_take, List.take_take, Nat.min_comm]

theorem opening_of_mark {s : Source} (h : Scanner.mark <+: s.first) :
    s.opening = { byte := Scanner.mark.length } :=
  if_pos h

/-- A source is begun as it would be without its failure, or fails within the mark. -/
theorem opening_cases (s : Source) :
    s.opening = s.whole.opening ∧ s.opening.byte ≤ s.given.length ∨
    s.opening = {} ∧ s.whole.opening.byte = Scanner.mark.length ∧
      s.given.length < Scanner.mark.length ∧ s.given = Scanner.mark.take s.given.length := by
  have marked : Scanner.mark <+: s.first ↔
      Scanner.mark <+: s.whole.first ∧ Scanner.mark.length ≤ s.given.length := by
    rw [s.first_eq_take, List.prefix_take_iff]
  by_cases whole : Scanner.mark <+: s.whole.first
  · by_cases long : Scanner.mark.length ≤ s.given.length
    · left
      rw [opening_of_mark whole, opening_of_mark (marked.mpr ⟨whole, long⟩)]
      exact ⟨rfl, long⟩
    · right
      obtain ⟨rest, bytes⟩ : Scanner.mark <+: s.bytes := whole.trans s.whole.first_prefix
      refine ⟨if_neg fun h => long (marked.mp h).2, by rw [opening_of_mark whole], by omega, ?_⟩
      rw [s.given_eq_take, ← bytes, List.take_append_of_le_length (by omega), List.length_take,
        Nat.min_eq_left (by omega)]
  · left
    rw [opening, opening, if_neg whole, if_neg fun h => whole (marked.mp h).1]
    exact ⟨rfl, Nat.zero_le _⟩

/-- The bytes of a mark that is cut short complete no record. -/
theorem records_scan_take_mark {n : Nat} (h : n < Scanner.mark.length) :
    (({} : Scanner).scan (Scanner.mark.take n)).records = [] := by
  have all : ∀ n < Scanner.mark.length,
      (({} : Scanner).scan (Scanner.mark.take n)).records = [] := by decide
  exact all n h

theorem exists_records_whole (s : Source) : ∃ records, s.whole.records = (records, none) := by
  by_cases h : s.whole.first = Scanner.mark
  · exact ⟨[], records_of_first_eq_mark h⟩
  · exact ⟨_, records_eq h⟩

/-- **The records before a failure are those of the lines that end before it.** -/
theorem records_of_fault {s : Source} {f : Stream.Fault} (h : s.fault = some f)
    (unmarked : s.first ≠ Scanner.mark) :
    ∃ done more, s.records = (done, some f) ∧ s.whole.records = (done ++ more, none) ∧
      ∀ k, k < done.length ↔ s.GivesLine k := by
  have records := records_eq unmarked
  rw [h] at records
  rcases s.opening_cases with ⟨same, behind⟩ | ⟨opening, marked, short, given⟩
  · have unmarked' : s.whole.first ≠ Scanner.mark := by
      intro marked
      have : s.opening.byte = Scanner.mark.length := by
        rw [same, opening_of_mark (marked ▸ List.prefix_rfl)]
      rw [s.first_eq_take, marked, List.take_of_length_le (by omega)] at unmarked
      exact unmarked rfl
    have cut : s.given.drop s.opening.byte
        = (s.bytes.drop s.opening.byte).take (s.given.length - s.opening.byte) := by
      rw [← List.drop_take, ← s.given_eq_take]
    have empty : s.opening.records.reverse = [] := by
      rw [opening]
      split <;> rfl
    obtain ⟨done, more, first, all, ended⟩ := s.opening.exists_records_scan_take
      (s.bytes.drop s.opening.byte) (s.given.length - s.opening.byte)
    rw [empty, List.nil_append] at first all
    rw [Nat.add_sub_cancel' behind] at ended
    refine ⟨done, more, by rw [records, cut, first], ?_, fun k => ?_⟩
    · rw [records_eq unmarked', ← same, ← all]
      rfl
    · rw [GivesLine, lineEnds, ← same]
      exact ended k
  · -- the failure lies within the mark, and no line ends there
    obtain ⟨more, whole⟩ := s.exists_records_whole
    refine ⟨[], more, ?_, whole, fun k => iff_of_false (by simp) ?_⟩
    · rw [records, opening, given, List.drop_zero, records_scan_take_mark (given ▸ short)]
      rfl
    · rintro ⟨i, hi, found⟩
      have := Scanner.bounds_of_mem_lineEnds (List.mem_of_getElem? found)
      omega

end Source

end LineCode.Table
