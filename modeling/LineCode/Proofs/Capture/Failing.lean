import LineCode.Proofs.Capture.Judging
import LineCode.Proofs.Table.Lines

/-!
# Captures from sources that fail

A source may fail at any byte.  A capture from it is never read: it is refused as it would be
without the failure, if a line decided that which had ended before, and otherwise for the failure.
In how large pieces the bytes come makes no difference unless they begin with a byte order mark.  A
first read that holds the mark and nothing else is taken for the whole table, and the failure behind
it goes untold.
-/

namespace LineCode

/-- The reading up to the given number of rows. -/
def Table.Reading.upTo (r : Reading) (k : Nat) : Reading :=
  ⟨r.header, r.rows.take k⟩

namespace Capture

/-! ## Lines that decide -/

/-- The capture is refused for line `k`: it is with the rows up to there, and would be read with
fewer.  The header is line 0. -/
def DecidedAt (r : Table.Reading) (k : Nat) (err : ReadError) : Prop :=
  ofReading (r.upTo k) = .error err ∧ ∀ j < k, ∃ samples, ofReading (r.upTo j) = .ok samples

variable {r : Table.Reading} {k n : Nat} {err : ReadError}

/-- Nothing behind the first fault matters. -/
theorem IsFirstFault.append {header : Except Table.Error (List String)}
    {rows : List (Except Table.Error (List String))} (h : IsFirstFault ⟨header, rows⟩ err)
    (more : List (Except Table.Error (List String))) :
    IsFirstFault ⟨header, rows ++ more⟩ err := by
  cases h with
  | header e rows => exact .header e _
  | column missing rows => exact .column missing _
  | row stands before e rest =>
    rw [List.append_assoc, List.cons_append]
    exact .row stands before e _
  | cell stands before first rest =>
    rw [List.append_assoc, List.cons_append]
    exact .cell stands before first _

/-- A fault in the first rows decides, whatever comes behind them. -/
theorem ofReading_upTo_append (h : ofReading (r.upTo n) = .error err)
    (more : List (Except Table.Error (List String))) :
    ofReading ⟨r.header, r.rows.take n ++ more⟩ = .error err :=
  ofReading_eq_error_iff.mpr ((ofReading_eq_error_iff.mp h).append more)

theorem ofReading_upTo_of_le (h : ofReading (r.upTo k) = .error err) (hk : k ≤ n)
    (more : List (Except Table.Error (List String))) :
    ofReading ⟨r.header, r.rows.take n ++ more⟩ = .error err := by
  have split := List.take_append_drop k (r.rows.take n)
  rw [List.take_take, Nat.min_eq_left hk] at split
  rw [← split, List.append_assoc]
  exact ofReading_upTo_append h _

theorem upTo_length (r : Table.Reading) : r.upTo r.rows.length = r := by
  rw [Table.Reading.upTo, List.take_length]

/-- What is refused for its first rows is refused for one of these lines. -/
theorem exists_decidedAt (h : ofReading (r.upTo n) = .error err) : ∃ k ≤ n, DecidedAt r k err := by
  induction n using Nat.strongRecOn with
  | ind n ih =>
  by_cases before : ∀ j < n, ∃ samples, ofReading (r.upTo j) = .ok samples
  · exact ⟨n, Nat.le_refl n, h, before⟩
  · push Not at before
    obtain ⟨j, hj, notRead⟩ := before
    cases hr : ofReading (r.upTo j) with
    | ok samples => exact absurd hr (notRead samples)
    | error err' =>
      have same := ofReading_upTo_of_le hr (Nat.le_of_lt hj) []
      rw [List.append_nil] at same
      obtain rfl : err' = err := Except.error.inj (same.symm.trans h)
      obtain ⟨k, hk, decided⟩ := ih j hj hr
      exact ⟨k, Nat.le_of_lt (Nat.lt_of_le_of_lt hk hj), decided⟩

/-! ## Cut readings -/

/-- A line that decides still does if the reading is cut behind it. -/
theorem DecidedAt.ofReading_cut (h : DecidedAt r k err) (hk : k ≤ n)
    (more : List (Except Table.Error (List String))) :
    ofReading ⟨r.header, r.rows.take n ++ more⟩ = .error err :=
  ofReading_upTo_of_le h.1 hk more

theorem DecidedAt.ofReading (h : DecidedAt r k err) : ofReading r = .error err := by
  have := ofReading_upTo_append h.1 (r.rows.drop k)
  rwa [List.take_append_drop] at this

/-- Behind lines that do not decide the error at which the reading is cut is told. -/
theorem ofReading_cut_of_not_decidedAt (h : ∀ k ≤ n, ∀ err, ¬ DecidedAt r k err) (e : Table.Error) :
    Capture.ofReading ⟨r.header, r.rows.take n ++ [.error e]⟩ = .error (.table e) := by
  rcases isFirstFault_or_spells (r.upTo n) with
    ⟨err, fault⟩ | ⟨names, l, rows, samples, cut, stands, spells⟩
  · obtain ⟨k, hk, decided⟩ := exists_decidedAt (ofReading_of_isFirstFault fault)
    exact absurd decided (h k hk err)
  · obtain ⟨header, rows'⟩ := r
    obtain ⟨rfl, rows'⟩ := Table.Reading.mk.inj cut
    rw [rows']
    exact ofReading_of_isFirstFault (.row stands (forall_accepts_of_spells spells) e [])

/-! ## Sources that fail -/

/-- The reading of a source that fails is cut behind the lines that end before the failure. -/
theorem reading_of_fault {s : Table.Source} {f : Stream.Fault} (h : s.fault = some f)
    (unmarked : s.first ≠ Table.Scanner.mark) :
    (s.reading = ⟨.error (.source f), []⟩ ∧ ∀ k, ¬ s.GivesLine k) ∨
    ∃ n, s.reading = ⟨s.whole.reading.header,
        s.whole.reading.rows.take n ++ [.error (.source f)]⟩ ∧ ∀ k, k ≤ n ↔ s.GivesLine k := by
  obtain ⟨done, more, records, whole, ended⟩ := Table.Source.records_of_fault h unmarked
  rcases done with _ | ⟨first, rest⟩
  · left
    refine ⟨by rw [Table.Source.reading, records], fun k hk => ?_⟩
    exact absurd ((ended k).mpr hk) (by simp)
  · right
    refine ⟨rest.length, ?_, fun k => ?_⟩
    · rw [Table.Source.reading, Table.Source.reading, records, whole]
      simp
    · rw [← ended, List.length_cons, Nat.lt_succ_iff]

theorem read_of_decidedAt {s : Table.Source} {f : Stream.Fault} (h : s.fault = some f)
    (unmarked : s.first ≠ Table.Scanner.mark) (decided : DecidedAt s.whole.reading k err)
    (given : s.GivesLine k) : read s = .error err := by
  rw [read_eq_ofReading]
  rcases reading_of_fault h unmarked with ⟨-, none⟩ | ⟨n, reading, lines⟩
  · exact absurd given (none k)
  · rw [reading]
    exact decided.ofReading_cut ((lines k).mpr given) _

theorem read_of_not_decidedAt {s : Table.Source} {f : Stream.Fault} (h : s.fault = some f)
    (unmarked : s.first ≠ Table.Scanner.mark)
    (undecided : ∀ k, s.GivesLine k → ∀ err, ¬ DecidedAt s.whole.reading k err) :
    read s = .error (.table (.source f)) := by
  rw [read_eq_ofReading]
  rcases reading_of_fault h unmarked with ⟨reading, -⟩ | ⟨n, reading, lines⟩
  · rw [reading]
    rfl
  · rw [reading]
    exact ofReading_cut_of_not_decidedAt (fun k hk => undecided k ((lines k).mp hk)) _

/-- Behind a first read of the mark and nothing else a table is empty. -/
theorem read_of_first_eq_mark {s : Table.Source} (h : s.first = Table.Scanner.mark) :
    read s = .error (.missingColumn .data) := by
  rw [read, readBy, Table.read, Table.Source.records_of_first_eq_mark h]
  rfl

/-- No capture is read from a source that fails. -/
theorem exists_read_eq_error {s : Table.Source} {f : Stream.Fault} (h : s.fault = some f) :
    ∃ err, read s = .error err := by
  by_cases marked : s.first = Table.Scanner.mark
  · exact ⟨_, read_of_first_eq_mark marked⟩
  by_cases decided : ∃ k, s.GivesLine k ∧ ∃ err, DecidedAt s.whole.reading k err
  · obtain ⟨k, given, err, decided⟩ := decided
    exact ⟨err, read_of_decidedAt h marked decided given⟩
  · refine ⟨_, read_of_not_decidedAt h marked fun k given err decided' => decided ?_⟩
    exact ⟨k, given, err, decided'⟩

/-- Without the mark in front only the bytes and the failure matter. -/
theorem read_congr {s s' : Table.Source} (given : s.given = s'.given) (fault : s.fault = s'.fault)
    (unmarked : ¬ Table.Scanner.mark <+: s.given) : read s = read s' := by
  have unmarked' : ¬ Table.Scanner.mark <+: s'.given := given ▸ unmarked
  have first : s.first ≠ Table.Scanner.mark := fun marked => unmarked (marked ▸ s.first_prefix)
  have first' : s'.first ≠ Table.Scanner.mark := fun marked => unmarked' (marked ▸ s'.first_prefix)
  have records : s.records = s'.records := by
    rw [Table.Source.records_eq first, Table.Source.records_eq first',
      Table.Source.opening_of_not_mark unmarked, Table.Source.opening_of_not_mark unmarked', given,
      fault]
  rw [read, read, readBy, readBy, Table.read, Table.read, records]

/-- In how large pieces the bytes come makes no difference to a table that is not marked. -/
theorem read_most (s : Table.Source) (most : Option Nat)
    (unmarked : ¬ Table.Scanner.mark <+: s.bytes) : read { s with most := most } = read s := by
  have given : Table.Source.given { s with most := most } = s.given := rfl
  refine read_congr given rfl fun marked => unmarked (marked.trans ?_)
  rw [Table.Source.given_eq_take]
  exact List.take_prefix ..

/-- Every refusal is for one line. -/
theorem read_eq_error_iff {s : Table.Source} :
    read s = .error err ↔ ∃ k, DecidedAt s.reading k err := by
  rw [read_eq_ofReading]
  constructor
  · intro h
    rw [← upTo_length s.reading] at h
    obtain ⟨k, -, decided⟩ := exists_decidedAt h
    exact ⟨k, decided⟩
  · rintro ⟨k, decided⟩
    exact decided.ofReading

/-- **A capture from a source that fails is refused.**  If what ends the line that it would be
refused for without the failure begins before the failure, it still is, and otherwise it is refused
for the failure.  Only if the first read gives the byte order mark and nothing else, the table is
taken to be empty.  Without the mark in front the size of the reads does not matter. -/
theorem read_of_fault (s : Table.Source) :
    (∀ f, s.fault = some f →
      (∀ samples, read s ≠ .ok samples) ∧
      (s.first ≠ Table.Scanner.mark →
        (∀ k err, DecidedAt s.whole.reading k err → s.GivesLine k → read s = .error err) ∧
        ((∀ k, s.GivesLine k → ∀ err, ¬ DecidedAt s.whole.reading k err) →
          read s = .error (.table (.source f))))) ∧
    (∀ err, read s.whole = .error err ↔ ∃ k, DecidedAt s.whole.reading k err) ∧
    (s.first = Table.Scanner.mark → read s = .error (.missingColumn .data)) ∧
    (¬ Table.Scanner.mark <+: s.bytes → ∀ most, read { s with most := most } = read s) := by
  refine ⟨fun f h => ⟨fun samples good => ?_, fun unmarked => ?_⟩, fun err => read_eq_error_iff,
    read_of_first_eq_mark, fun unmarked most => read_most s most unmarked⟩
  · obtain ⟨err, refused⟩ := exists_read_eq_error h
    rw [refused] at good
    contradiction
  · exact ⟨fun k err => read_of_decidedAt h unmarked, read_of_not_decidedAt h unmarked⟩

/-- A capture with a fault in its second row, from a source that fails after the given number of
bytes. -/
def faultyRow (n : Nat) : Table.Source :=
  ⟨Text.encode "data_in;ve_in;control_in;q_out\r\n0;1;0;256\r\n0;2;0;256\r\n1;1;0;511", none,
    some (n, .device .brokenPipe "source broke")⟩

/-- A failure between the two bytes that end the row comes too late to matter. -/
theorem read_faultyRow :
    read (faultyRow 53) = .error (.unreadable 2 .period "2") ∧
    read (faultyRow 52) = .error (.table (.source (.device .brokenPipe "source broke"))) := by
  have header : ofReading ((faultyRow 0).whole.reading.upTo 0) = .ok [] := by decide +kernel
  have good : ofReading ((faultyRow 0).whole.reading.upTo 1) = .ok [⟨0, true, 0, 256⟩] := by
    decide +kernel
  have bad : ofReading ((faultyRow 0).whole.reading.upTo 2)
      = .error (.unreadable 2 .period "2") := by decide +kernel
  have lineEnds : (faultyRow 0).whole.lineEnds = [30, 41, 52] := by decide +kernel
  constructor
  · obtain ⟨-, failing⟩ := (read_of_fault (faultyRow 53)).1 _ rfl
    have decided : DecidedAt (faultyRow 53).whole.reading 2 (.unreadable 2 .period "2") := by
      refine ⟨bad, fun j hj => ?_⟩
      obtain rfl | rfl : j = 0 ∨ j = 1 := by omega
      · exact ⟨_, header⟩
      · exact ⟨_, good⟩
    have given : (faultyRow 53).GivesLine 2 := ⟨52, by decide +kernel, congrArg (·[2]?) lineEnds⟩
    exact (failing (by decide +kernel)).1 2 _ decided given
  · obtain ⟨-, failing⟩ := (read_of_fault (faultyRow 52)).1 _ rfl
    refine (failing (by decide +kernel)).2 ?_
    rintro k ⟨i, hi, hk⟩ err ⟨refused, -⟩
    have given : (faultyRow 52).given.length = 52 := by decide +kernel
    have hk : [30, 41, 52][k]? = some i := lineEnds ▸ hk
    obtain ⟨few, hk⟩ := List.getElem?_eq_some_iff.mp hk
    have few : k < 3 := few
    obtain rfl | rfl | rfl : k = 0 ∨ k = 1 ∨ k = 2 := by omega
    · exact absurd (header.symm.trans refused) (by simp)
    · exact absurd (good.symm.trans refused) (by simp)
    · obtain rfl : 52 = i := hk
      omega

/-- A table behind the byte order mark, from a source that gives the mark and then fails. -/
def cutBehindMark : Table.Source :=
  ⟨Table.Scanner.mark ++ Text.encode "data_in;ve_in;control_in;q_out\n0;1;0;256\n", none,
    some (3, .device .brokenPipe "source broke")⟩

/-- Without the failure the table is good, so no line of it decides.  The failure is met, but not
told. -/
theorem read_cutBehindMark :
    read cutBehindMark.whole = .ok [⟨0, true, 0, 256⟩] ∧
    cutBehindMark.fault = some (.device .brokenPipe "source broke") ∧
    read cutBehindMark = .error (.missingColumn .data) := by
  decide +kernel

end Capture

end LineCode
