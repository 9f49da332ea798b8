import Mathlib.Data.List.Forall2
import Mathlib.Data.Nat.Digits.Defs
import LineCode.Capture.Number

/-!
# The syntax of numbers

What a text has to look like to be a number, and which number it is: one of the words for yes and
no, or a mark that names the base, a sign and digits, with another minus sign in front or not.
Reading accepts exactly these texts, as long as the number behind the first minus sign fits 64 bits.
-/

namespace LineCode.Capture.Number

/-! ## Definitions -/

/-- The digits in the order of their values, with small letters. -/
def smallDigits : List Char :=
  ['0', '1', '2', '3', '4', '5', '6', '7', '8', '9', 'a', 'b', 'c', 'd', 'e', 'f']

/-- The digits in the order of their values, with capital letters. -/
def capitalDigits : List Char :=
  ['0', '1', '2', '3', '4', '5', '6', '7', '8', '9', 'A', 'B', 'C', 'D', 'E', 'F']

/-- The character is the digit of this value. -/
def IsDigit (base : Nat) (c : Char) (d : Nat) : Prop :=
  d < base ∧ (smallDigits[d]? = some c ∨ capitalDigits[d]? = some c)

/-- One or more digits, the highest first. -/
def IsNatural (base : Nat) (cs : List Char) (n : Nat) : Prop :=
  cs ≠ [] ∧ ∃ ds, List.Forall₂ (IsDigit base) cs ds ∧ n = Nat.ofDigits base ds.reverse

/-- What may stand in front of digits, and the factor that it stands for. -/
def signs : List (List Char × Int) :=
  [([], 1), (['+'], 1), (['-'], -1)]

/-- Digits behind at most one sign. -/
def IsSigned (base : Nat) (cs : List Char) (m : Int) : Prop :=
  ∃ sign ∈ signs, ∃ digits n, cs = sign.1 ++ digits ∧ IsNatural base digits n ∧ m = sign.2 * n

/-- What may stand in front of signed digits, and the base that it names. -/
def marks : List (List Char × Nat) :=
  [(['0', 'x'], 16), (['0', 'b'], 2), ([], 10)]

/-- Signed digits behind the mark of their base. -/
def IsBody (cs : List Char) (m : Int) : Prop :=
  ∃ mark ∈ marks, ∃ rest, cs = mark.1 ++ rest ∧ IsSigned mark.2 rest m

/-- What is left without a minus sign at the beginning. -/
def unsigned (cs : List Char) : List Char :=
  if cs.head? = some '-' then cs.tail else cs

/-- Behind a minus sign stands the least number of 64 bits, the negative of which does not fit. -/
def NegatesLeast (cs : List Char) : Prop :=
  cs.head? = some '-' ∧ IsBody cs.tail (-0x8000000000000000)

/-! ## Digits -/

theorem eq_ofNat_of_toNat {c : Char} {n : Nat} (h : c.toNat = n) : c = Char.ofNat n := by
  rw [← h, Char.ofNat_toNat]

theorem isDigit_of_digit? {base d : Nat} (hbase : base ≤ 16) {c : Char}
    (h : digit? base c = some d) : IsDigit base c d := by
  obtain ⟨value, hd⟩ := Option.filter_eq_some_iff.mp h
  have hd : d < base := of_decide_eq_true hd
  refine ⟨hd, ?_⟩
  split_ifs at value with decimal small capital
  · have lower : 48 ≤ c.toNat := decimal.1
    have upper : c.toNat ≤ 57 := decimal.2
    have table : ∀ d < 10, smallDigits[d]? = some (Char.ofNat (48 + d)) := by decide
    have hv : c.toNat - 48 = d := Option.some_inj.mp value
    rw [eq_ofNat_of_toNat (c := c) (n := 48 + d) (by omega)]
    exact .inl (table d (by omega))
  · have lower : 97 ≤ c.toNat := small.1
    have table : ∀ d < 16, 10 ≤ d → smallDigits[d]? = some (Char.ofNat (87 + d)) := by decide
    have hv : c.toNat - 97 + 10 = d := Option.some_inj.mp value
    rw [eq_ofNat_of_toNat (c := c) (n := 87 + d) (by omega)]
    exact .inl (table d (by omega) (by omega))
  · have lower : 65 ≤ c.toNat := capital.1
    have table : ∀ d < 16, 10 ≤ d → capitalDigits[d]? = some (Char.ofNat (55 + d)) := by decide
    have hv : c.toNat - 65 + 10 = d := Option.some_inj.mp value
    rw [eq_ofNat_of_toNat (c := c) (n := 55 + d) (by omega)]
    exact .inr (table d (by omega) (by omega))

theorem digit?_of_isDigit {base d : Nat} (hbase : base ≤ 16) {c : Char} (h : IsDigit base c d) :
    digit? base c = some d := by
  obtain ⟨hd, listed⟩ := h
  have small : ∀ d < 16, smallDigits[d]?.bind (digit? 16) = some d := by decide
  have capital : ∀ d < 16, capitalDigits[d]?.bind (digit? 16) = some d := by decide
  have value : digit? 16 c = some d := by
    obtain listed | listed := listed
    · have := small d (by omega)
      rwa [listed] at this
    · have := capital d (by omega)
      rwa [listed] at this
  -- the base only bounds the value
  obtain ⟨value, -⟩ := Option.filter_eq_some_iff.mp value
  exact Option.filter_eq_some_iff.mpr ⟨value, decide_eq_true hd⟩

theorem digit?_eq_some_iff {base : Nat} (hbase : base ≤ 16) {c : Char} {d : Nat} :
    digit? base c = some d ↔ IsDigit base c d :=
  ⟨isDigit_of_digit? hbase, digit?_of_isDigit hbase⟩

theorem digits?_eq_some_iff {base : Nat} (hbase : base ≤ 16) {before n : Nat} {cs : List Char} :
    digits? base before cs = some n ↔
      ∃ ds, List.Forall₂ (IsDigit base) cs ds ∧
        n = before * base ^ ds.length + Nat.ofDigits base ds.reverse := by
  induction cs generalizing before with
  | nil => simp [digits?, eq_comm]
  | cons c cs ih =>
    -- a digit read moves into what comes before
    have shift (d : Nat) (ds : List Nat) :
        (before * base + d) * base ^ ds.length + Nat.ofDigits base ds.reverse
          = before * base ^ (d :: ds).length + Nat.ofDigits base (d :: ds).reverse := by
      rw [Nat.ofDigits_reverse_cons, List.length_cons, Nat.pow_succ]
      ring
    rw [digits?, Option.bind_eq_some_iff]
    constructor
    · rintro ⟨d, hd, h⟩
      obtain ⟨ds, digits, rfl⟩ := ih.mp h
      exact ⟨d :: ds, .cons ((digit?_eq_some_iff hbase).mp hd) digits, shift d ds⟩
    · rintro ⟨_, all, rfl⟩
      obtain ⟨d, ds, hd, digits, rfl⟩ := List.forall₂_cons_left_iff.mp all
      exact ⟨d, (digit?_eq_some_iff hbase).mpr hd, ih.mpr ⟨ds, digits, (shift d ds).symm⟩⟩

theorem natural?_eq_some_iff {base : Nat} (hbase : base ≤ 16) {cs : List Char} {n : Nat} :
    natural? base cs = some n ↔ IsNatural base cs n := by
  rw [natural?, IsNatural]
  split
  · rename_i empty
    exact iff_of_false nofun fun h => h.1 empty
  · rename_i nonempty
    rw [digits?_eq_some_iff hbase]
    simp [nonempty]

/-! ## Signs and marks -/

theorem IsNatural.exists_isDigit {base n : Nat} {cs : List Char} (h : IsNatural base cs n) :
    ∀ c ∈ cs, ∃ d, IsDigit base c d := by
  obtain ⟨-, ds, digits, -⟩ := h
  induction digits with
  | nil => simp
  | cons hd _ ih => exact List.forall_mem_cons.mpr ⟨⟨_, hd⟩, ih⟩

theorem not_isDigit_sign {base d : Nat} {c : Char} (hc : c = '+' ∨ c = '-') :
    ¬ IsDigit base c d := by
  have small : '+' ∉ smallDigits ∧ '-' ∉ smallDigits := by decide
  have capital : '+' ∉ capitalDigits ∧ '-' ∉ capitalDigits := by decide
  rintro ⟨-, listed | listed⟩
  · have := List.mem_of_getElem? listed
    rcases hc with rfl | rfl
    · exact small.1 this
    · exact small.2 this
  · have := List.mem_of_getElem? listed
    rcases hc with rfl | rfl
    · exact capital.1 this
    · exact capital.2 this

/-- The letter of a mark is no decimal digit. -/
theorem not_isDigit_mark {d : Nat} {c : Char} (hc : c = 'x' ∨ c = 'b') : ¬ IsDigit 10 c d := by
  have table : ∀ d < 10, (smallDigits[d]? ≠ some 'x' ∧ smallDigits[d]? ≠ some 'b') ∧
      capitalDigits[d]? ≠ some 'x' ∧ capitalDigits[d]? ≠ some 'b' := by decide
  rintro ⟨hd, listed⟩
  obtain ⟨small, capital⟩ := table d hd
  rcases hc with rfl | rfl
  · exact listed.elim small.1 capital.1
  · exact listed.elim small.2 capital.2

theorem isSigned_iff {base : Nat} {cs : List Char} {m : Int} :
    IsSigned base cs m ↔ (∃ n : Nat, IsNatural base cs n ∧ m = n) ∨
      (∃ digits, ∃ n : Nat, cs = '+' :: digits ∧ IsNatural base digits n ∧ m = n) ∨
      ∃ digits, ∃ n : Nat, cs = '-' :: digits ∧ IsNatural base digits n ∧ m = -n := by
  simp [IsSigned, signs]

theorem isBody_iff {cs : List Char} {m : Int} :
    IsBody cs m ↔ (∃ rest, cs = '0' :: 'x' :: rest ∧ IsSigned 16 rest m) ∨
      (∃ rest, cs = '0' :: 'b' :: rest ∧ IsSigned 2 rest m) ∨ IsSigned 10 cs m := by
  simp [IsBody, marks]

/-- A sign is the first character, and all others are digits. -/
theorem IsSigned.exists_isDigit_of_mem_tail {base : Nat} {cs : List Char} {m : Int}
    (h : IsSigned base cs m) : ∀ c ∈ cs.tail, ∃ d, IsDigit base c d := by
  obtain ⟨n, digits, -⟩ | ⟨digits, n, rfl, all, -⟩ | ⟨digits, n, rfl, all, -⟩ := isSigned_iff.mp h
  · exact fun c hc => digits.exists_isDigit c (List.mem_of_mem_tail hc)
  · exact all.exists_isDigit
  · exact all.exists_isDigit

theorem not_isNatural_sign {base n : Nat} {c : Char} {cs : List Char} (hc : c = '+' ∨ c = '-') :
    ¬ IsNatural base (c :: cs) n := by
  intro h
  obtain ⟨d, hd⟩ := h.exists_isDigit c List.mem_cons_self
  exact not_isDigit_sign hc hd

theorem not_isSigned_mark {m : Int} {c : Char} {rest : List Char} (hc : c = 'x' ∨ c = 'b') :
    ¬ IsSigned 10 ('0' :: c :: rest) m := by
  intro h
  obtain ⟨d, hd⟩ := h.exists_isDigit_of_mem_tail c List.mem_cons_self
  exact not_isDigit_mark hc hd

theorem signed?_eq_some_iff {base : Nat} (hbase : base ≤ 16) {cs : List Char} {m : Int} :
    signed? base cs = some m ↔ IsSigned base cs m := by
  rw [isSigned_iff, signed?.eq_def]
  split
  · simp [natural?_eq_some_iff hbase, not_isNatural_sign, eq_comm]
  · simp [natural?_eq_some_iff hbase, not_isNatural_sign, eq_comm]
  · rename_i notPlus notMinus
    have plus : ∀ digits, cs ≠ '+' :: digits := notPlus
    have minus : ∀ digits, cs ≠ '-' :: digits := notMinus
    simp [natural?_eq_some_iff hbase, plus, minus, eq_comm]

/-- The number behind a mark, of any size. -/
def value? (cs : List Char) : Option Int :=
  match cs with
  | '0' :: 'x' :: rest => signed? 16 rest
  | '0' :: 'b' :: rest => signed? 2 rest
  | cs => signed? 10 cs

theorem value?_eq_some_iff {cs : List Char} {m : Int} : value? cs = some m ↔ IsBody cs m := by
  rw [isBody_iff, value?.eq_def]
  split
  · simp [signed?_eq_some_iff, not_isSigned_mark]
  · simp [signed?_eq_some_iff, not_isSigned_mark]
  · rename_i notX notB
    have hexadecimal : ∀ rest, cs ≠ '0' :: 'x' :: rest := notX
    have binary : ∀ rest, cs ≠ '0' :: 'b' :: rest := notB
    simp [signed?_eq_some_iff, hexadecimal, binary]

theorem word64?_eq_some_iff {n : Int} {w : Int64} : word64? n = some w ↔ n = w.toInt := by
  rw [word64?, Option.ite_none_right_eq_some, Option.some_inj]
  constructor
  · rintro ⟨⟨lower, upper⟩, rfl⟩
    exact (Int64.toInt_ofInt_of_le lower upper).symm
  · rintro rfl
    exact ⟨⟨w.le_toInt, w.toInt_lt⟩, Int64.ofInt_toInt w⟩

theorem body?_eq_bind (cs : List Char) : body? cs = (value? cs).bind word64? :=
  rfl

theorem body?_eq_some_iff {cs : List Char} {w : Int64} :
    body? cs = some w ↔ IsBody cs w.toInt := by
  rw [body?_eq_bind, Option.bind_eq_some_iff, ← value?_eq_some_iff]
  simp only [word64?_eq_some_iff, exists_eq_right]

/-- Two texts of one number are both read or both refused. -/
theorem body?_congr {cs cs' : List Char} {m : Int} (h : IsBody cs m) (h' : IsBody cs' m) :
    body? cs = body? cs' := by
  rw [body?_eq_bind, body?_eq_bind, value?_eq_some_iff.mpr h, value?_eq_some_iff.mpr h']

/-! ## Whole texts -/

theorem ofChars?_minus (cs : List Char) :
    ofChars? ('-' :: cs) = (body? cs).map fun w => (-w).toInt := by
  rw [ofChars?, if_neg (by simp), if_neg (by simp)]

theorem ofChars?_eq_body? {cs : List Char} (yes : cs ≠ ['t', 'r', 'u', 'e'])
    (no : cs ≠ ['f', 'a', 'l', 's', 'e']) (plain : cs.head? ≠ some '-') :
    ofChars? cs = (body? cs).map Int64.toInt := by
  rw [ofChars?, if_neg yes, if_neg no]
  rintro rest rfl
  exact plain rfl

/-- The words are no digits. -/
theorem IsBody.not_word {cs : List Char} {m : Int} (h : IsBody cs m) :
    cs ≠ ['t', 'r', 'u', 'e'] ∧ cs ≠ ['f', 'a', 'l', 's', 'e'] := by
  have yes : value? ['t', 'r', 'u', 'e'] = none := by decide
  have no : value? ['f', 'a', 'l', 's', 'e'] = none := by decide
  have read := value?_eq_some_iff.mpr h
  constructor
  · rintro rfl
    rw [yes] at read
    contradiction
  · rintro rfl
    rw [no] at read
    contradiction

theorem IsBody.ofChars? {cs : List Char} {m : Int} (h : IsBody cs m) (plain : cs.head? ≠ some '-') :
    ofChars? cs = (body? cs).map Int64.toInt :=
  ofChars?_eq_body? h.not_word.1 h.not_word.2 plain

theorem ofChars?_eq_some_iff {cs : List Char} {n : Int} :
    ofChars? cs = some n ↔
      cs = ['t', 'r', 'u', 'e'] ∧ n = 1 ∨ cs = ['f', 'a', 'l', 's', 'e'] ∧ n = 0 ∨
      ∃ w : Int64, IsBody (unsigned cs) w.toInt ∧
        n = (if cs.head? = some '-' then -w else w).toInt := by
  by_cases minus : cs.head? = some '-'
  · obtain ⟨rest, rfl⟩ := List.head?_eq_some_iff.mp minus
    have words : ('-' :: rest) ≠ ['t', 'r', 'u', 'e'] ∧
        ('-' :: rest) ≠ ['f', 'a', 'l', 's', 'e'] := by
      simp
    simp only [ofChars?_minus, Option.map_eq_some_iff, body?_eq_some_iff, unsigned, minus, words.1,
      words.2, if_true, List.tail_cons, false_and, false_or]
    exact exists_congr fun w => and_congr_right fun _ => eq_comm
  · simp only [unsigned, if_neg minus]
    by_cases yes : cs = ['t', 'r', 'u', 'e']
    · have spelled (m : Int) : ¬ IsBody cs m := fun h => h.not_word.1 yes
      have read : ofChars? cs = some 1 := by rw [yes]; rfl
      simp only [spelled, read, false_and, exists_false, or_false]
      simp [yes, eq_comm]
    by_cases no : cs = ['f', 'a', 'l', 's', 'e']
    · have spelled (m : Int) : ¬ IsBody cs m := fun h => h.not_word.2 no
      have read : ofChars? cs = some 0 := by rw [no]; rfl
      simp only [spelled, read, false_and, exists_false, or_false]
      simp [no, eq_comm]
    · rw [ofChars?_eq_body? yes no minus, Option.map_eq_some_iff]
      simp only [body?_eq_some_iff, yes, no, false_and, false_or]
      exact exists_congr fun w => and_congr_right fun _ => eq_comm

/-- An overflow is the least word behind a minus sign. -/
theorem overflows_iff {cs : List Char} : overflows cs ↔ NegatesLeast cs := by
  rw [NegatesLeast, overflows.eq_def]
  split
  · simp [body?_eq_some_iff]
  · rename_i plain
    refine iff_of_false Bool.false_ne_true fun h => ?_
    obtain ⟨rest, rfl⟩ := List.head?_eq_some_iff.mp h.1
    exact plain rest rfl

/-- The least word is the negative of itself. -/
theorem NegatesLeast.ofChars? {cs : List Char} (h : NegatesLeast cs) :
    ofChars? cs = some (-0x8000000000000000) := by
  obtain ⟨minus, least⟩ := h
  obtain ⟨rest, rfl⟩ := List.head?_eq_some_iff.mp minus
  have read : body? rest = some Int64.minValue := body?_eq_some_iff.mpr least
  rw [ofChars?_minus, read]
  rfl

/-! ## Digits of the same number -/

/-- A mark and a sign stand in front of digits. -/
theorem isBody_append {mark : List Char × Nat} {sign : List Char × Int} {digits : List Char}
    {n : Nat} (hmark : mark ∈ marks) (hsign : sign ∈ signs) (h : IsNatural mark.2 digits n) :
    IsBody (mark.1 ++ (sign.1 ++ digits)) (sign.2 * n) :=
  ⟨mark, hmark, _, rfl, sign, hsign, digits, n, rfl, h, rfl⟩

/-- Only a minus sign without a mark begins with a minus sign. -/
theorem head?_append_cases {mark : List Char × Nat} {sign : List Char × Int} (hmark : mark ∈ marks)
    (hsign : sign ∈ signs) :
    mark = ([], 10) ∧ sign = (['-'], -1) ∨
    ∀ (digits : List Char) (n : Nat), IsNatural mark.2 digits n →
      (mark.1 ++ (sign.1 ++ digits)).head? ≠ some '-' := by
  simp only [marks, signs, List.mem_cons, List.not_mem_nil, or_false] at hmark hsign
  rcases hmark with rfl | rfl | rfl
  · exact .inr fun _ _ _ => by simp
  · exact .inr fun _ _ _ => by simp
  rcases hsign with rfl | rfl | rfl
  · refine .inr fun digits n h first => ?_
    obtain ⟨rest, rfl⟩ := List.head?_eq_some_iff.mp first
    exact not_isNatural_sign (.inr rfl) h
  · exact .inr fun _ _ _ => by simp
  · exact .inl ⟨rfl, rfl⟩

/-- Whatever stands in front, digits count by their number alone. -/
theorem ofChars?_append_congr {outer : List Char} {mark : List Char × Nat} {sign : List Char × Int}
    {digits digits' : List Char} {n : Nat} (houter : outer ∈ [[], ['-']]) (hmark : mark ∈ marks)
    (hsign : sign ∈ signs) (h : IsNatural mark.2 digits n) (h' : IsNatural mark.2 digits' n) :
    ofChars? (outer ++ (mark.1 ++ (sign.1 ++ digits)))
      = ofChars? (outer ++ (mark.1 ++ (sign.1 ++ digits'))) := by
  have spelled := isBody_append hmark hsign h
  have spelled' := isBody_append hmark hsign h'
  simp only [List.mem_cons, List.not_mem_nil, or_false] at houter
  rcases houter with rfl | rfl
  · obtain ⟨rfl, rfl⟩ | plain := head?_append_cases hmark hsign
    · -- the sign is the one that stands in front of everything
      have unsigned : ([], 1) ∈ signs := by decide
      show ofChars? ('-' :: digits) = ofChars? ('-' :: digits')
      rw [ofChars?_minus, ofChars?_minus]
      exact congrArg _
        (body?_congr (isBody_append hmark unsigned h) (isBody_append hmark unsigned h'))
    · rw [List.nil_append, List.nil_append, spelled.ofChars? (plain digits n h),
        spelled'.ofChars? (plain digits' n h'), body?_congr spelled spelled']
  · rw [List.singleton_append, List.singleton_append, ofChars?_minus, ofChars?_minus,
      body?_congr spelled spelled']

theorem isDigit_zero {base : Nat} (hbase : 0 < base) : IsDigit base '0' 0 :=
  ⟨hbase, .inl rfl⟩

theorem IsNatural.zeros {base n : Nat} {digits : List Char} (h : IsNatural base digits n)
    (hbase : 0 < base) (k : Nat) : IsNatural base (List.replicate k '0' ++ digits) n := by
  obtain ⟨nonempty, ds, all, rfl⟩ := h
  refine ⟨by simp [nonempty], List.replicate k 0 ++ ds, ?_, ?_⟩
  · induction k with
    | zero => exact all
    | succ k ih => exact .cons (isDigit_zero hbase) ih
  · rw [List.reverse_append, List.reverse_replicate, Nat.ofDigits_append_replicate_zero]

/-! ## Main statement -/

/-- **Exactly these texts are numbers.**  A text is one if it is a word for yes or no, or if it is,
without a minus sign at its beginning, a mark, a sign and digits of a number that fits 64 bits; a
minus sign at the beginning makes it the negative.  Zeros in front of the digits change nothing, and
the least number of 64 bits cannot be written with its minus sign in front. -/
theorem ofText?_accepts :
    (∀ text : String, ¬ NegatesLeast text.toList → ∀ n : Int,
      ofText? text = some n ↔ text = "true" ∧ n = 1 ∨ text = "false" ∧ n = 0 ∨
        ∃ w : Int64, IsBody (unsigned text.toList) w.toInt ∧
          n = (if text.toList.head? = some '-' then -w else w).toInt) ∧
    (∀ outer ∈ [[], ['-']], ∀ mark ∈ marks, ∀ sign ∈ signs, ∀ (digits : List Char) (n : Nat),
      IsNatural mark.2 digits n → ∀ k,
        ofChars? (outer ++ (mark.1 ++ (sign.1 ++ (List.replicate k '0' ++ digits))))
          = ofChars? (outer ++ (mark.1 ++ (sign.1 ++ digits)))) ∧
    ofText? "-9223372036854775808" = none := by
  refine ⟨?_, ?_, by decide +kernel⟩
  · intro text _ n
    have yes : text = "true" ↔ text.toList = ['t', 'r', 'u', 'e'] := String.toList_inj.symm
    have no : text = "false" ↔ text.toList = ['f', 'a', 'l', 's', 'e'] := String.toList_inj.symm
    rw [ofText?, ofChars?_eq_some_iff, yes, no]
  · intro outer houter mark hmark sign hsign digits n h k
    have hbase : ∀ mark ∈ marks, 0 < mark.2 := by decide
    exact ofChars?_append_congr houter hmark hsign (h.zeros (hbase mark hmark) k) h

/-- A minus sign in front of the mark, and behind the mark a plus sign, zeros and digits of both
cases. -/
theorem ofText?_accepts_signed_hexadecimal :
    ¬ NegatesLeast "-0x+00fF".toList ∧ ofText? "-0x+00fF" = some (-255) ∧
    IsNatural 16 ['f', 'F'] 255 ∧
    ofChars? ['-', '0', 'x', '+', '0', '0', 'f', 'F']
      = ofChars? ['-', '0', 'x', '+', 'f', 'F'] := by
  have spelled : IsBody ['0', 'x', '+', '0', '0', 'f', 'F'] 255 :=
    value?_eq_some_iff.mp (by decide +kernel)
  have fits : ¬ NegatesLeast "-0x+00fF".toList := by
    rintro ⟨-, least⟩
    have := value?_eq_some_iff.mpr least
    rw [show value? "-0x+00fF".toList.tail = some 255 from value?_eq_some_iff.mpr spelled] at this
    contradiction
  have digits : IsNatural 16 ['f', 'F'] 255 :=
    (natural?_eq_some_iff (by decide)).mp (by decide +kernel)
  obtain ⟨accepts, zeros, -⟩ := ofText?_accepts
  refine ⟨fits, ?_, digits, ?_⟩
  · exact (accepts _ fits (-255)).mpr (.inr (.inr ⟨255, spelled, by decide +kernel⟩))
  · exact zeros ['-'] (by decide) (['0', 'x'], 16) (by decide) (['+'], 1) (by decide) _ _ digits 2

end LineCode.Capture.Number
