/-!
# Numbers in captures

A number is written in decimal, in hexadecimal after `0x` or in binary after `0b`, or as one of the
words for yes and no.  A minus sign may stand in front of all that, and the digits may have one more
sign of their own.  The first minus sign negates a word of 64 bits, which overflows for the least of
them.
-/

namespace LineCode.Capture.Number

/-- The value of a digit in the given base, letters of either case counting on from ten. -/
def digit? (base : Nat) (c : Char) : Option Nat :=
  let value :=
    if '0' ≤ c ∧ c ≤ '9' then some (c.toNat - '0'.toNat)
    else if 'a' ≤ c ∧ c ≤ 'z' then some (c.toNat - 'a'.toNat + 10)
    else if 'A' ≤ c ∧ c ≤ 'Z' then some (c.toNat - 'A'.toNat + 10)
    else none
  value.filter (· < base)

/-- The number that digits spell, read on from what comes before them. -/
def digits? (base : Nat) (before : Nat) : List Char → Option Nat
  | [] => some before
  | c :: cs => (digit? base c).bind fun d => digits? base (before * base + d) cs

/-- The number that one or more digits spell. -/
def natural? (base : Nat) (cs : List Char) : Option Nat :=
  if cs = [] then none else digits? base 0 cs

/-- The number that digits with an optional sign spell. -/
def signed? (base : Nat) : List Char → Option Int
  | '+' :: cs => (natural? base cs).map Int.ofNat
  | '-' :: cs => (natural? base cs).map fun n => - Int.ofNat n
  | cs => (natural? base cs).map Int.ofNat

/-- A number as a word of 64 bits, if it fits. -/
def word64? (n : Int) : Option Int64 :=
  if -0x8000000000000000 ≤ n ∧ n < 0x8000000000000000 then some (Int64.ofInt n) else none

/-- A word of 64 bits, in the base that its first characters name. -/
def body? (cs : List Char) : Option Int64 :=
  let value :=
    match cs with
    | '0' :: 'x' :: rest => signed? 16 rest
    | '0' :: 'b' :: rest => signed? 2 rest
    | cs => signed? 10 cs
  value.bind word64?

/-- The number that characters spell.  The negative of the least word wraps around to that word. -/
def ofChars? (cs : List Char) : Option Int :=
  if cs = ['t', 'r', 'u', 'e'] then some 1
  else if cs = ['f', 'a', 'l', 's', 'e'] then some 0
  else
    match cs with
    | '-' :: rest => (body? rest).map fun w => (-w).toInt
    | cs => (body? cs).map Int64.toInt

/-- Whether a minus sign stands in front of the least word, the negative of which does not fit. -/
def overflows : List Char → Bool
  | '-' :: rest => body? rest = some Int64.minValue
  | _ => false

/-- The number that a text spells. -/
def ofText? (s : String) : Option Int :=
  ofChars? s.toList

end LineCode.Capture.Number
