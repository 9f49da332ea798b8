import LineCode.Stream.Fault

/-!
# Sources of bytes

A source gives its bytes read by read, each read at most so many.  It may fail once it has given a
certain number of bytes.
-/

namespace LineCode.Table

structure Source where
  bytes : List UInt8
  /-- The most bytes that one read gives; at least one is given. -/
  most : Option Nat := none
  /-- After how many bytes reading fails, and how. -/
  failure : Option (Nat × Stream.Fault) := none

/-- Cuts a list into pieces of `n + 1` elements, the last of which may be shorter. -/
def pieces {α : Type} (n : Nat) (xs : List α) : List (List α) :=
  match xs with
  | [] => []
  | x :: rest => (x :: rest.take n) :: pieces n (rest.drop n)
termination_by xs.length

/-- The pieces make up the list. -/
@[simp] theorem flatten_pieces {α : Type} (n : Nat) (xs : List α) :
    (pieces n xs).flatten = xs := by
  fun_induction pieces n xs with
  | case1 => rfl
  | case2 x rest ih => simp [ih]

namespace Source

/-- The bytes that are given before a failure. -/
def given (s : Source) : List UInt8 :=
  match s.failure with
  | none => s.bytes
  | some (n, _) => s.bytes.take n

/-- How reading fails, if it does: a failure that lies past the last byte is never met. -/
def fault (s : Source) : Option Stream.Fault :=
  match s.failure with
  | none => none
  | some (n, f) => if n ≤ s.bytes.length then some f else none

/-- What the reads give, one after another. -/
def reads (s : Source) : List (List UInt8) :=
  match s.most with
  | none => [s.given]
  | some n => pieces (n - 1) s.given

@[simp] theorem flatten_reads (s : Source) : s.reads.flatten = s.given := by
  unfold reads
  split <;> simp

end Source

end LineCode.Table
