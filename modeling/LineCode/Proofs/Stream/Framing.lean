import LineCode.Symbol

/-!
# Framing

A stream of bytes is read two at a time.  What the complete pairs spell and the byte that is left
over say all about the bytes so far: more bytes continue from the one left over.
-/

namespace LineCode.Stream

/-- The values that the complete pairs of a list of bytes spell. -/
def pairs : List UInt8 → List Nat
  | high :: low :: rest => Symbol.pairValue high low :: pairs rest
  | _ => []

/-- The byte that is left over. -/
def leftover : List UInt8 → Option UInt8
  | [] => none
  | [half] => some half
  | _ :: _ :: rest => leftover rest

@[simp] theorem pairs_nil : pairs [] = [] := rfl

@[simp] theorem pairs_singleton (b : UInt8) : pairs [b] = [] := rfl

@[simp] theorem pairs_cons_cons (high low : UInt8) (rest : List UInt8) :
    pairs (high :: low :: rest) = Symbol.pairValue high low :: pairs rest := rfl

@[simp] theorem leftover_nil : leftover [] = none := rfl

@[simp] theorem leftover_singleton (b : UInt8) : leftover [b] = some b := rfl

@[simp] theorem leftover_cons_cons (high low : UInt8) (rest : List UInt8) :
    leftover (high :: low :: rest) = leftover rest := rfl

theorem pairs_append (as bs : List UInt8) :
    pairs (as ++ bs) = pairs as ++ pairs ((leftover as).toList ++ bs) := by
  fun_induction pairs as with
  | case1 high low rest ih => simp [ih]
  | case2 as short =>
    match as, short with
    | [], _ => rfl
    | [half], _ => rfl
    | high :: low :: rest, short => exact absurd rfl (short high low rest)

theorem leftover_append (as bs : List UInt8) :
    leftover (as ++ bs) = leftover ((leftover as).toList ++ bs) := by
  fun_induction leftover as with
  | case1 => rfl
  | case2 half => rfl
  | case3 high low rest ih => exact ih

theorem pairs_flatMap_bytes (ss : List Symbol) :
    pairs (ss.flatMap Symbol.bytes) = ss.map Symbol.toNat := by
  induction ss with
  | nil => rfl
  | cons s ss ih =>
    rw [List.flatMap_cons, Symbol.bytes, List.cons_append, List.cons_append, List.nil_append,
      pairs_cons_cons, Symbol.pairValue_bytes, ih, List.map_cons]

theorem leftover_flatMap_bytes (ss : List Symbol) : leftover (ss.flatMap Symbol.bytes) = none := by
  induction ss with
  | nil => rfl
  | cons s ss ih => exact ih

theorem length_flatMap_bytes (ss : List Symbol) :
    (ss.flatMap Symbol.bytes).length = 2 * ss.length := by
  induction ss with
  | nil => rfl
  | cons s ss ih =>
    rw [List.flatMap_cons, List.length_append, ih, Symbol.bytes, List.length_cons,
      List.length_singleton, List.length_cons]
    omega

end LineCode.Stream
