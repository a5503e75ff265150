import Haptics.Binary64
import Haptics.Decimal

/-! Numbers as they are written in JSON. A whole number that fits into 64 bits is kept as it is; any
other number is a double, and one too large for a double has no value. -/

namespace Haptics.Json

inductive Number where
  /-- From `-2 ^ 63` to `2 ^ 64 - 1`. -/
  | int (value : Int)
  | float (value : Binary64)
  deriving DecidableEq, Repr

namespace Number

/-- A whole number within 64 bits; one beyond them becomes the last one on its side. -/
def clamp (i : Int) : Int64 :=
  Int64.ofInt (max Int64.minValue.toInt (min i Int64.maxValue.toInt))

/-- The number as one of 64 bits, if it is held as a whole number and is one. -/
def int64? : Number → Option Int64
  | .int i =>
    if Int64.minValue.toInt ≤ i ∧ i ≤ Int64.maxValue.toInt then some (Int64.ofInt i) else none
  | .float _ => none

/-- The number as a double. A whole number is rounded to the nearest; none of those that are held is
too large for one. -/
def double : Number → Binary64
  | .int i => ⟨i < 0, .nearest i.natAbs 1⟩
  | .float x => x

/-- The number as one of 64 bits. What is not one already is made a double first, and that is cut
off toward zero and held within the range. -/
def truncate (n : Number) : Int64 := n.int64?.getD (clamp n.double.truncate)

theorem truncate_float (x : Binary64) : (Number.float x).truncate = clamp x.truncate := rfl

/-- The double next to a whole number beyond the range is beyond it on the same side. -/
theorem clamp_double {i : Int} (h : i < Int64.minValue.toInt ∨ Int64.maxValue.toInt < i) :
    clamp (Number.int i).double.truncate = clamp i := by
  have hlarge : 2 ^ 63 ≤ i.natAbs := by
    rw [Int64.toInt_minValue, Int64.toInt_maxValue] at h
    omega
  obtain ⟨k, hk⟩ := Nat.exists_eq_add_of_le ((Nat.le_log2 (by omega)).mpr hlarge)
  have hlog : i.natAbs.log2 = 52 + (11 + k) := hk.trans (Nat.add_assoc 52 11 k)
  have hfloor : 2 ^ 63 ≤ (Dyadic.nearest i.natAbs 1).floor :=
    Nat.le_trans (Nat.pow_le_pow_right (by decide) (by omega)) (Dyadic.le_floor_nearest hlog)
  simp only [clamp, double, Binary64.truncate, decide_eq_true_eq, Int64.toInt_minValue,
    Int64.toInt_maxValue] at h ⊢
  congr 1
  split <;> omega

/-- Rounding makes no difference to a whole number: it is held within the range, and that is all. -/
theorem truncate_int (i : Int) : (Number.int i).truncate = clamp i := by
  by_cases h : Int64.minValue.toInt ≤ i ∧ i ≤ Int64.maxValue.toInt
  · rw [clamp, Int.min_eq_left h.2, Int.max_eq_right h.1, truncate, int64?, if_pos h]
    rfl
  · rw [truncate, int64?, if_neg h]
    exact clamp_double (by omega)

end Number

/-- The parts of a written number. -/
structure Numeral where
  negative : Bool
  whole : List Char
  fraction : List Char := []
  /-- Sign and digits of the exponent. -/
  exponent : Option (Bool × List Char) := none
  deriving DecidableEq, Repr

namespace Numeral

/-- Splits off the digits at the start; there has to be one. -/
def digits? (cs : List Char) : Option (List Char × List Char) :=
  let ds := cs.takeWhile Char.isDigit
  if ds.isEmpty then none else some (ds, cs.dropWhile Char.isDigit)

/-- The exponent, up to the end of the text. -/
def exponent? : List Char → Option (Option (Bool × List Char))
  | [] => some none
  | c :: cs => do
    guard (c = 'e' ∨ c = 'E')
    let (negative, cs) := match cs with
      | '+' :: cs => (false, cs)
      | '-' :: cs => (true, cs)
      | cs => (false, cs)
    let (ds, cs) ← digits? cs
    guard cs.isEmpty
    return some (negative, ds)

/-- No leading zeros, and digits on both sides of a point. -/
def ofChars? (cs : List Char) : Option Numeral := do
  let (negative, cs) := match cs with
    | '-' :: cs => (true, cs)
    | cs => (false, cs)
  let (whole, cs) ← digits? cs
  guard (whole.head? ≠ some '0' ∨ whole.length = 1)
  match cs with
  | '.' :: cs =>
    let (fraction, cs) ← digits? cs
    return ⟨negative, whole, fraction, ← exponent? cs⟩
  | cs => return ⟨negative, whole, [], ← exponent? cs⟩

/-- Takes up digits as long as the number fits into 64 bits, and says how many it took. -/
def take (n : Nat) : List Char → Nat × Nat
  | [] => (n, 0)
  | c :: cs =>
    let next := 10 * n + (c.toNat - 48)
    if next < UInt64.size then let (m, k) := take next cs; (m, k + 1) else (n, 0)

/-- The number as a double. Digits beyond the first 64 bits only count as places. An exponent that
does not fit into 32 bits is out of range, unless there is nothing to scale or it makes the number
vanish. -/
def float? (n : Numeral) : Option Binary64 := do
  let (significand, taken) := take 0 n.whole
  let (significand, places) := take significand n.fraction
  let shift : Int := (n.whole.length - taken : Nat) - (places : Int)
  let magnitude ← match n.exponent with
    | none => Dyadic.scaled significand shift
    | some (negative, ds) =>
      let e := Decimal.value ds
      if e < Nat.pow 2 31 then Dyadic.scaled significand (if negative then shift - e else shift + e)
      else if significand = 0 ∨ negative then Dyadic.scaled 0 0
      else none
  return ⟨n.negative, magnitude⟩

/-- The number that is meant, if there is one. -/
def number? (n : Numeral) : Option Number :=
  let value := Decimal.value n.whole
  if n.fraction = [] ∧ n.exponent = none then
    if n.negative then
      if 0 < value ∧ value ≤ Nat.pow 2 63 then some (.int (-value)) else n.float?.map .float
    else if value < UInt64.size then some (.int value)
    else n.float?.map .float
  else n.float?.map .float

end Numeral

end Haptics.Json
