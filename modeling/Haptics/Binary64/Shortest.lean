import Haptics.Binary64
import Haptics.Decimal

/-! The shortest decimal that reads back as a given double. Decimals are tried grid by grid, the
coarsest first, so the first that lies among the reals rounding to the double has the fewest
digits. -/

namespace Haptics

namespace Dyadic

/-- `digits * 10 ^ exponent`. -/
structure Shortest where
  digits : Nat
  exponent : Int
  deriving DecidableEq, Repr

/-- The numbers that round to a double lie between these two, in quarters of its last place. -/
def bounds (x : Dyadic) : Nat × Nat :=
  (4 * x.mantissa - (if x.mantissa = Nat.pow 2 52 ∧ -1074 < x.exponent then 1 else 2),
    4 * x.mantissa + 2)

/-- The multiple of `10 ^ k` that is nearest to `x` and rounds to it. Both ends round to `x` if its
mantissa is even; of two that are equally near the even multiple is taken. -/
def onGrid (x : Dyadic) (k : Int) : Option Nat :=
  let e := x.exponent - 2
  let a := Nat.pow 2 e.toNat * Nat.pow 10 (-k).toNat
  let b := Nat.pow 2 (-e).toNat * Nat.pow 10 k.toNat
  let (low, high) := x.bounds
  let inside (n : Nat) : Bool :=
    if x.mantissa % 2 = 0 then low * a ≤ n * b && n * b ≤ high * a
    else low * a < n * b && n * b < high * a
  let v := 4 * x.mantissa * a
  let n := v / b
  let below := v - n * b
  let above := (n + 1) * b - v
  if inside n && (!inside (n + 1) || below < above || (below = above && n % 2 = 0)) then some n
  else if inside (n + 1) then some (n + 1)
  else none

/-- Tries `steps` grids from `10 ^ k` downwards. -/
def search (x : Dyadic) (k : Int) : Nat → Shortest
  | 0 => ⟨0, 0⟩
  | steps + 1 =>
    match x.onGrid k with
    | some n => ⟨n, k⟩
    | none => x.search (k - 1) steps

/-- Seventeen digits are always enough; the search starts at a power of ten above the number. -/
def shortest (x : Dyadic) : Shortest :=
  let bits : Int := x.mantissa.log2 + x.exponent
  x.search ((bits + 1) * 30103 / 100000 + 1) 20

end Dyadic

/-- Where the decimal point is written out and where an exponent is. -/
structure FloatLayout where
  /-- A point that comes after at most this many digits is written out. -/
  longestWhole : Int
  /-- So is one with at most this many zeros after it. -/
  mostZeros : Int
  deriving DecidableEq, Repr

namespace FloatLayout

/-- Digits with the point after the first `place` of them. An exponent always has a sign. -/
def text (l : FloatLayout) (digits : List Char) (place : Int) : List Char :=
  let count : Int := digits.length
  if count ≤ place ∧ place ≤ l.longestWhole then
    digits ++ List.replicate (place - count).toNat '0' ++ ['.', '0']
  else if 0 < place ∧ place ≤ l.longestWhole then
    digits.take place.toNat ++ '.' :: digits.drop place.toNat
  else if -l.mostZeros ≤ place ∧ place ≤ 0 then
    '0' :: '.' :: (List.replicate (-place).toNat '0' ++ digits)
  else
    let fraction := digits.drop 1
    digits.take 1 ++ (if fraction.isEmpty then [] else '.' :: fraction) ++
      'e' :: Decimal.signed (place - 1)

end FloatLayout

namespace Binary64

def text (l : FloatLayout) (x : Binary64) : List Char :=
  let body :=
    if x.magnitude.mantissa = 0 then ['0', '.', '0']
    else
      let s := x.magnitude.shortest
      let digits := Decimal.digits s.digits
      l.text digits (digits.length + s.exponent)
  if x.negative then '-' :: body else body

end Binary64

end Haptics
