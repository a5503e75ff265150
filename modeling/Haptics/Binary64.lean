/-! Finite numbers in double precision, held exactly: a mantissa below 2^53 times a power of two that
is at least 2^-1074. -/

namespace Haptics

/-- A number that is not negative: `mantissa * 2 ^ exponent`. -/
structure Dyadic where
  mantissa : Nat
  exponent : Int
  deriving DecidableEq, Repr

namespace Dyadic

/-- The number as a fraction. -/
def num (x : Dyadic) : Nat := x.mantissa * Nat.pow 2 x.exponent.toNat

def den (x : Dyadic) : Nat := Nat.pow 2 (-x.exponent).toNat

/-- The whole part. -/
def floor (x : Dyadic) : Nat := x.num / x.den

/-- The quotient rounded to the nearest whole number, a half to the even one. -/
def divEven (n d : Nat) : Nat :=
  let q := n / d
  let r := n % d
  if 2 * r < d ∨ (2 * r = d ∧ q % 2 = 0) then q else q + 1

/-- The power of two that the last place of `n / d` stands for, when it is written with 53 places
or as many as there are. -/
def place (n d : Nat) : Int :=
  let e : Int := (n.log2 : Int) - d.log2
  let reached := d * Nat.pow 2 e.toNat ≤ n * Nat.pow 2 (-e).toNat
  max (-1074) (if reached then e - 52 else e - 53)

/-- The number with 53 places or fewer that is nearest to `n / d`, of two the one with the even
mantissa. -/
def nearest (n d : Nat) : Dyadic :=
  let q := place n d
  let m := divEven (n * Nat.pow 2 (-q).toNat) (d * Nat.pow 2 q.toNat)
  if m = Nat.pow 2 53 then ⟨Nat.pow 2 52, q + 1⟩ else ⟨m, q⟩

/-- The double nearest to `n / d`; `none` beyond the largest. -/
def round (n d : Nat) : Option Dyadic :=
  let x := nearest n d
  if n = 0 then some ⟨0, -1074⟩ else if 971 < x.exponent then none else some x

theorem div_le_divEven (n d : Nat) : n / d ≤ divEven n d := by
  unfold divEven
  dsimp only
  split <;> omega

theorem pow_le_of_log2 {n k : Nat} (h : n.log2 = 52 + k) : Nat.pow 2 (52 + k) ≤ n := by
  rw [← h]
  refine Nat.log2_self_le ?_
  rintro rfl
  rw [Nat.log2_zero] at h
  omega

/-- A whole number with `k` places more than a double has is rounded at the last of these. -/
theorem nearest_one {n k : Nat} (h : n.log2 = 52 + k) :
    nearest n 1 =
      if divEven n (Nat.pow 2 k) = Nat.pow 2 53 then ⟨Nat.pow 2 52, k + 1⟩
      else ⟨divEven n (Nat.pow 2 k), k⟩ := by
  have hreached := pow_le_of_log2 h
  have hone (m : Nat) : m * Nat.pow 2 0 = m := Nat.mul_one m
  have hplace : place n 1 = k := by
    have hlog : (n.log2 : Int) - Nat.log2 1 = (52 + k : Nat) := by
      rw [h]
      exact Int.sub_zero _
    unfold place
    simp only [hlog, Int.toNat_natCast, Int.toNat_neg_natCast, Nat.one_mul, hone, if_pos hreached]
    omega
  simp only [nearest, hplace, Int.toNat_natCast, Int.toNat_neg_natCast, Nat.one_mul, hone]

/-- It is not rounded below the power of two that it begins with. -/
theorem le_floor_nearest {n k : Nat} (h : n.log2 = 52 + k) :
    Nat.pow 2 (52 + k) ≤ (nearest n 1).floor := by
  have hsplit : Nat.pow 2 (52 + k) = Nat.pow 2 52 * Nat.pow 2 k := Nat.pow_add 2 52 k
  have hlow : Nat.pow 2 52 * Nat.pow 2 k ≤ n := hsplit ▸ pow_le_of_log2 h
  have hmantissa : Nat.pow 2 52 ≤ divEven n (Nat.pow 2 k) :=
    Nat.le_trans ((Nat.le_div_iff_mul_le (Nat.two_pow_pos k)).mpr hlow) (div_le_divEven n _)
  have hfloor (m l : Nat) : (⟨m, l⟩ : Dyadic).floor = m * Nat.pow 2 l := by
    simp only [floor, num, den, Int.toNat_natCast, Int.toNat_neg_natCast]
    exact Nat.div_one _
  rw [nearest_one h, hsplit]
  split
  · rw [show (k : Int) + 1 = (k + 1 : Nat) from rfl, hfloor]
    exact Nat.mul_le_mul_left _ (Nat.pow_le_pow_right (by decide) (Nat.le_succ k))
  · rw [hfloor]
    exact Nat.mul_le_mul_right _ hmantissa

def mul (x y : Dyadic) : Option Dyadic := round (x.num * y.num) (x.den * y.den)

def div (x y : Dyadic) : Option Dyadic := round (x.num * y.den) (x.den * y.num)

/-- The double nearest to a power of ten. -/
def tenTo (k : Nat) : Option Dyadic := round (Nat.pow 10 k) 1

/-- Divides by `10 ^ k`, in steps that are powers of ten themselves. -/
def shrink (x : Dyadic) (k : Nat) : Option Dyadic :=
  if k ≤ 308 then tenTo k >>= x.div
  else if x.mantissa = 0 then some x
  else do (← tenTo 308 >>= x.div).shrink (k - 308)
termination_by k

/-- `significand * 10 ^ exponent` as a double: the significand and the power of ten are rounded first,
then their product or quotient is. -/
def scaled (significand : Nat) (exponent : Int) : Option Dyadic := do
  let x ← round significand 1
  if exponent < 0 then x.shrink exponent.natAbs
  else if exponent ≤ 308 then tenTo exponent.natAbs >>= x.mul
  else if x.mantissa = 0 then some x else none

end Dyadic

structure Binary64 where
  negative : Bool
  magnitude : Dyadic
  deriving DecidableEq, Repr

namespace Binary64

/-- The whole part, toward zero. -/
def truncate (x : Binary64) : Int :=
  if x.negative then -(x.magnitude.floor : Int) else x.magnitude.floor

end Binary64

end Haptics
