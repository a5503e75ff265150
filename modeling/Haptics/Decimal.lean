/-! Whole numbers in decimal. Writing uses no leading zeros; reading takes any digits. -/

namespace Haptics.Decimal

def digits (n : Nat) : List Char := Nat.toDigits 10 n

/-- The number that digits stand for, in the given base. Letters count from ten up, in either case. -/
def valueIn (base : Nat) (cs : List Char) : Nat :=
  cs.foldl (fun n c =>
    base * n + (if c.isDigit then c.toNat - 48 else (c.toNat - 55) % 32)) 0

def value (cs : List Char) : Nat := valueIn 10 cs

def integer : Int → List Char
  | .ofNat n => digits n
  | .negSucc n => '-' :: digits (n + 1)

/-- With a sign also if it is not negative. -/
def signed : Int → List Char
  | .ofNat n => '+' :: digits n
  | .negSucc n => '-' :: digits (n + 1)

def isHexDigit (c : Char) : Bool :=
  c.isDigit || ('a' ≤ c && c ≤ 'f') || ('A' ≤ c && c ≤ 'F')

/-- The value of one hexadecimal digit. -/
def hexValue? (c : Char) : Option Nat := if isHexDigit c then some (valueIn 16 [c]) else none

theorem valueIn_append_one (base : Nat) (cs : List Char) (c : Char) :
    valueIn base (cs ++ [c]) = base * valueIn base cs + valueIn base [c] := by
  simp [valueIn, List.foldl_append]

end Haptics.Decimal
