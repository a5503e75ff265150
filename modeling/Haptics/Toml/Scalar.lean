import Haptics.Document.Basic
import Haptics.Toml.Blank

/-! Values of one word in configuration files: truth values, numbers and dates. -/

namespace Haptics.Toml

def isWordChar (c : Char) : Bool := c.isAlphanum || c = '_' || c = '+' || c = '-' || c = '.' || c = ':'

namespace Scalar

/-- Digits between which single underscores may stand. -/
def ungrouped? (digit : Char → Bool) (cs : List Char) : Option (List Char) :=
  let ds := cs.filter (· ≠ '_')
  if ds ≠ [] ∧ ds.all digit ∧ cs.head? ≠ some '_' ∧ cs.getLast? ≠ some '_' ∧ !doubled cs then some ds
  else none
where
  doubled : List Char → Bool
    | '_' :: '_' :: _ => true
    | _ :: cs => doubled cs
    | [] => false

/-- A number without a leading zero. -/
def whole? (cs : List Char) : Option (List Char) := do
  let ds ← ungrouped? Char.isDigit cs
  if ds.head? = some '0' ∧ 1 < cs.length then none else some ds

/-- Splits off a sign; true for a minus. -/
def sign : List Char → Bool × List Char
  | '+' :: cs => (false, cs)
  | '-' :: cs => (true, cs)
  | cs => (false, cs)

/-- A whole number of 64 bits. One in base 16, 8 or 2 has no sign. -/
def integer? (cs : List Char) : Option Int :=
  let inRange (i : Int) : Option Int :=
    if Int64.minValue.toInt ≤ i ∧ i ≤ Int64.maxValue.toInt then some i else none
  let based (base : Nat) (digit : Char → Bool) (cs : List Char) : Option Int := do
    inRange (Decimal.valueIn base (← ungrouped? digit cs))
  match cs with
  | '0' :: 'x' :: cs => based 16 Decimal.isHexDigit cs
  | '0' :: 'o' :: cs => based 8 (fun c => '0' ≤ c && c ≤ '7') cs
  | '0' :: 'b' :: cs => based 2 (fun c => c = '0' || c = '1') cs
  | cs => do
    let (negative, cs) := sign cs
    let n := Decimal.value (← whole? cs)
    inRange (if negative then -(n : Int) else n)

/-- Whether `digits * 10 ^ exponent` is too large for a double. -/
def overflows (digits : List Char) (exponent : Int) : Bool :=
  let digits := digits.dropWhile (· = '0')
  let places : Int := digits.length + exponent
  if digits.isEmpty || places < 300 then false
  else if 320 < places then true
  else
    let n := Decimal.value digits
    (Dyadic.round (n * Nat.pow 10 exponent.toNat) (Nat.pow 10 (-exponent).toNat)).isNone

/-- A number with a fraction, an exponent or both. It has to be finite if it is positive, unless it
is the word for infinity. -/
def isFloat (cs : List Char) : Bool :=
  let (negative, cs) := sign cs
  if cs = ['i', 'n', 'f'] ∨ cs = ['n', 'a', 'n'] then true
  else
    let inMantissa (c : Char) : Bool := c ≠ 'e' && c ≠ 'E'
    let mantissa := cs.takeWhile inMantissa
    let whole := mantissa.takeWhile (· ≠ '.')
    let fraction := mantissa.dropWhile (· ≠ '.')
    let exponent := cs.dropWhile inMantissa
    let result : Option Bool := do
      guard (fraction ≠ [] ∨ exponent ≠ [])
      let ds ← whole? whole
      let fs ← if fraction = [] then some [] else ungrouped? Char.isDigit (fraction.drop 1)
      let e : Int ← if exponent = [] then some 0 else do
        let (below, es) := sign (exponent.drop 1)
        let e := Decimal.value (← ungrouped? Char.isDigit es)
        some (if below then -(e : Int) else e)
      return negative || !overflows (ds ++ fs) (e - fs.length)
    result.getD false

/-- Takes a number of so many digits within bounds from the front. -/
def field? (count low high : Nat) (cs : List Char) : Option (Nat × List Char) :=
  let ds := cs.take count
  let n := Decimal.value ds
  if ds.length = count ∧ ds.all Char.isDigit ∧ low ≤ n ∧ n ≤ high then some (n, cs.drop count)
  else none

def mark? (c : Char) : List Char → Option (List Char)
  | d :: cs => if c = d then some cs else none
  | [] => none

/-- The number of days of a month. -/
def days (year month : Nat) : Nat :=
  if month = 2 then
    if year % 4 = 0 ∧ (year % 100 ≠ 0 ∨ year % 400 = 0) then 29 else 28
  else if month = 4 ∨ month = 6 ∨ month = 9 ∨ month = 11 then 30
  else 31

def date? (cs : List Char) : Option (List Char) := do
  let (year, cs) ← field? 4 0 9999 cs
  let (month, cs) ← field? 2 1 12 (← mark? '-' cs)
  let (_, cs) ← field? 2 1 (days year month) (← mark? '-' cs)
  return cs

/-- Seconds go up to 60, for a leap second. -/
def time? (cs : List Char) : Option (List Char) := do
  let (_, cs) ← field? 2 0 23 cs
  let (_, cs) ← field? 2 0 59 (← mark? ':' cs)
  let (_, cs) ← field? 2 0 60 (← mark? ':' cs)
  match cs with
  | '.' :: cs => if (cs.takeWhile Char.isDigit).isEmpty then none else return cs.dropWhile Char.isDigit
  | cs => return cs

/-- How far a time is from universal time; this is the end of the word. -/
def isOffset : List Char → Bool
  | [] => true
  | ['Z'] => true
  | ['z'] => true
  | c :: cs =>
    let rest : Option (List Char) := do
      let (_, cs) ← field? 2 0 23 cs
      let (_, cs) ← field? 2 0 59 (← mark? ':' cs)
      return cs
    (c = '+' || c = '-') && rest == some []

/-- A date, a time, or both with or without an offset. -/
def isDateTime (cs : List Char) : Bool :=
  match date? cs with
  | some [] => true
  | some (c :: cs) => (c = 'T' || c = 't' || c = ' ') && ((time? cs).map isOffset).getD false
  | none => time? cs == some []

/-- A date is never asked for its parts. It counts as a table with a member that nothing knows. -/
def dateTime : Document := .table [(some "datetime", .null)]

/-- What a word stands for. -/
def document? (cs : List Char) : Option Document :=
  if cs = ['t', 'r', 'u', 'e'] then some (.bool true)
  else if cs = ['f', 'a', 'l', 's', 'e'] then some (.bool false)
  else if isDateTime cs then some dateTime
  else match integer? cs with
    | some i => some (.num (some (.int i)))
    | none => if isFloat cs then some (.num none) else none

/-- Takes a word from the front of a text. A date and a time may be joined by one blank. -/
def word (cs : List Char) : List Char × List Char :=
  let w := cs.takeWhile isWordChar
  match cs.dropWhile isWordChar with
  | ' ' :: d :: rest =>
    if d.isDigit ∧ date? w = some [] then
      (w ++ ' ' :: (d :: rest).takeWhile isWordChar, (d :: rest).dropWhile isWordChar)
    else (w, ' ' :: d :: rest)
  | rest => (w, rest)

def read? (cs : List Char) : Option (Document × List Char) := do
  let (w, rest) := word cs
  return (← document? w, rest)

end Scalar

end Haptics.Toml
