import Haptics.Binary64.Shortest
import Haptics.Json.Number

/-! JSON values and how they are written: on one line without blanks. -/

namespace Haptics

/-- Members stand in the order in which they are written. -/
inductive Json where
  | null
  | bool (b : Bool)
  | num (n : Json.Number)
  | str (s : String)
  | arr (items : List Json)
  | obj (members : List (String × Json))
  deriving Repr

namespace Json

def isNull : Json → Bool
  | .null => true
  | _ => false

/-- The member of a name; nothing in a value without members. -/
def get? (j : Json) (name : String) : Option Json :=
  match j with
  | .obj members => members.lookup name
  | _ => none

def ofInt (i : Int) : Json := .num (.int i)

def ofNat (n : Nat) : Json := .num (.int n)

/-- A number of a fixed width. -/
def int32 (i : Int32) : Json := ofInt i.toInt

def int64 (i : Int64) : Json := ofInt i.toInt

def uint64 (n : UInt64) : Json := ofNat n.toNat

def ofOption (f : α → Json) : Option α → Json
  | none => .null
  | some a => f a

/-! ## Text -/

/-- The point is written out after at most sixteen digits and before at most four zeros; every double
has a point or an exponent. -/
def floatLayout : FloatLayout := ⟨16, 4⟩

def Number.text : Number → List Char
  | .int i => Decimal.integer i
  | .float x => x.text floatLayout

/-- The two hexadecimal digits of a number below 256, in lower case. -/
def hexPair (n : Nat) : List Char := [(n / 16).digitChar, (n % 16).digitChar]

/-- Quotes, backslashes and control characters are escaped, nothing else is. -/
def escape (c : Char) : List Char :=
  if c = '"' then ['\\', '"']
  else if c = '\\' then ['\\', '\\']
  else if c = '\x08' then ['\\', 'b']
  else if c = '\x0c' then ['\\', 'f']
  else if c = '\n' then ['\\', 'n']
  else if c = '\r' then ['\\', 'r']
  else if c = '\t' then ['\\', 't']
  else if c < ' ' then '\\' :: 'u' :: '0' :: '0' :: hexPair c.toNat
  else [c]

def quoted (s : String) : List Char := '"' :: s.toList.flatMap escape ++ ['"']

mutual

def chars : Json → List Char
  | .null => ['n', 'u', 'l', 'l']
  | .bool true => ['t', 'r', 'u', 'e']
  | .bool false => ['f', 'a', 'l', 's', 'e']
  | .num n => n.text
  | .str s => quoted s
  | .arr items => '[' :: itemChars items ++ [']']
  | .obj members => '{' :: memberChars members ++ ['}']

def itemChars : List Json → List Char
  | [] => []
  | [j] => j.chars
  | j :: js => j.chars ++ ',' :: itemChars js

def memberChars : List (String × Json) → List Char
  | [] => []
  | [(name, j)] => quoted name ++ ':' :: j.chars
  | (name, j) :: ms => quoted name ++ ':' :: j.chars ++ ',' :: memberChars ms

end

def text (j : Json) : String := String.ofList j.chars

end Json

end Haptics
