import Haptics.Json.Number

/-! The words of a JSON text. The text is gone through character by character; a word that has no
mark at its end, such as a number, is over with the first character that cannot belong to it. -/

namespace Haptics.Json

/-- A number or a string without a value is still a word. -/
inductive Token where
  | openList
  | closeList
  | openTable
  | closeTable
  | colon
  | comma
  | null
  | bool (b : Bool)
  | num (n : Option Number)
  | str (s : Option String)
  deriving DecidableEq, Repr

/-- What has been read of a string: its characters, last one first, or nothing once half a character
stands alone. -/
abbrev Body := Option (List Char)

/-- Where in a text one is. -/
inductive Mode where
  | between
  /-- In a word of letters; last letter first. -/
  | letters (cs : List Char)
  | number (cs : List Char)
  /-- In a string. `high` is the first half of a character that is written as two escapes. -/
  | string (body : Body) (high : Option Nat)
  | escape (body : Body) (high : Option Nat)
  /-- Within a four-digit escape, with the digits that have been read. -/
  | hex (body : Body) (high : Option Nat) (digits : List Char)
  deriving DecidableEq, Repr

namespace Token

def isBlank (c : Char) : Bool := c = ' ' || c = '\t' || c = '\n' || c = '\r'

def isLetter (c : Char) : Bool := 'a' ≤ c && c ≤ 'z'

def isNumeric (c : Char) : Bool := c.isDigit || c = '-' || c = '+' || c = '.' || c = 'e' || c = 'E'

def punctuation? : Char → Option Token
  | '[' => some .openList
  | ']' => some .closeList
  | '\x7b' => some .openTable
  | '\x7d' => some .closeTable
  | ':' => some .colon
  | ',' => some .comma
  | _ => none

def word? (cs : List Char) : Option Token :=
  if cs = ['n', 'u', 'l', 'l'] then some .null
  else if cs = ['t', 'r', 'u', 'e'] then some (.bool true)
  else if cs = ['f', 'a', 'l', 's', 'e'] then some (.bool false)
  else none

/-- The character that a simple escape stands for. -/
def simpleEscape? : Char → Option Char
  | '"' => some '"'
  | '\\' => some '\\'
  | '/' => some '/'
  | 'b' => some '\x08'
  | 'f' => some '\x0c'
  | 'n' => some '\n'
  | 'r' => some '\r'
  | 't' => some '\t'
  | _ => none

/-- What a string has when something follows that is not the second half of a character. -/
def settled (body : Body) (high : Option Nat) : Body := if high.isSome then none else body

/-- The string after a four-digit escape. -/
def afterHex (body : Body) (high : Option Nat) (code : Nat) : Mode :=
  if 0xDC00 ≤ code ∧ code < 0xE000 then
    match high with
    | some h =>
      let c := Char.ofNat (0x10000 + (h - 0xD800) * 0x400 + (code - 0xDC00))
      .string (body.map (c :: ·)) none
    | none => .string none none
  else
    let body := settled body high
    if 0xD800 ≤ code ∧ code < 0xDC00 then .string body (some code)
    else .string (body.map (Char.ofNat code :: ·)) none

/-- The state of reading: the words so far, last one first, and where the next character stands. -/
abbrev State := List Token × Mode

/-- A character outside of words, or the one that begins a word. -/
def begin? (ts : List Token) (c : Char) : Option State :=
  if isBlank c then some (ts, .between)
  else if isLetter c then some (ts, .letters [c])
  else if c.isDigit || c = '-' then some (ts, .number [c])
  else if c = '"' then some (ts, .string (some []) none)
  else (punctuation? c).map fun t => (t :: ts, .between)

def number? (cs : List Char) : Option Token := (Numeral.ofChars? cs.reverse).map fun n => .num n.number?

def step : State → Char → Option State
  | (ts, .between), c => begin? ts c
  | (ts, .letters cs), c =>
    if isLetter c then some (ts, .letters (c :: cs))
    else do begin? ((← word? cs.reverse) :: ts) c
  | (ts, .number cs), c =>
    if isNumeric c then some (ts, .number (c :: cs))
    else do begin? ((← number? cs) :: ts) c
  | (ts, .string body high), c =>
    if c = '"' then
      some (.str ((settled body high).map fun cs => String.ofList cs.reverse) :: ts, .between)
    else if c = '\\' then some (ts, .escape body high)
    else if c < ' ' then none
    else some (ts, .string ((settled body high).map (c :: ·)) none)
  | (ts, .escape body high), c =>
    if c = 'u' then some (ts, .hex body high [])
    else do return (ts, .string ((settled body high).map ((← simpleEscape? c) :: ·)) none)
  | (ts, .hex body high ds), c =>
    if Decimal.isHexDigit c then
      let ds := ds ++ [c]
      if ds.length < 4 then some (ts, .hex body high ds)
      else some (ts, afterHex body high (Decimal.valueIn 16 ds))
    else none

/-- The words of a text that ends here. -/
def finish : State → Option (List Token)
  | (ts, .between) => some ts.reverse
  | (ts, .letters cs) => do return ((← word? cs.reverse) :: ts).reverse
  | (ts, .number cs) => do return ((← number? cs) :: ts).reverse
  | _ => none

def scan? (cs : List Char) : Option (List Token) := cs.foldlM step ([], .between) >>= finish

end Token

end Haptics.Json
