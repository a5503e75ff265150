import Haptics.Decimal

/-! Writing words of configuration files. -/

namespace Haptics.Toml

/-- A control character that has to be escaped wherever it stands. -/
def isControl (c : Char) : Bool := (c < ' ' && c ≠ '\t' && c ≠ '\n') || c = '\x7f'

/-- Whether a character stands in a text `count` times in a row. -/
def hasRun (c : Char) (count : Nat) (cs : List Char) : Bool :=
  match cs with
  | [] => count = 0
  | _ :: rest => (cs.take count == List.replicate count c) || hasRun c count rest

/-- The ways to write a string. -/
inductive Quotation where
  /-- In double quotes. -/
  | basic
  /-- In single quotes, as it is. -/
  | literal
  /-- In threefold double quotes. -/
  | basicLines
  /-- In threefold single quotes, as it is. -/
  | literalLines
  deriving DecidableEq, Repr

namespace Quotation

/-- The first way in which nothing but tabs has to be escaped; if there is none, double quotes,
threefold if there is a line break. -/
def of (cs : List Char) : Quotation :=
  let control := cs.any isControl
  let lineBreak := cs.contains '\n'
  let backslash := cs.contains '\\'
  if !control && !backslash && !cs.contains '"' && !lineBreak then .basic
  else if !control && !cs.contains '\'' && !lineBreak then .literal
  else if !control && !backslash && !hasRun '"' 3 cs then .basicLines
  else if !control && !hasRun '\'' 3 cs then .literalLines
  else if lineBreak then .basicLines
  else .basic

/-- How many quotes may stand side by side without an escape. -/
def quotesInARow : Quotation → Nat
  | .basicLines => 2
  | _ => 0

end Quotation

def hexDigit (n : Nat) : Char := (n.digitChar).toUpper

/-- A character in a string with escapes. -/
def escape (q : Quotation) (c : Char) : List Char :=
  if c = '\x08' then ['\\', 'b']
  else if c = '\t' then ['\\', 't']
  else if c = '\n' then if q = .basicLines then ['\n'] else ['\\', 'n']
  else if c = '\x0c' then ['\\', 'f']
  else if c = '\r' then ['\\', 'r']
  else if c = '\\' then ['\\', '\\']
  else if isControl c then ['\\', 'u', '0', '0', hexDigit (c.toNat / 16), hexDigit (c.toNat % 16)]
  else [c]

/-- The text between quotes; `row` quotes have just been written without an escape. -/
def escaped (q : Quotation) (row : Nat) : List Char → List Char
  | [] => []
  | c :: cs =>
    if c = '"' then
      if row < q.quotesInARow then c :: escaped q (row + 1) cs else '\\' :: c :: escaped q 0 cs
    else escape q c ++ escaped q 0 cs

/-- A string of several lines begins on a line of its own. -/
def quoted (s : String) : List Char :=
  let cs := s.toList
  let first := if cs.contains '\n' then ['\n'] else []
  match Quotation.of cs with
  | .basic => '"' :: escaped .basic 0 cs ++ ['"']
  | .literal => '\'' :: cs ++ ['\'']
  | .basicLines => ['"', '"', '"'] ++ first ++ escaped .basicLines 0 cs ++ ['"', '"', '"']
  | .literalLines => ['\'', '\'', '\''] ++ first ++ cs ++ ['\'', '\'', '\'']

/-- A list of words; two and more stand on a line each. -/
def list : List (List Char) → List Char
  | [] => ['[', ']']
  | [w] => '[' :: w ++ [']']
  | ws => '[' :: ws.flatMap (fun w => ['\n', ' ', ' ', ' ', ' '] ++ w ++ [',']) ++ ['\n', ']']

def bool (b : Bool) : List Char := (toString b).toList

/-- A whole number. Files have no numbers beyond 63 bits. -/
def natural? (n : UInt64) : Option (List Char) :=
  if n.toNat < Nat.pow 2 63 then some (Decimal.digits n.toNat) else none

/-- A line that gives a key its value. -/
def entry (key : String) (value : List Char) : List Char :=
  key.toList ++ [' ', '=', ' '] ++ value ++ ['\n']

def header (name : String) : List Char := '[' :: name.toList ++ [']', '\n']

def elementHeader (name : String) : List Char := ['[', '['] ++ name.toList ++ [']', ']', '\n']

end Haptics.Toml
