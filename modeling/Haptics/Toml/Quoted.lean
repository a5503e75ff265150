import Haptics.Decimal
import Haptics.Toml.Blank

/-! Strings in configuration files. They stand in double quotes, with escapes, or in single quotes,
without; and on one line or, with the quotes threefold, on several. A string is gone through
character by character from behind its opening quotes to its closing ones. -/

namespace Haptics.Toml

namespace Quoted

structure Style where
  quote : Char
  /-- Whether the quotes are threefold. -/
  lines : Bool
  deriving DecidableEq, Repr

namespace Style

def escapes (s : Style) : Bool := s.quote = '"'

end Style

/-- Where in a string one is. -/
inductive Place where
  | text
  /-- After some quotes in a string of several lines. One or two of them belong to it; three close
  it, and up to two more before those still belong to it. -/
  | quotes (count : Nat)
  /-- After a backslash. -/
  | escape
  /-- In an escape of hexadecimal digits, so many of them still to come. -/
  | hex (left : Nat) (digits : List Char)
  /-- After the first half of a line break; `gap` if the break is not part of the string. -/
  | carriage (gap : Bool)
  /-- After a backslash and blanks; a line break has to follow. -/
  | opened
  /-- After a line break that a backslash hides, with the blanks and line breaks that follow it. -/
  | passed
  deriving DecidableEq, Repr

/-- The character that an escape of one letter stands for. -/
def simple? : Char → Option Char
  | 'b' => some '\x08'
  | 'f' => some '\x0c'
  | 'n' => some '\n'
  | 'r' => some '\r'
  | 't' => some '\t'
  | '"' => some '"'
  | '\\' => some '\\'
  | _ => none

/-- The character with a code, which must not be half of one. -/
def charOf? (code : Nat) : Option Char := if code.isValidChar then some (Char.ofNat code) else none

/-- The place and what has been read, last character first. -/
abbrev State := Place × List Char

/-- A character that is no quote. -/
def text? (s : Style) (done : List Char) (c : Char) : Option State :=
  if c = '\\' ∧ s.escapes then some (.escape, done)
  else if c = '\n' ∧ s.lines then some (.text, c :: done)
  else if c = '\r' ∧ s.lines then some (.carriage false, done)
  else if isPlain c then some (.text, c :: done)
  else none

/-- A character after a backslash and possibly blanks, where only a line break can follow. -/
def hidden? (done : List Char) (c : Char) : Option State :=
  if isBlank c then some (.opened, done)
  else if c = '\n' then some (.passed, done)
  else if c = '\r' then some (.carriage true, done)
  else none

def escape? (s : Style) (done : List Char) (c : Char) : Option State :=
  if c = 'u' then some (.hex 4 [], done)
  else if c = 'U' then some (.hex 8 [], done)
  else match simple? c with
    | some e => some (.text, e :: done)
    | none => if s.lines then hidden? done c else none

def hex? (done : List Char) (left : Nat) (digits : List Char) (c : Char) : Option State :=
  if Decimal.isHexDigit c then
    let digits := digits ++ [c]
    if left ≤ 1 then (charOf? (Decimal.valueIn 16 digits)).map fun e => (.text, e :: done)
    else some (.hex (left - 1) digits, done)
  else none

/-- The string with what follows its closing quotes. -/
def body (s : Style) : Place → List Char → List Char → Option (List Char × List Char)
  | .quotes n, done, [] =>
    if 3 ≤ n then some ((List.replicate (n - 3) s.quote ++ done).reverse, []) else none
  | _, _, [] => none
  | .text, done, c :: cs =>
    if c = s.quote then if s.lines then body s (.quotes 1) done cs else some (done.reverse, cs)
    else do let (p, done) ← text? s done c; body s p done cs
  | .quotes n, done, c :: cs =>
    if c = s.quote then if n < 5 then body s (.quotes (n + 1)) done cs else none
    else if 3 ≤ n then some ((List.replicate (n - 3) s.quote ++ done).reverse, c :: cs)
    else do let (p, done) ← text? s (List.replicate n s.quote ++ done) c; body s p done cs
  | .escape, done, c :: cs => do let (p, done) ← escape? s done c; body s p done cs
  | .hex left digits, done, c :: cs => do
    let (p, done) ← hex? done left digits c; body s p done cs
  | .carriage gap, done, c :: cs =>
    if c = '\n' then if gap then body s .passed done cs else body s .text (c :: done) cs
    else none
  | .opened, done, c :: cs => do let (p, done) ← hidden? done c; body s p done cs
  | .passed, done, c :: cs =>
    if isBlank c || c = '\n' then body s .passed done cs
    else if c = '\r' then body s (.carriage true) done cs
    else if c = s.quote then body s (.quotes 1) done cs
    else do let (p, done) ← text? s done c; body s p done cs

/-- A line break right after threefold quotes does not count. -/
def firstBreak : List Char → List Char
  | '\n' :: cs => cs
  | '\r' :: '\n' :: cs => cs
  | cs => cs

def finish (s : Style) (cs : List Char) : Option (String × List Char) :=
  (body s .text [] cs).map fun (cs, rest) => (String.ofList cs, rest)

/-- A string on one line, with its opening quote. -/
def line? : List Char → Option (String × List Char)
  | '"' :: cs => finish ⟨'"', false⟩ cs
  | '\'' :: cs => finish ⟨'\'', false⟩ cs
  | _ => none

/-- A string written in any way, with its opening quotes. -/
def read? : List Char → Option (String × List Char)
  | '"' :: '"' :: '"' :: cs => finish ⟨'"', true⟩ (firstBreak cs)
  | '\'' :: '\'' :: '\'' :: cs => finish ⟨'\'', true⟩ (firstBreak cs)
  | cs => line? cs

end Quoted

end Haptics.Toml
