import Haptics.Toml.Quoted
import Haptics.Toml.Scalar
import Haptics.Toml.Table

/-! Keys and values of configuration files. Every reader takes what it reads from the front of a text
and gives the rest. -/

namespace Haptics.Toml

def isBareChar (c : Char) : Bool := c.isAlphanum || c = '-' || c = '_'

namespace Key

def part? (cs : List Char) : Option (String × List Char) :=
  match cs with
  | '"' :: _ => Quoted.line? cs
  | '\'' :: _ => Quoted.line? cs
  | _ =>
    let name := cs.takeWhile isBareChar
    if name.isEmpty then none else some (String.ofList name, cs.dropWhile isBareChar)

/-- The parts of a key, with the blanks around them; at most `room` of them. -/
def parts? : Nat → List Char → Option (List String × List Char)
  | 0, _ => none
  | room + 1, cs => do
    let (name, cs) ← part? (skipBlanks cs)
    match skipBlanks cs with
    | '.' :: cs =>
      let (names, cs) ← parts? room cs
      return (name :: names, cs)
    | cs => return ([name], cs)

/-- How many parts a key may have. -/
def room : Nat := 79

/-- A key as the path to a table and the name in it. -/
def read? (cs : List Char) : Option (List String × String × List Char) := do
  let (names, cs) ← parts? room cs
  return (names.dropLast, ← names.getLast?, cs)

end Key

namespace Value

/-- A reader of one value. -/
abbrev Reader := List Char → Option (Document × List Char)

/-- The items of a list up to its closing bracket; `fuel` bounds their number. Blanks, line breaks
and comments may stand between them, and a comma after the last. -/
def items (item : Reader) : Nat → List Document → Reader
  | 0, _, _ => none
  | fuel + 1, done, cs =>
    match skipGap false cs with
    | ']' :: cs => some (.list done.reverse, cs)
    | cs => do
      let (d, cs) ← item cs
      match skipGap false cs with
      | ']' :: cs => return (.list (d :: done).reverse, cs)
      | ',' :: cs => items item fuel (d :: done) cs
      | _ => none

/-- The members of a table in braces, up to the closing one. -/
def members (item : Reader) : Nat → Members → Reader
  | 0, _, _ => none
  | fuel + 1, done, cs => do
    let (path, name, cs) ← Key.read? cs
    let (d, cs) ← item (skipBlanks (← Scalar.mark? '=' cs))
    let done ← Members.assign path name d done
    match skipBlanks cs with
    | '\x7d' :: cs => return (done.document, cs)
    | ',' :: cs => members item fuel done cs
    | _ => none

/-- A table in braces stands on one line, and no comma may follow its last member. -/
def braces (item : Reader) (fuel : Nat) (cs : List Char) : Option (Document × List Char) :=
  match skipBlanks cs with
  | '\x7d' :: cs => some (Members.document [], cs)
  | _ => members item fuel [] cs

/-- A value that has lists and tables nested at most `room` deep. -/
def read? (fuel : Nat) : Nat → Reader
  | 0, '[' :: _ => none
  | 0, '\x7b' :: _ => none
  | room + 1, '[' :: cs => items (read? fuel room) fuel [] cs
  | room + 1, '\x7b' :: cs => braces (read? fuel room) fuel cs
  | _, '"' :: cs => (Quoted.read? ('"' :: cs)).map fun (s, cs) => (.str (some s), cs)
  | _, '\'' :: cs => (Quoted.read? ('\'' :: cs)).map fun (s, cs) => (.str (some s), cs)
  | _, cs => Scalar.read? cs

/-- How deep lists and tables in braces may be nested. -/
def room : Nat := 79

end Value

end Haptics.Toml
