import Haptics.Toml.Value

/-! Reading configuration files, line by line. -/

namespace Haptics.Toml

/-- What a line says; a path leads to the table in which the name stands. -/
inductive Statement where
  | header (path : List String) (name : String)
  | element (path : List String) (name : String)
  | assignment (path : List String) (name : String) (value : Document)
  deriving Repr

namespace Statement

/-- A statement at the front of a text. -/
def read? (fuel : Nat) : List Char → Option (Statement × List Char)
  | '[' :: '[' :: cs => do
    let (path, name, cs) ← Key.read? cs
    return (.element path name, ← Scalar.mark? ']' (← Scalar.mark? ']' cs))
  | '[' :: cs => do
    let (path, name, cs) ← Key.read? cs
    return (.header path name, ← Scalar.mark? ']' cs)
  | cs => do
    let (path, name, cs) ← Key.read? cs
    let (value, cs) ← Value.read? fuel Value.room (skipBlanks (← Scalar.mark? '=' cs))
    return (.assignment path name value, cs)

/-- Whether a line says nothing. -/
def isEmptyLine : List Char → Bool
  | '\n' :: _ => true
  | '\r' :: _ => true
  | '#' :: _ => true
  | cs => cs.isEmpty

end Statement

/-- The table that lines without a header of their own go into, within the whole file. -/
structure Builder where
  root : Members := []
  path : List String := []

namespace Builder

def apply (b : Builder) : Statement → Option Builder
  | .header path name => do
    let root ← b.root.change false (fun _ ms => ms.declare name) path .declared
    return ⟨root, path ++ [name]⟩
  | .element path name => do
    let root ← b.root.change false (fun _ ms => ms.append name) path .declared
    return ⟨root, path ++ [name]⟩
  | .assignment path name value => do
    let root ← b.root.change false (fun _ ms => ms.assign path name value) b.path .declared
    return { b with root }

/-- Takes the lines of a text one by one; `lines` bounds their number, `fuel` the length of the text. -/
def run (fuel : Nat) : Nat → Builder → List Char → Option Builder
  | 0, b, cs => if cs.isEmpty then some b else none
  | lines + 1, b, cs =>
    match skipBlanks cs with
    | [] => some b
    | cs =>
      if Statement.isEmptyLine cs then do run fuel lines b (← lineEnd? cs)
      else do
        let (s, cs) ← Statement.read? fuel cs
        run fuel lines (← b.apply s) (← lineEnd? cs)

end Builder

/-- The document of a configuration file. A byte order mark at its start is skipped. -/
def read? (s : String) : Option Document :=
  let cs := match s.toList with
    | '\ufeff' :: cs => cs
    | cs => cs
  let fuel := cs.length + 1
  (Builder.run fuel fuel {} cs).map fun b => b.root.document

end Haptics.Toml
