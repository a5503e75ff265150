import Haptics.Config.File
import Haptics.Line.Answer

/-! The service from start to end: it loads its configuration, brings a controller up and answers the
lines that come in, one line each, until there are no more. -/

namespace Haptics.Daemon

/-! ## Lines -/

/-- The line before a line break; a carriage return right before the break belongs to it. The bytes
stand last one first. -/
def broken : List UInt8 → List UInt8
  | 13 :: bytes => bytes.reverse
  | bytes => bytes.reverse

/-- The lines of a text; the last one need not end with a line break. `line` is what has been read of
the first, last byte first. -/
def linesFrom (line : List UInt8) : List UInt8 → List (List UInt8)
  | [] => if line.isEmpty then [] else [line.reverse]
  | b :: bytes => if b = 10 then broken line :: linesFrom [] bytes else linesFrom (b :: line) bytes

def lines (bytes : List UInt8) : List (List UInt8) := linesFrom [] bytes

/-- The characters of Unicode that count as white space. -/
def isWhite (c : Char) : Bool :=
  ('\t' ≤ c && c ≤ '\r') || c = ' ' || c = '\x85' || c = '\xa0' || c = '\u1680' ||
    ('\u2000' ≤ c && c ≤ '\u200a') || c = '\u2028' || c = '\u2029' || c = '\u202f' ||
    c = '\u205f' || c = '\u3000'

def isBlank (line : String) : Bool := line.toList.all isWhite

/-! ## Running -/

/-- The exit codes: all went well, an error was reported, or the program broke down. -/
def success : UInt32 := 0

def failure : UInt32 := 1

def breakdown : UInt32 := 101

/-- Brings the service up, or says with which code it ends. -/
def start (spot : Config.Spot) : Except UInt32 Mailbox × Config.Spot :=
  match Config.loadOrCreate spot with
  | (.error _, spot) => (.error failure, spot)
  | (.ok c, spot) =>
    (c.open?.mapError fun why => if why.message?.isSome then failure else breakdown, spot)

/-- The answer to a line; blank lines get none. -/
def respond (m : Mailbox) (line : String) : Option String × Mailbox :=
  if isBlank line then (none, m)
  else
    let (reply, m) := Line.answer m line
    (some (Wire.text reply), m)

/-- Answers lines, each of which comes so many milliseconds after the one before. A line that is no
text ends the service. -/
def serve (m : Mailbox) : List (Nat × List UInt8) → List String × UInt32
  | [] => ([], success)
  | (delay, bytes) :: rest =>
    match String.fromUTF8? ⟨bytes.toArray⟩ with
    | none => ([], failure)
    | some line =>
      match respond (m.wait delay) line with
      | (none, m) => serve m rest
      | (some answer, m) =>
        let (answers, code) := serve m rest
        (answer :: answers, code)

/-- What a service has written and how it has ended, and what is at the configuration's path then. -/
structure Outcome where
  output : List String
  exit : UInt32
  spot : Config.Spot

/-- Runs the service on an input all of which is there at once. -/
def run (spot : Config.Spot) (input : List UInt8) : Outcome :=
  match start spot with
  | (.error code, spot) => ⟨[], code, spot⟩
  | (.ok m, spot) =>
    let (output, exit) := serve m ((lines input).map fun line => (0, line))
    ⟨output, exit, spot⟩

end Haptics.Daemon
