import Haptics.Daemon

/-! The command line: an optional argument is the path of the configuration. Answers go to standard
output, errors to standard error. -/

open Haptics

namespace Haptics.CommandLine

/-- What is at a path. -/
def inspect (path : String) : IO Config.Spot := do
  try
    return .file (← IO.FS.readBinFile path)
  catch
    | .noFileOrDirectory .. => return .absent
    | .inappropriateType .. => return .directory
    | e => throw e

/-- The directory that a path lies in. -/
def parent (path : String) : String :=
  String.ofList (path.toList.reverse.dropWhile (· ≠ '/')).reverse

/-- Brings about what is to be at a path. -/
def place (path : String) : Config.Spot → IO Unit
  | .file bytes => do
    let dir := parent path
    if dir ≠ "" then IO.FS.createDirAll dir
    IO.FS.writeBinFile path bytes
  | _ => return

/-- The bytes up to the next line break, with the break; nothing at the end of the input. `done` is
what has been read, last byte first. -/
partial def readLine (input : IO.FS.Stream) (done : List UInt8) : IO (List UInt8) := do
  match (← input.read 1).toList with
  | [] => return done.reverse
  | b :: _ => if b = 10 then return (b :: done).reverse else readLine input (b :: done)

/-- Answers standard input line by line; `last` is when the line before came. -/
partial def loop (input output : IO.FS.Stream) (last : Nat) (m : Mailbox) : IO UInt32 := do
  let bytes ← readLine input []
  let now ← IO.monoMsNow
  match Daemon.lines bytes with
  | [] => return Daemon.success
  | line :: _ =>
    match String.fromUTF8? ⟨line.toArray⟩ with
    | none => return Daemon.failure
    | some line =>
      let (answer, m) := Daemon.respond (m.wait (now - last)) line
      if let some answer := answer then
        output.putStrLn answer
        output.flush
      loop input output now m

def run (args : List String) : IO UInt32 := do
  let path ← match args.head? with
    | some path => pure path
    | none => pure (Config.defaultPath (← IO.getEnv "XDG_CONFIG_HOME") (← IO.getEnv "HOME"))
  let found ← inspect path
  let (started, spot) := Daemon.start found
  if let .absent := found then place path spot
  match started with
  | .error code => return code
  | .ok m => loop (← IO.getStdin) (← IO.getStdout) (← IO.monoMsNow) m

end Haptics.CommandLine

def main (args : List String) : IO UInt32 := do
  try CommandLine.run args
  catch e =>
    IO.eprintln e.toString
    return Daemon.failure
