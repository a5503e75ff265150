import Haptics.Config.Basic
import Haptics.Toml.Reader
import Haptics.Toml.Writer

/-! Configurations as the text of a file. -/

namespace Haptics.Config

open Toml

/-! ## Writing -/

/-- The tables of a list, each after an empty line. -/
def elements (name : String) (tables : List (List Char)) : List Char :=
  tables.flatMap fun t => '\n' :: elementHeader name ++ t

def effectEntries? (e : Effect) : Option (List Char) := do
  return entry "id" (quoted e.id) ++ entry "duration_ms" (← natural? e.durationMs)

def rejectionEntries (r : Rejection) : List Char :=
  entry "effect_id" (quoted r.effectId) ++ entry "usage" (quoted r.usage.name)

def limitsEntries? (l : Limits) : Option (List Char) := do
  return entry "max_duration_ms" (Decimal.integer l.maxDurationMs.toInt) ++
    entry "command_buffer" (← natural? l.commandBuffer)

def arbitrationEntries (a : Arbitration) : List Char :=
  entry "incoming_repeat_wins" (bool a.repeatWins) ++
  entry "lock_repeating_presets" (bool a.lockRepeating) ++
  entry "protected_usages" (list (a.guarded.map fun u => quoted u.name)) ++
  entry "lowest_priority_usages" (list (a.lowest.map fun u => quoted u.name))

def actuatorSection (rejected : List Rejection) : List Char :=
  if rejected.isEmpty then '\n' :: header "actuator" ++ entry "rejected" (list [])
  else elements "actuator.rejected" (rejected.map rejectionEntries)

/-- Sections stand in a fixed order with an empty line between them. An empty list of effects has no
section and comes before all of them. A number that files do not have makes writing fail. -/
def text? (c : Config) : Option String := do
  let limits ← limitsEntries? c.limits
  let effects ← c.effects.mapM effectEntries?
  return String.ofList <|
    (if c.effects.isEmpty then entry "effects" (list []) ++ ['\n'] else []) ++
    header "limits" ++ limits ++
    '\n' :: header "arbitration" ++ arbitrationEntries c.arbitration ++
    '\n' :: header "permission" ++ entry "vibrate_granted" (bool c.granted) ++
    actuatorSection c.rejected ++
    elements "effects" effects

/-! ## Reading -/

/-- Why a text is no configuration. -/
inductive TextFault where
  /-- It is not well formed, or a key has a value of the wrong kind. -/
  | unreadable
  | invalid (why : Fault)
  deriving DecidableEq, Repr

def ofText (s : String) : Except TextFault Config :=
  match (Toml.read? s >>= Wire.decode? .file : Option Config) with
  | none => .error .unreadable
  | some c =>
    match c.fault? with
    | some why => .error (.invalid why)
    | none => .ok c

end Haptics.Config
