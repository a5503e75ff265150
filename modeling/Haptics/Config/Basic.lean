import Haptics.Mailbox
import Haptics.Wire.Domain

/-! The configuration of the service. Every section and every key has a default of its own. -/

namespace Haptics

open Document Wire

structure Limits where
  maxDurationMs : Int64 := 1800000
  commandBuffer : UInt64 := 64
  deriving DecidableEq, Repr

/-- The sections `permission` and `actuator` have one key each. -/
structure Config where
  limits : Limits := {}
  arbitration : Arbitration := {}
  granted : Bool := true
  rejected : List Rejection := []
  effects : List Effect := Effect.builtin
  deriving DecidableEq, Repr

instance : Wire Limits where
  encode l := .obj [("max_duration_ms", encode l.maxDurationMs),
    ("command_buffer", encode l.commandBuffer)]
  decode? δ d := do
    match ← record? δ [⟨"max_duration_ms", .defaulted⟩, ⟨"command_buffer", .defaulted⟩] d with
    | [maxDurationMs, commandBuffer] =>
      let l : Limits := {}
      return ⟨← field? δ l.maxDurationMs maxDurationMs, ← field? δ l.commandBuffer commandBuffer⟩
    | _ => none

namespace Config

/-- The only key of a section; without the key or the section it has its default. -/
def onlyKey? [Wire α] (δ : Dialect) (name : String) (default : α) : Option Document → Option α
  | none => some default
  | some d => do
    match ← record? δ [⟨name, .defaulted⟩] d with
    | [value] => field? δ default value
    | _ => none

instance : Wire Config where
  encode c := .obj [("limits", encode c.limits), ("arbitration", encode c.arbitration),
    ("permission", .obj [("vibrate_granted", encode c.granted)]),
    ("actuator", .obj [("rejected", encode c.rejected)]), ("effects", encode c.effects)]
  decode? δ d := do
    match ← record? δ [⟨"limits", .defaulted⟩, ⟨"arbitration", .defaulted⟩,
      ⟨"permission", .defaulted⟩, ⟨"actuator", .defaulted⟩, ⟨"effects", .defaulted⟩] d with
    | [limits, arbitration, permission, actuator, effects] =>
      let c : Config := {}
      return ⟨← field? δ c.limits limits, ← field? δ c.arbitration arbitration,
        ← onlyKey? δ "vibrate_granted" c.granted permission,
        ← onlyKey? δ "rejected" c.rejected actuator, ← field? δ c.effects effects⟩
    | _ => none

/-- Limits with which no controller comes up. -/
inductive Fault where
  | maxDuration (given : Int64)
  | noBuffer
  deriving DecidableEq, Repr

def Fault.message : Fault → String
  | .maxDuration given => s!"limits.max_duration_ms must be positive, got {given}"
  | .noBuffer => "limits.command_buffer must be at least 1"

def fault? (c : Config) : Option Fault :=
  if c.limits.maxDurationMs ≤ 0 then some (.maxDuration c.limits.maxDurationMs)
  else if c.limits.commandBuffer = 0 then some .noBuffer
  else none

def settings (c : Config) : Settings := ⟨c.limits.maxDurationMs, c.limits.commandBuffer, c.granted⟩

def catalog (c : Config) : Catalog := .ofList c.effects

/-- The controller that a configuration describes, with the simulated motor for a device. -/
def open? (c : Config) : Except LaunchError Mailbox :=
  Mailbox.open? true c.settings c.catalog c.arbitration.policy { motor := { rejected := c.rejected } }

end Config

end Haptics
