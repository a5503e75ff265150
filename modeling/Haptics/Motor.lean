import Haptics.Catalog
import Haptics.Refusal

/-! The simulated motor. It runs in at most one mode at a time, refuses the effects it is told to
refuse, and keeps a record of what it was asked to do. -/

namespace Haptics

/-- What the controller asks of a device. -/
inductive Call where
  | startOnce (millis : UInt64) (usage : Usage) (parameter : Parameter)
  | startEffect (effect : Effect) (usage : Usage) (parameter : Parameter)
  | stop (mode : Mode)
  deriving DecidableEq, Repr

/-- The mode in which a start lets the motor run; `none` for a stop. -/
def Call.starts? : Call → Option Mode
  | .startOnce .. => some .time
  | .startEffect .. => some .preset
  | .stop _ => none

/-- An effect that the motor does not play for a usage. -/
structure Rejection where
  effectId : String
  usage : Usage
  deriving DecidableEq, Repr

namespace Motor

/-- An accepted call as the motor records it. -/
inductive Act where
  | once (millis : UInt64) (usage : Usage)
  | effect (id : String) (usage : Usage)
  | halt (mode : Mode)
  deriving DecidableEq, Repr

end Motor

def Call.act : Call → Motor.Act
  | .startOnce millis usage _ => .once millis usage
  | .startEffect effect usage _ => .effect effect.id usage
  | .stop mode => .halt mode

structure Motor where
  rejected : List Rejection := []
  /-- The mode it runs in, if it runs. -/
  engaged : Option Mode := none
  record : Array Motor.Act := #[]
  /-- Starts that came while it was running. -/
  overlaps : Nat := 0
  deriving DecidableEq, Repr

namespace Motor

/-- The pair of the call that the motor may have been told to refuse. -/
def refusal? (m : Motor) : Call → Option Rejection
  | .startEffect effect usage _ => m.rejected.find? (· == ⟨effect.id, usage⟩)
  | _ => none

/-- Whatever the motor does not refuse it takes: a start lets it run in a new mode, over the one it
runs in, and a stop halts it only in the mode it names. A refused start leaves no trace. -/
def accept (m : Motor) (call : Call) : Except DeviceError Motor :=
  match m.refusal? call with
  | some r => .error (.rejected r.effectId r.usage.name)
  | none =>
    let m := { m with record := m.record.push call.act }
    .ok <| match call with
      | .stop mode => if m.engaged = some mode then { m with engaged := none } else m
      | start =>
        { m with
          engaged := start.starts?
          overlaps := if m.engaged.isSome then m.overlaps + 1 else m.overlaps }

theorem accept_start {m m' : Motor} {call : Call} {mode : Mode} (hs : call.starts? = some mode)
    (h : m.accept call = .ok m') :
    m'.engaged = some mode ∧
      m'.overlaps = if m.engaged.isSome then m.overlaps + 1 else m.overlaps := by
  unfold accept at h
  split at h
  · cases h
  · cases call <;> simp_all [Call.starts?] <;> subst h <;> exact ⟨rfl, rfl⟩

theorem accept_stop (m : Motor) (mode : Mode) :
    ∃ m', m.accept (.stop mode) = .ok m' ∧ m'.overlaps = m.overlaps ∧
      m'.engaged = if m.engaged = some mode then none else m.engaged := by
  refine ⟨_, rfl, ?_, ?_⟩ <;> dsimp only <;> split <;> rfl

theorem accept_rejected {m m' : Motor} {call : Call} (h : m.accept call = .ok m') :
    m'.rejected = m.rejected := by
  unfold accept at h
  split at h
  · cases h
  · cases h
    cases call with
    | stop mode => dsimp only; split <;> rfl
    | startOnce | startEffect => rfl

end Motor

end Haptics
