import Haptics.Motor

/-! A device as the controller sees it: a motor behind a driver that may fail. Every call is logged
with its instant and its outcome, and a call that the driver fails never reaches the motor. -/

namespace Haptics

/-- A failure of the driver: it answers with an error, or it takes the caller down with it. -/
inductive Fault where
  | error (why : DeviceError)
  | crash
  deriving DecidableEq, Repr

inductive Outcome where
  | done
  | refused (why : DeviceError)
  | crashed
  deriving DecidableEq, Repr

/-- A call with the instant at which it was made, in milliseconds. -/
structure Entry where
  instant : Nat
  call : Call
  outcome : Outcome
  deriving DecidableEq, Repr

/-- Calls are numbered from 1; `faults` says which of them fail. -/
structure Device where
  motor : Motor := {}
  faults : Nat → Option Fault := fun _ => none
  log : Array Entry := #[]

namespace Device

def note (d : Device) (now : Nat) (call : Call) (outcome : Outcome) : Device :=
  { d with log := d.log.push ⟨now, call, outcome⟩ }

def perform (d : Device) (now : Nat) (call : Call) : Outcome × Device :=
  match d.faults (d.log.size + 1) with
  | some (.error why) => (.refused why, d.note now call (.refused why))
  | some .crash => (.crashed, d.note now call .crashed)
  | none =>
    match d.motor.accept call with
    | .ok motor => (.done, { d with motor }.note now call .done)
    | .error why => (.refused why, d.note now call (.refused why))

section Perform
variable {d d' : Device} {now : Nat} {call : Call} {outcome : Outcome}

theorem perform_log (h : d.perform now call = (outcome, d')) :
    d'.log = d.log.push ⟨now, call, outcome⟩ := by
  unfold perform at h
  repeat' split at h
  all_goals cases h; rfl

theorem perform_faults (h : d.perform now call = (outcome, d')) : d'.faults = d.faults := by
  unfold perform at h
  repeat' split at h
  all_goals cases h; rfl

theorem perform_done (h : d.perform now call = (.done, d')) :
    d.motor.accept call = .ok d'.motor := by
  unfold perform at h
  repeat' split at h
  all_goals cases h
  assumption

theorem perform_motor_of_ne_done (h : d.perform now call = (outcome, d')) (ho : outcome ≠ .done) :
    d'.motor = d.motor := by
  unfold perform at h
  repeat' split at h
  all_goals cases h
  · rfl
  · rfl
  · exact absurd rfl ho
  · rfl

theorem perform_rejected (h : d.perform now call = (outcome, d')) :
    d'.motor.rejected = d.motor.rejected := by
  by_cases ho : outcome = .done
  · exact Motor.accept_rejected (perform_done (ho ▸ h))
  · rw [perform_motor_of_ne_done h ho]

end Perform

end Device

end Haptics
