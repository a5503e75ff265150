import Haptics.Arbitration
import Haptics.Device

/-! A session is one activation of the motor. It is checked before it touches the device and then
played; what others see of it is a snapshot. -/

namespace Haptics

/-- `effect` is the catalog entry of a preset, once the session has been checked. -/
structure Session where
  id : UInt64
  request : Request
  context : Context
  effect : Option Effect := none
  deriving DecidableEq, Repr

namespace Session

def usage (s : Session) : Usage := s.context.usage

def mode (s : Session) : Mode := s.request.mode

def view (s : Session) : View := ⟨s.request, s.usage⟩

/-- Checks the adjustments and then the request, against the catalog and the longest duration. A
preset keeps its catalog entry, so that the catalog is not asked again. -/
def check (s : Session) (catalog : Catalog) (limit : Int64) : Except Invalid Session :=
  match s.context.parameter.check with
  | .error why => .error why
  | .ok () =>
    match s.request with
    | .time millis => if millis ≤ 0 ∨ limit < millis then .error (.duration millis limit) else .ok s
    | .preset effectId count =>
      if effectId = "" then .error .emptyEffectId
      else if count < 1 then .error (.count count)
      else match catalog.find? effectId with
        | some effect => .ok { s with effect := some effect }
        | none => .error (.unregistered effectId)

/-- A session that passes the check is the one that was checked, with an effect if it needs one. -/
theorem check_ok {s s' : Session} {catalog : Catalog} {limit : Int64}
    (h : s.check catalog limit = .ok s') :
    s'.id = s.id ∧ s'.request = s.request ∧ s'.context = s.context := by
  unfold check at h
  repeat' split at h
  all_goals cases h
  all_goals exact ⟨rfl, rfl, rfl⟩

/-- The call that starts a repetition. The duration is taken as the unsigned number of the same
bits. -/
def start (s : Session) : Except Setback Call :=
  match s.request, s.effect with
  | .time millis, _ => .ok (.startOnce millis.toUInt64 s.usage s.context.parameter)
  | .preset _ _, some effect => .ok (.startEffect effect s.usage s.context.parameter)
  | .preset effectId _, none => .error (.unresolved effectId)

/-- The longest that a timer runs: thirty years of 365 days. The bound is the timer's own; a session
asks for the whole of its duration and sets no bound to a wait. -/
def longestSpan : Nat := 30 * 365 * 24 * 60 * 60 * 1000

/-- How long one repetition is to last. -/
def wanted (s : Session) : Nat :=
  match s.request, s.effect with
  | .time millis, _ => millis.toUInt64.toNat
  | .preset _ _, some effect => effect.durationMs.toNat
  | .preset _ _, none => 0

/-- How long one repetition lasts. The device is told the wanted time, however long it is, but the
timer that waits for its end is up after `longestSpan` at the latest. -/
def span (s : Session) : Nat := min s.wanted longestSpan

/-- How often a session is played. -/
def repetitions (s : Session) : Nat :=
  match s.request with
  | .time _ => 1
  | .preset _ count => count.toInt.toNat

end Session

/-- How far the most recent session has got. -/
inductive Phase where
  | active
  | completed
  | stopped
  | preempted
  | failed
  deriving DecidableEq, Repr

def Phase.name : Phase → String
  | .active => "active"
  | .completed => "completed"
  | .stopped => "stopped"
  | .preempted => "preempted"
  | .failed => "failed"

/-- What observers see. The mode that they see as well is always that of the request, so it is not
kept beside it: `mode?` derives it. -/
inductive Snapshot where
  | idle
  | session (id : UInt64) (request : Request) (usage : Usage) (phase : Phase)
  deriving DecidableEq, Repr

def Session.snapshot (s : Session) (phase : Phase) : Snapshot :=
  .session s.id s.request s.usage phase

namespace Snapshot

/-- What a session was started for; before the first one there is nothing. -/
def view? : Snapshot → Option View
  | .idle => none
  | .session _ request usage _ => some ⟨request, usage⟩

def phase? : Snapshot → Option Phase
  | .idle => none
  | .session _ _ _ phase => some phase

/-- The mode that observers see; before the first session there is none. -/
def mode? (s : Snapshot) : Option Mode := s.view?.map fun v => v.request.mode

end Snapshot

/-- Why a session is told to end before its time. -/
inductive Signal where
  | stopped
  | preempted
  deriving DecidableEq, Repr

/-- How a session that was active has ended. -/
inductive Ending where
  | completed
  | stopped
  | preempted
  | failed (why : Setback)
  deriving DecidableEq, Repr

/-- A sender that is dropped without a signal counts as one that sends a stop. -/
def Signal.received : Option Signal → Signal
  | some signal => signal
  | none => .stopped

def Signal.ending : Signal → Ending
  | .stopped => .stopped
  | .preempted => .preempted

def Ending.phase : Ending → Phase
  | .completed => .completed
  | .stopped => .stopped
  | .preempted => .preempted
  | .failed _ => .failed

theorem Ending.phase_ne_active (e : Ending) : e.phase ≠ .active := by
  cases e <;> simp [Ending.phase]

end Haptics
