import Haptics.Session

/-! Playing a session. Instants are milliseconds of a clock that the caller moves: what is due at an
instant happens when the clock is moved there, before anything else at that instant. -/

namespace Haptics

/-- An active session. The repetition that is running is over at `due`, and `left` more are to come,
each begun by the call `start`. -/
structure Playback where
  session : Session
  start : Call
  due : Nat
  left : Nat
  deriving DecidableEq, Repr

/-- What comes of the first start of a session. -/
inductive Activation where
  | active (p : Playback)
  | failed (why : Setback)
  | crashed
  deriving DecidableEq, Repr

/-- Starts the device for the first repetition. A preset without its catalog entry fails without
asking the device. -/
def Session.activate (s : Session) (now : Nat) (d : Device) : Activation × Device :=
  match s.start with
  | .error why => (.failed why, d)
  | .ok call =>
    match d.perform now call with
    | (.done, d) => (.active ⟨s, call, now + s.span, s.repetitions - 1⟩, d)
    | (.refused why, d) => (.failed (.device why), d)
    | (.crashed, d) => (.crashed, d)

/-- How a playback stands. One that crashes is over without an ending. -/
inductive Progress where
  | playing (p : Playback)
  | ended (instant : Nat) (how : Ending)
  | crashed
  deriving DecidableEq, Repr

namespace Playback

/-- Stops the device at the end of a repetition or on a signal; false if the call crashes. A stop
that the device refuses counts as done. -/
def halt (p : Playback) (now : Nat) (d : Device) : Bool × Device :=
  match d.perform now (.stop p.session.mode) with
  | (.crashed, d) => (false, d)
  | (_, d) => (true, d)

theorem perform_of_halt {p : Playback} {now : Nat} {d d' : Device} {done : Bool}
    (h : p.halt now d = (done, d')) :
    ∃ outcome, d.perform now (.stop p.session.mode) = (outcome, d') ∧
      (outcome = .crashed ↔ done = false) := by
  unfold halt at h
  split at h <;> cases h
  · exact ⟨.crashed, by assumption, by simp⟩
  · rename_i o hc ho
    exact ⟨o, ho, by simpa using hc⟩

/-- Plays what is due up to the instant `t`: a repetition that is over is stopped and the next one
started. -/
def run (t : Nat) (p : Playback) (due : Nat) (d : Device) : Nat → Progress × Device
  | 0 =>
    if t < due then (.playing { p with due, left := 0 }, d)
    else match p.halt due d with
      | (false, d) => (.crashed, d)
      | (true, d) => (.ended due .completed, d)
  | left + 1 =>
    if t < due then (.playing { p with due, left := left + 1 }, d)
    else match p.halt due d with
      | (false, d) => (.crashed, d)
      | (true, d) =>
        match d.perform due p.start with
        | (.done, d) => run t p (due + p.session.span) d left
        | (.refused why, d) => (.ended due (.failed (.device why)), d)
        | (.crashed, d) => (.crashed, d)

def advance (t : Nat) (p : Playback) (d : Device) : Progress × Device := p.run t p.due d p.left

/-- The instant at which the last repetition is over. -/
def horizon (p : Playback) : Nat := p.due + p.left * p.session.span

/-- Ends the playback on a signal. -/
def interrupt (now : Nat) (signal : Signal) (p : Playback) (d : Device) : Progress × Device :=
  match p.halt now d with
  | (false, d) => (.crashed, d)
  | (true, d) => (.ended now signal.ending, d)

/-- Plays to the end, or until a signal comes. -/
def play (p : Playback) (signal : Option (Nat × Signal)) (d : Device) : Progress × Device :=
  match signal with
  | none => p.advance p.horizon d
  | some (t, signal) =>
    match p.advance t d with
    | (.playing p, d) => p.interrupt t signal d
    | result => result

end Playback

end Haptics
