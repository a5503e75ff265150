import Haptics.Playback

/-! The controller owns the one slot in which a session plays. Every session it accepts gets a fresh
number; before a new one is started the one that plays is ended, so the motor never serves two.
Whatever becomes of a session is published. -/

namespace Haptics

structure Settings where
  /-- The longest plain run that is accepted, in milliseconds. -/
  maxDurationMs : Int64 := 1800000
  /-- How many commands may wait. -/
  commandBuffer : UInt64 := 64
  /-- Whether vibrations may be started and stopped at all. -/
  granted : Bool := true
  deriving DecidableEq, Repr

/-- A session that has ended keeps the slot until the next command that looks at it. -/
inductive Slot where
  | free
  | playing (p : Playback)
  | spent (s : Session)
  deriving DecidableEq, Repr

structure Publication where
  instant : Nat
  snapshot : Snapshot
  deriving DecidableEq, Repr

structure Controller where
  settings : Settings := {}
  catalog : Catalog
  policy : Policy
  device : Device
  slot : Slot := .free
  nextId : UInt64 := 1
  now : Nat := 0
  published : Array Publication := #[⟨0, .idle⟩]

namespace Controller

/-- The snapshot that was published last. -/
def snapshot (c : Controller) : Snapshot := (c.published.back?.map Publication.snapshot).getD .idle

def publish (c : Controller) (instant : Nat) (snapshot : Snapshot) : Controller :=
  { c with published := c.published.push ⟨instant, snapshot⟩ }

/-- Takes over what has become of the session in the slot. A playback that crashed is over without a
word. -/
def settle (c : Controller) (s : Session) : Progress × Device → Controller
  | (.playing p, device) => { c with slot := .playing p, device }
  | (.ended instant how, device) =>
    { c with slot := .spent s, device }.publish instant (s.snapshot how.phase)
  | (.crashed, device) => { c with slot := .spent s, device }

/-- Lets time pass. -/
def wait (c : Controller) (millis : Nat) : Controller :=
  let c := { c with now := c.now + millis }
  match c.slot with
  | .playing p => c.settle p.session (p.advance c.now c.device)
  | _ => c

/-- Frees the slot if its session has ended. -/
def release (c : Controller) : Controller :=
  match c.slot with
  | .spent _ => { c with slot := .free }
  | _ => c

/-- Ends the session in the slot, if it still plays, and frees the slot. -/
def teardown (c : Controller) (signal : Signal) : Controller :=
  match c.slot with
  | .playing p =>
    { c.settle p.session (p.interrupt c.now signal c.device) with slot := .free }
  | _ => { c with slot := .free }

/-- What the policy says against an incoming session; nothing if no session plays. -/
def objection? (c : Controller) (incoming : Session) : Option String :=
  match c.slot with
  | .playing p =>
    match c.policy p.session.view incoming.view with
    | .ok () => none
    | .error reason => some reason
  | _ => none

/-- Gives the session the slot and starts it. No answer comes if the device crashes. -/
def launch (c : Controller) (s : Session) : Option Answer × Controller :=
  match s.activate c.now c.device with
  | (.active p, device) =>
    (some (.ok ()), { c with slot := .playing p, device }.publish c.now (s.snapshot .active))
  | (.failed why, device) =>
    (some (.error (.failed (.setback why))), { c with device }.publish c.now (s.snapshot .failed))
  | (.crashed, device) => (none, { c with device })

/-- A start is checked first, then permitted, then weighed against the session that plays. Only what
passes all three uses up a number and ends that session. -/
def start (c : Controller) (request : Request) (context : Context) : Option Answer × Controller :=
  match Session.check ⟨c.nextId, request, context, none⟩ c.catalog c.settings.maxDurationMs with
  | .error why => (some (.error (.invalid why)), c)
  | .ok s =>
    if c.settings.granted then
      let c := c.release
      match c.objection? s with
      | some reason => (some (.error (.failed (.conflict reason))), c)
      | none => ({ c with nextId := c.nextId + 1 }.teardown .preempted).launch s
    else (some (.error .denied), c)

/-- Stops the session that plays if it plays in `mode`, or in any mode if none is given. It is no
error if there is nothing to stop. -/
def stop (c : Controller) (mode : Option Mode) : Answer × Controller :=
  if c.settings.granted then
    let c := c.release
    match c.slot with
    | .playing p =>
      if mode = none ∨ mode = some p.session.mode then (.ok (), c.teardown .stopped)
      else (.ok (), c)
    | _ => (.ok (), c)
  else (.error .denied, c)

end Controller

end Haptics
