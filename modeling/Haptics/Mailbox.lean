import Haptics.Controller

/-! The controller behind its command queue. Whoever posts a command gets a ticket, under which the
answer turns up later. Commands are served one at a time in the order in which they were posted. -/

namespace Haptics

inductive Command where
  | start (request : Request) (context : Context)
  | stop (mode : Option Mode)
  deriving DecidableEq, Repr

/-- The stop for a mode given by name. -/
def Command.stopNamed (name : Option String) : Except Refusal Command :=
  match name.mapM Mode.parse with
  | .ok mode => .ok (.stop mode)
  | .error why => .error (.invalid why)

structure Mailbox where
  controller : Controller
  /-- Whether the controller still serves. -/
  alive : Bool := true
  /-- The commands that wait, with their tickets. -/
  queue : List (Nat × Command) := []
  /-- The next ticket. -/
  posted : Nat := 0
  resolved : Array (Nat × Answer) := #[]

/-- Why a controller does not come up. -/
inductive LaunchError where
  | maxDuration (given : Int64)
  | noQueue
  | noScheduler
  /-- No queue can be that large; this ends the program instead of being reported. -/
  | queueTooLarge
  deriving DecidableEq, Repr

def LaunchError.message? : LaunchError → Option String
  | .maxDuration given =>
    some s!"Initialization error: max_duration_ms must be positive, got {given}"
  | .noQueue => some "Initialization error: command_buffer must be at least 1"
  | .noScheduler => some "Initialization error: no tokio runtime: "
  | .queueTooLarge => none

namespace Mailbox

/-- The most commands a queue can be made for. -/
def maxCapacity : UInt64 := 2305843009213693951

/-- Brings a controller up; `scheduler` says whether there is something to run it on. -/
def open? (scheduler : Bool) (settings : Settings) (catalog : Catalog) (policy : Policy)
    (device : Device) : Except LaunchError Mailbox :=
  if settings.maxDurationMs ≤ 0 then .error (.maxDuration settings.maxDurationMs)
  else if settings.commandBuffer = 0 then .error .noQueue
  else if !scheduler then .error .noScheduler
  else if maxCapacity < settings.commandBuffer then .error .queueTooLarge
  else .ok { controller := { settings, catalog, policy, device } }

def capacity (m : Mailbox) : Nat := m.controller.settings.commandBuffer.toNat

def resolve (m : Mailbox) (ticket : Nat) (answer : Answer) : Mailbox :=
  { m with resolved := m.resolved.push (ticket, answer) }

def answer? (m : Mailbox) (ticket : Nat) : Option Answer :=
  (m.resolved.find? fun r => r.1 == ticket).map Prod.snd

/-- Queues a command, if there is room and somebody to serve it; what was refused before does not
get as far as the queue. -/
def post (m : Mailbox) (command : Except Refusal Command) : Mailbox :=
  let ticket := m.posted
  let m := { m with posted := ticket + 1 }
  match command with
  | .error why => m.resolve ticket (.error why)
  | .ok command =>
    if !m.alive then m.resolve ticket (.error (.failed .notRunning))
    else if m.capacity ≤ m.queue.length then m.resolve ticket (.error (.failed .queueFull))
    else { m with queue := m.queue ++ [(ticket, command)] }

/-- The controller is gone: what waits is never served. -/
def close (m : Mailbox) : Mailbox :=
  m.queue.foldl (fun m q => m.resolve q.1 (.error (.failed .abandoned)))
    { m with alive := false, queue := [] }

/-- Serves one command. If the device crashes in it the controller is gone. -/
def process (m : Mailbox) (ticket : Nat) : Command → Mailbox
  | .start request context =>
    match m.controller.start request context with
    | (some answer, controller) => { m with controller }.resolve ticket answer
    | (none, controller) =>
      ({ m with controller }.resolve ticket (.error (.failed .abandoned))).close
  | .stop mode =>
    let (answer, controller) := m.controller.stop mode
    { m with controller }.resolve ticket answer

/-- Serves the command that has waited longest. -/
def serve (m : Mailbox) : Mailbox :=
  match m.queue with
  | [] => m
  | (ticket, command) :: queue => { m with queue }.process ticket command

/-- Serves all that wait. -/
def drain (m : Mailbox) : Mailbox := m.queue.length.repeat serve m

/-- Posts a command and waits for its answer. -/
def call (m : Mailbox) (command : Except Refusal Command) : Answer × Mailbox :=
  let ticket := m.posted
  let m := (m.post command).drain
  ((m.answer? ticket).getD (.error (.failed .abandoned)), m)

def wait (m : Mailbox) (millis : Nat) : Mailbox :=
  { m with controller := m.controller.wait millis }

/-- Ends the controller together with the session that plays. A second time there is nothing left
to end. -/
def shutdown (m : Mailbox) : Mailbox :=
  if m.alive then { m with controller := m.controller.teardown .stopped }.close else m

/-- Whether an effect is known; the controller is not asked. -/
def supports (m : Mailbox) (effectId : String) : Bool := m.controller.catalog.contains effectId

def effects (m : Mailbox) : List String := m.controller.catalog.ids

end Mailbox

end Haptics
