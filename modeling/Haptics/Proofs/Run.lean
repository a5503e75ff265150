import Mathlib.Data.List.Induction
import Haptics.Line.Answer
import Haptics.Proofs.Course

/-! Runs: what may happen to a controller from outside, in any order and as often as one likes. A
request is posted by one event and served by a later one, so requests may come singly, back to back
or from several callers at once. `Job` is what an event makes the controller itself do; a run of the
mailbox is a sequence of jobs for its controller. -/

namespace Haptics

/-- A thing that happens to a controller. -/
inductive Event where
  /-- A caller posts a command, or one that is refused before it gets to the queue. -/
  | post (command : Except Refusal Command)
  /-- A line comes in, and what it asks of the controller is posted. -/
  | line (text : String)
  /-- The command that has waited longest is served. -/
  | serve
  | wait (millis : Nat)
  | shutdown
  deriving Repr

/-- The command that carries out an operation; a question about effects needs none. -/
def Line.Operation.command? : Line.Operation → Option Command
  | .vibrate request => some (.start request {})
  | .startVibration request context => some (.start request context)
  | .stop mode => some (.stop mode)
  | .isSupportEffect _ | .supportedEffects => none

namespace Mailbox

/-- Posts what a line asks for, and does not wait for the answer. -/
def submit (m : Mailbox) (text : String) : Mailbox :=
  match (Line.parse text).2 with
  | .error _ => m
  | .ok operation =>
    match operation.command? with
    | some command => m.post (.ok command)
    | none => m

def step (m : Mailbox) : Event → Mailbox
  | .post command => m.post command
  | .line text => m.submit text
  | .serve => m.serve
  | .wait millis => m.wait millis
  | .shutdown => m.shutdown

def run (m : Mailbox) (events : List Event) : Mailbox := events.foldl step m

@[simp] theorem run_nil (m : Mailbox) : m.run [] = m := rfl

@[simp] theorem run_cons (m : Mailbox) (e : Event) (events : List Event) :
    m.run (e :: events) = (m.step e).run events := rfl

theorem run_append (m : Mailbox) (events events' : List Event) :
    m.run (events ++ events') = (m.run events).run events' := List.foldl_append

theorem run_serve (m : Mailbox) (n : Nat) : m.run (List.replicate n .serve) = n.repeat serve m := by
  induction n with
  | zero => rfl
  | succ n ih =>
    rw [List.replicate_succ', run_append, ih]
    rfl

/-- A call is a posting after which all that waits is served. -/
theorem call_run (m : Mailbox) (command : Except Refusal Command) :
    ∃ n, (m.call command).2 = m.run (.post command :: List.replicate n .serve) :=
  ⟨(m.post command).queue.length, by rw [run_cons, run_serve]; rfl⟩

theorem execute_snd (m : Mailbox) (operation : Line.Operation) :
    (Line.execute m operation).2 =
      match operation.command? with
      | some command => (m.call (.ok command)).2
      | none => m := by
  cases operation <;> rfl

theorem answer_snd (m : Mailbox) (text : String) :
    (Line.answer m text).2 =
      match (Line.parse text).2 with
      | .error _ => m
      | .ok operation => (Line.execute m operation).2 := by
  unfold Line.answer
  rcases Line.parse text with ⟨id, why | operation⟩
  · rfl
  · dsimp only
    split <;> simp_all

/-- Answering a line is a run as well: the line comes in, and what waits then is served. -/
theorem answer_run (m : Mailbox) (text : String) :
    ∃ n, (Line.answer m text).2 = m.run (.line text :: List.replicate n .serve) := by
  have hs : m.step (.line text) = m.submit text := rfl
  rw [answer_snd]
  simp only [run_cons, hs, submit]
  split
  · exact ⟨0, rfl⟩
  · rw [execute_snd]
    split
    · exact m.call_run _
    · exact ⟨0, rfl⟩

end Mailbox

/-! ## Jobs -/

/-- What a controller is made to do. -/
inductive Job where
  | rest
  | start (request : Request) (context : Context)
  | stop (mode : Option Mode)
  | wait (millis : Nat)
  | finish
  deriving DecidableEq, Repr

def Command.job : Command → Job
  | .start request context => .start request context
  | .stop mode => .stop mode

/-- What an event makes the controller do: a posting nothing, a serving the command whose turn it
is. -/
def Mailbox.job (m : Mailbox) : Event → Job
  | .post _ | .line _ => .rest
  | .serve => (m.queue.head?.map fun q => q.2.job).getD .rest
  | .wait millis => .wait millis
  | .shutdown => if m.alive then .finish else .rest

def Controller.work (c : Controller) : Job → Controller
  | .rest => c
  | .start request context => (c.start request context).2
  | .stop mode => (c.stop mode).2
  | .wait millis => c.wait millis
  | .finish => c.teardown .stopped

namespace Mailbox

@[simp] theorem post_controller (m : Mailbox) (command : Except Refusal Command) :
    (m.post command).controller = m.controller := by
  unfold post
  split
  · rfl
  · dsimp only
    split
    · rfl
    · split <;> rfl

@[simp] theorem submit_controller (m : Mailbox) (text : String) :
    (m.submit text).controller = m.controller := by
  unfold submit
  split
  · rfl
  · split
    · exact m.post_controller _
    · rfl

@[simp] theorem close_controller (m : Mailbox) : m.close.controller = m.controller := by
  have h : ∀ (queue : List (Nat × Command)) (m : Mailbox),
      (queue.foldl (fun m q => m.resolve q.1 (.error (.failed .abandoned))) m).controller =
        m.controller := by
    intro queue
    induction queue with
    | nil => exact fun _ => rfl
    | cons q queue ih => exact fun m => ih _
  exact h _ _

theorem process_controller (m : Mailbox) (ticket : Nat) (command : Command) :
    (m.process ticket command).controller = m.controller.work command.job := by
  cases command with
  | start request context =>
    unfold process
    rcases h : m.controller.start request context with ⟨answer | answer, c⟩ <;>
      simp [Command.job, Controller.work, resolve, h]
  | stop mode => rfl

theorem step_controller (m : Mailbox) (e : Event) :
    (m.step e).controller = m.controller.work (m.job e) := by
  cases e with
  | post command => exact m.post_controller command
  | line text => exact m.submit_controller text
  | serve =>
    simp only [step, serve, job]
    split
    · rename_i h
      rw [h]
      rfl
    · rename_i ticket command queue h
      rw [process_controller, h]
      rfl
  | wait millis => rfl
  | shutdown =>
    simp only [step, shutdown, job]
    split
    · exact close_controller _
    · rfl

end Mailbox

/-! ## Runs from the start -/

/-- What a controller is brought up with. Its device has not been called yet; nothing is said about
which calls the driver fails. -/
structure Setup where
  settings : Settings := {}
  catalog : Catalog := {}
  policy : Policy
  rejected : List Rejection := []
  faults : Nat → Option Fault := fun _ => none

namespace Setup

def device (s : Setup) : Device := { motor := { rejected := s.rejected }, faults := s.faults }

def mailbox (s : Setup) : Mailbox :=
  { controller :=
    { settings := s.settings, catalog := s.catalog, policy := s.policy, device := s.device } }

/-- A controller that comes up at all comes up like this. -/
theorem mailbox_eq_of_open? {s : Setup} {scheduler : Bool} {m : Mailbox}
    (h : Mailbox.open? scheduler s.settings s.catalog s.policy s.device = .ok m) :
    m = s.mailbox := by
  unfold Mailbox.open? at h
  repeat' split at h
  all_goals cases h
  rfl

def run (s : Setup) (events : List Event) : Mailbox := s.mailbox.run events

/-- The controller after a run. -/
def after (s : Setup) (events : List Event) : Controller := (s.run events).controller

theorem run_append (s : Setup) (events events' : List Event) :
    s.run (events ++ events') = (s.run events).run events' := s.mailbox.run_append events events'

theorem run_snoc (s : Setup) (events : List Event) (e : Event) :
    s.run (events ++ [e]) = (s.run events).step e := s.run_append events [e]

theorem after_snoc (s : Setup) (events : List Event) (e : Event) :
    s.after (events ++ [e]) = (s.after events).work ((s.run events).job e) := by
  rw [after, run_snoc, Mailbox.step_controller]
  rfl

/-! ## A run to try things on -/

/-- One short effect, and the rules as they are unless told otherwise. -/
def sample : Setup := { catalog := .ofList [⟨"tick", 50⟩], policy := Arbitration.policy {} }

/-- A plain run is taken over by a preset that repeats and is then in its second repetition. -/
def sampleEvents : List Event :=
  [.post (.ok (.start (.time 100) {})), .serve, .wait 30,
    .post (.ok (.start (.preset "tick" 3) { usage := .ring })), .serve, .wait 70]

end Setup

end Haptics
