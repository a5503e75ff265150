import Haptics.Proofs.Moves

/-! The desk at which commands are served, looked at closely. Serving takes a while: a command is
first taken out of the queue, which makes room there, and answered later; others may be posted in
between, and the controller does not end before the answer. A run of the mailbox is a run of the
desk in which every command is answered as soon as it is taken. -/

namespace Haptics

/-! ## Commands and their answers -/

/-- What a line asks of the controller. -/
def Line.command? (text : String) : Option Command :=
  match (Line.parse text).2 with
  | .ok operation => operation.command?
  | .error _ => none

/-- The command that an event brings to the queue. -/
def Event.command? : Event → Option Command
  | .post (.ok command) => some command
  | .line text => Line.command? text
  | _ => none

namespace Controller

/-- What a command is answered with; nothing if the device crashes in it. -/
def reply? (c : Controller) : Command → Option Answer
  | .start request context => (c.start request context).1
  | .stop mode => some (c.stop mode).1

/-- What the controller says of itself is never what the queue says in its place. -/
theorem reply?_ne {c : Controller} {command : Command} {why : Failed}
    (h : c.reply? command = some (.error (.failed why))) :
    why ≠ .queueFull ∧ why ≠ .notRunning ∧ why ≠ .abandoned := by
  cases command with
  | start request context =>
    have hs := c.start_dealt request context
    simp only [reply?] at h
    generalize c.start request context = r at hs h
    cases hs with
    | invalid | denied => cases h
    | conflict => cases h; exact ⟨nofun, nofun, nofun⟩
    | @launched s =>
      have hl := ({ c.teardown .preempted with nextId := c.nextId + 1 }).launch_launched s
      generalize ({ c.teardown .preempted with nextId := c.nextId + 1 }).launch s = r at hl h
      cases hl with
      | active | crashed => cases h
      | refused | unresolved => cases h; exact ⟨nofun, nofun, nofun⟩
  | stop mode =>
    have hs := c.stop_heeded mode
    simp only [reply?] at h
    generalize c.stop mode = r at hs h
    cases hs <;> cases h

theorem work_settings (c : Controller) (job : Job) : (c.work job).settings = c.settings :=
  (c.work_moves job).grows.settings

end Controller

/-! ## Queueing -/

namespace Mailbox

/-- The next ticket is answered at once. -/
def decline (m : Mailbox) (why : Refusal) : Mailbox :=
  { m with posted := m.posted + 1 }.resolve m.posted (.error why)

/-- The next ticket is queued with its command. -/
def enqueue (m : Mailbox) (command : Command) : Mailbox :=
  { m with posted := m.posted + 1, queue := m.queue ++ [(m.posted, command)] }

/-- The controller does a job. -/
def work (m : Mailbox) (job : Job) : Mailbox := { m with controller := m.controller.work job }

/-- What is said of a ticket whose command nobody serves any more. -/
def abandon (entry : Nat × Command) : Nat × Answer := (entry.1, .error (.failed .abandoned))

section Fields
variable (m : Mailbox) (why : Refusal) (command : Command) (job : Job) (ticket : Nat)
  (answer : Answer)

@[simp] theorem decline_queue : (m.decline why).queue = m.queue := rfl
@[simp] theorem decline_alive : (m.decline why).alive = m.alive := rfl
@[simp] theorem decline_posted : (m.decline why).posted = m.posted + 1 := rfl
@[simp] theorem decline_controller : (m.decline why).controller = m.controller := rfl
@[simp] theorem enqueue_queue : (m.enqueue command).queue = m.queue ++ [(m.posted, command)] := rfl
@[simp] theorem enqueue_alive : (m.enqueue command).alive = m.alive := rfl
@[simp] theorem enqueue_posted : (m.enqueue command).posted = m.posted + 1 := rfl
@[simp] theorem enqueue_controller : (m.enqueue command).controller = m.controller := rfl
@[simp] theorem enqueue_resolved : (m.enqueue command).resolved = m.resolved := rfl
@[simp] theorem decline_capacity : (m.decline why).capacity = m.capacity := rfl
@[simp] theorem enqueue_capacity : (m.enqueue command).capacity = m.capacity := rfl
@[simp] theorem work_queue : (m.work job).queue = m.queue := rfl
@[simp] theorem work_posted : (m.work job).posted = m.posted := rfl
@[simp] theorem work_resolved : (m.work job).resolved = m.resolved := rfl
@[simp] theorem work_controller : (m.work job).controller = m.controller.work job := rfl
@[simp] theorem resolve_queue : (m.resolve ticket answer).queue = m.queue := rfl
@[simp] theorem resolve_posted : (m.resolve ticket answer).posted = m.posted := rfl
@[simp] theorem resolve_controller : (m.resolve ticket answer).controller = m.controller := rfl

@[simp] theorem resolve_toList : (m.resolve ticket answer).resolved.toList =
    m.resolved.toList ++ [(ticket, answer)] := Array.toList_push

@[simp] theorem decline_resolved :
    (m.decline why).resolved = m.resolved.push (m.posted, .error why) := rfl

end Fields

theorem post_ok (m : Mailbox) (command : Command) :
    m.post (.ok command) =
      if !m.alive then m.decline (.failed .notRunning)
      else if m.capacity ≤ m.queue.length then m.decline (.failed .queueFull)
      else m.enqueue command := rfl

theorem post_of_dead {m : Mailbox} (h : m.alive = false) (command : Command) :
    m.post (.ok command) = m.decline (.failed .notRunning) := by
  rw [post_ok, h]
  rfl

theorem post_of_full {m : Mailbox} (h : m.alive = true) (hq : m.capacity ≤ m.queue.length)
    (command : Command) : m.post (.ok command) = m.decline (.failed .queueFull) := by
  rw [post_ok, h, if_pos hq]
  rfl

theorem post_of_room {m : Mailbox} (h : m.alive = true) (hq : m.queue.length < m.capacity)
    (command : Command) : m.post (.ok command) = m.enqueue command := by
  rw [post_ok, h, if_neg (Nat.not_le.mpr hq)]
  rfl

theorem submit_eq (m : Mailbox) (text : String) :
    m.submit text = match Line.command? text with
      | some command => m.post (.ok command)
      | none => m := by
  unfold submit Line.command?
  rcases (Line.parse text).2 with _ | _ <;> rfl

theorem step_of_command (m : Mailbox) {e : Event} {command : Command}
    (h : e.command? = some command) : m.step e = m.post (.ok command) := by
  cases e with
  | post c =>
    cases c with
    | ok c => cases h; rfl
    | error => cases h
  | line text =>
    have h : Line.command? text = some command := h
    simp only [step, submit_eq, h]
  | serve | wait | shutdown => cases h

theorem close_eq (m : Mailbox) :
    m.close = { m with
      alive := false
      queue := []
      resolved := m.resolved ++ (m.queue.map abandon).toArray } := by
  have h : ∀ (queue : List (Nat × Command)) (m : Mailbox),
      queue.foldl (fun m q => m.resolve q.1 (.error (.failed .abandoned))) m =
        { m with resolved := m.resolved ++ (queue.map abandon).toArray } := by
    intro queue
    induction queue with
    | nil => exact fun m => by simp
    | cons q queue ih =>
      intro m
      rw [List.foldl_cons, ih]
      simp [resolve, abandon]
  exact h _ _

@[simp] theorem close_queue (m : Mailbox) : m.close.queue = [] := by rw [close_eq]

@[simp] theorem close_alive (m : Mailbox) : m.close.alive = false := by rw [close_eq]

@[simp] theorem close_posted (m : Mailbox) : m.close.posted = m.posted := by rw [close_eq]

@[simp] theorem close_toList (m : Mailbox) :
    m.close.resolved.toList = m.resolved.toList ++ m.queue.map abandon := by
  rw [close_eq]
  simp

theorem process_of_reply {m : Mailbox} {command : Command} {answer : Answer}
    (h : m.controller.reply? command = some answer) (ticket : Nat) :
    m.process ticket command = (m.work command.job).resolve ticket answer := by
  cases command with
  | start request context =>
    rcases hs : m.controller.start request context with ⟨a, c⟩
    simp only [Controller.reply?, hs] at h
    simp [process, Command.job, work, Controller.work, hs, h]
  | stop mode =>
    cases h
    rfl

theorem process_of_crash {m : Mailbox} {command : Command}
    (h : m.controller.reply? command = none) (ticket : Nat) :
    m.process ticket command =
      ((m.work command.job).resolve ticket (.error (.failed .abandoned))).close := by
  cases command with
  | start request context =>
    rcases hs : m.controller.start request context with ⟨a, c⟩
    simp only [Controller.reply?, hs] at h
    simp [process, Command.job, work, Controller.work, hs, h]
  | stop mode => cases h

end Mailbox

/-! ## The desk -/

/-- A mailbox, and the command that is being served. -/
structure Desk where
  box : Mailbox
  hand : Option (Nat × Command) := none

namespace Desk

/-- Serving takes two steps: the first takes a command, the second answers it. In between the
controller cannot be ended. -/
def step (d : Desk) : Event → Desk
  | .serve =>
    match d.hand, d.box.queue with
    | some (ticket, command), _ => ⟨d.box.process ticket command, none⟩
    | none, [] => d
    | none, q :: queue => ⟨{ d.box with queue }, some q⟩
  | .shutdown => if d.hand.isSome then d else { d with box := d.box.shutdown }
  | e => { d with box := d.box.step e }

def run (d : Desk) (events : List Event) : Desk := events.foldl step d

@[simp] theorem run_nil (d : Desk) : d.run [] = d := rfl

@[simp] theorem run_cons (d : Desk) (e : Event) (events : List Event) :
    d.run (e :: events) = (d.step e).run events := rfl

theorem run_append (d : Desk) (events events' : List Event) :
    d.run (events ++ events') = (d.run events).run events' := List.foldl_append

theorem run_snoc (d : Desk) (events : List Event) (e : Event) :
    d.run (events ++ [e]) = (d.run events).step e := d.run_append events [e]

/-- An event with nothing in between the taking of a command and its answer. -/
def whole : Event → List Event
  | .serve => [.serve, .serve]
  | e => [e]

theorem run_whole (m : Mailbox) (e : Event) : (Desk.mk m none).run (whole e) = ⟨m.step e, none⟩ := by
  cases e with
  | serve =>
    rcases hq : m.queue with _ | ⟨⟨ticket, command⟩, queue⟩
    · simp [whole, step, Mailbox.step, Mailbox.serve, hq]
    · simp [whole, step, Mailbox.step, Mailbox.serve, hq]
  | post | line | wait | shutdown => rfl

/-- The runs of a mailbox are runs of the desk. -/
theorem run_box (m : Mailbox) (events : List Event) :
    (Desk.mk m none).run (events.flatMap whole) = ⟨m.run events, none⟩ := by
  induction events generalizing m with
  | nil => rfl
  | cons e events ih => rw [List.flatMap_cons, run_append, run_whole, ih, Mailbox.run_cons]

/-! ## The ways a step may go -/

/-- The commands without an answer, in the order in which they are served. -/
def pending (d : Desk) : List (Nat × Command) := d.hand.toList ++ d.box.queue

@[simp] theorem pending_mk (box : Mailbox) (hand : Option (Nat × Command)) :
    (Desk.mk box hand).pending = hand.toList ++ box.queue := rfl

/-- The ways a step may go. -/
inductive Turn (d : Desk) : Event → Desk → Prop where
  | malformed {why : Refusal} : Turn d (.post (.error why)) ⟨d.box.decline why, d.hand⟩
  | unserved {e : Event} {command : Command} : e.command? = some command → d.box.alive = false →
      Turn d e ⟨d.box.decline (.failed .notRunning), d.hand⟩
  | full {e : Event} {command : Command} : e.command? = some command → d.box.alive = true →
      d.box.capacity ≤ d.box.queue.length →
      Turn d e ⟨d.box.decline (.failed .queueFull), d.hand⟩
  | queued {e : Event} {command : Command} : e.command? = some command → d.box.alive = true →
      d.box.queue.length < d.box.capacity → Turn d e ⟨d.box.enqueue command, d.hand⟩
  | still {e : Event} : e.command? = none → (e = .serve → d.pending = []) → Turn d e d
  | waited (millis : Nat) : Turn d (.wait millis) ⟨d.box.work (.wait millis), d.hand⟩
  | taken {q : Nat × Command} {queue : List (Nat × Command)} : d.hand = none →
      d.box.queue = q :: queue → Turn d .serve ⟨{ d.box with queue }, some q⟩
  | answered {ticket : Nat} {command : Command} {answer : Answer} : d.hand = some (ticket, command) →
      d.box.controller.reply? command = some answer →
      Turn d .serve ⟨(d.box.work command.job).resolve ticket answer, none⟩
  | crashed {ticket : Nat} {command : Command} : d.hand = some (ticket, command) →
      d.box.controller.reply? command = none →
      Turn d .serve ⟨((d.box.work command.job).resolve ticket (.error (.failed .abandoned))).close,
        none⟩
  | ended : d.hand = none → d.box.alive = true → Turn d .shutdown ⟨(d.box.work .finish).close, none⟩

theorem step_of_command (d : Desk) {e : Event} {command : Command}
    (h : e.command? = some command) : d.step e = ⟨d.box.post (.ok command), d.hand⟩ := by
  have hs := d.box.step_of_command h
  cases e with
  | post | line => exact congrArg (Desk.mk · d.hand) hs
  | serve | wait | shutdown => cases h

theorem post_turn (d : Desk) {e : Event} {command : Command} (h : e.command? = some command) :
    Turn d e (d.step e) := by
  rw [d.step_of_command h]
  cases ha : d.box.alive with
  | false =>
    rw [Mailbox.post_of_dead ha]
    exact .unserved h ha
  | true =>
    rcases Nat.lt_or_ge d.box.queue.length d.box.capacity with hq | hq
    · rw [Mailbox.post_of_room ha hq]
      exact .queued h ha hq
    · rw [Mailbox.post_of_full ha hq]
      exact .full h ha hq

theorem step_turn (d : Desk) (e : Event) : Turn d e (d.step e) := by
  cases e with
  | post command =>
    cases command with
    | ok command => exact d.post_turn rfl
    | error why => exact .malformed
  | line text =>
    cases h : Line.command? text with
    | some command => exact d.post_turn h
    | none =>
      have hs : d.step (.line text) = d := by
        simp only [step, Mailbox.step, Mailbox.submit_eq, h]
      rw [hs]
      exact .still h (by simp)
  | serve =>
    rcases d with ⟨box, _ | ⟨ticket, command⟩⟩
    · rcases hq : box.queue with _ | ⟨q, queue⟩
      · have hs : (Desk.mk box none).step .serve = ⟨box, none⟩ := by simp only [step, hq]
        rw [hs]
        exact .still rfl fun _ => by rw [pending_mk, hq]; rfl
      · simpa [step, hq] using Turn.taken (d := ⟨box, none⟩) rfl hq
    · cases hr : box.controller.reply? command with
      | some answer =>
        have hp := Mailbox.process_of_reply hr ticket
        simpa [step, hp] using Turn.answered (d := ⟨box, some (ticket, command)⟩) rfl hr
      | none =>
        have hp := Mailbox.process_of_crash hr ticket
        simpa [step, hp] using Turn.crashed (d := ⟨box, some (ticket, command)⟩) rfl hr
  | wait millis => exact .waited millis
  | shutdown =>
    have quiet : Turn d .shutdown d := .still rfl (by simp)
    rcases d with ⟨box, _ | q⟩
    · cases ha : box.alive with
      | true =>
        simpa [step, Mailbox.shutdown, Mailbox.work, Controller.work, ha] using
          Turn.ended (d := ⟨box, none⟩) rfl ha
      | false => simpa [step, Mailbox.shutdown, ha] using quiet
    · exact quiet

end Desk

end Haptics
