import Haptics.Proofs.Calls
import Haptics.Proofs.Unseen

/-! Sessions that have ended but still have the slot. Nobody can tell such a slot from a free one, at
whatever point of a run one looks and however things go on. -/

namespace Haptics

namespace Controller

/-! ## Starts that find no session playing -/

/-- Nothing stands in the way of a start but its checks and the permission, and it ends no other
session: what it publishes is about its own session, and what it calls is a start for that. -/
structure Unopposed (c : Controller) (request : Request) (context : Context) : Prop where
  accepts : c.accepts (.start request context) = true ↔
    c.settings.granted = true ∧ ∃ s, c.candidate request context = .ok s
  answer : ∀ reason, (c.start request context).1 ≠ some (.error (.failed (.conflict reason)))
  history : ∃ new, (c.start request context).2.history = c.history ++ new ∧
    ∀ x ∈ new, ∃ phase, x = .session c.nextId request context.usage phase
  calls : ∃ calls, (c.start request context).2.device.log.toList = c.device.log.toList ++ calls ∧
    ∀ e ∈ calls, e.call.starts? = some request.mode

theorem objection?_of_not_playing {c : Controller} (h : c.slot.playing? = none) (s : Session) :
    c.objection? s = none := by
  unfold objection?
  split
  · rename_i p hp
    rw [hp] at h
    cases h
  · rfl

/-- A launch publishes nothing but a snapshot of its session, and calls nothing but its start. -/
theorem launch_adds (c : Controller) (s : Session) :
    (∃ new, (c.launch s).2.history = c.history ++ new ∧ ∀ x ∈ new, ∃ phase, x = s.snapshot phase) ∧
    ∃ calls, (c.launch s).2.device.log.toList = c.device.log.toList ++ calls ∧
      ∀ e ∈ calls, e.call.starts? = some s.mode := by
  have hl := c.launch_launched s
  generalize c.launch s = r at hl ⊢
  cases hl with
  | active hs hc | refused hs hc =>
    refine ⟨⟨_, publish_history .., ?_⟩, _, Device.perform_log_toList hc, ?_⟩
    · simp
    · simpa using Session.start_starts hs
  | unresolved => exact ⟨⟨_, publish_history .., by simp⟩, [], by simp, by simp⟩
  | crashed hs hc =>
    refine ⟨⟨[], (List.append_nil _).symm, by simp⟩, _, Device.perform_log_toList hc, ?_⟩
    simpa using Session.start_starts hs

theorem unopposed_of_not_playing {c : Controller} (h : c.slot.playing? = none) (request : Request)
    (context : Context) : c.Unopposed request context := by
  have ho := objection?_of_not_playing h
  have ha : c.accepts (.start request context) = true ↔
      c.settings.granted = true ∧ ∃ s, c.candidate request context = .ok s := by
    unfold accepts
    dsimp only
    split <;> simp_all
  have hs := c.start_dealt request context
  generalize hr : c.start request context = r at hs
  cases hs with
  | invalid | denied =>
    refine ⟨ha, fun reason => ?_, ⟨[], ?_, by simp⟩, [], ?_, by simp⟩ <;> simp [hr]
  | @conflict s _ _ _ hc =>
    rw [ho s] at hc
    cases hc
  | @launched s hc =>
    obtain ⟨hid, hreq, hctx⟩ : s.id = c.nextId ∧ s.request = request ∧ s.context = context :=
      Session.check_ok hc
    obtain ⟨⟨new, hh, hnew⟩, calls, hl, hcalls⟩ :=
      launch_adds { c.teardown .preempted with nextId := c.nextId + 1 } s
    rw [teardown_of_not_playing h] at hr hh hl
    refine ⟨ha, fun reason he => ?_, ⟨new, hr ▸ hh, fun x hx => ?_⟩, calls, hr ▸ hl, fun e he => ?_⟩
    · rw [hr] at he
      cases Spurns.launch_early he
    · obtain ⟨phase, rfl⟩ := hnew x hx
      exact ⟨phase, by rw [Session.snapshot, hid, hreq, Session.usage, hctx]⟩
    · rw [← hreq]
      exact hcalls e he

/-! ## Emptying the slot -/

/-- The same controller with the slot free. -/
def vacated (c : Controller) : Controller := { c with slot := .free }

theorem vacated_alike {c : Controller} {s : Session} (h : c.slot = .spent s) :
    c.vacated.Alike c := by
  rw [vacated, ← release_of_spent h]
  exact c.release_alike

end Controller

/-! ## The desk -/

@[simp] theorem reticket_zero {α : Type} : reticket (α := α) 0 = id := rfl

/-- The same but for an ended session in the slot. -/
structure Desk.Alike (d d' : Desk) : Prop where
  box : Mailbox.Shifted 0 [] [] d.box d'.box
  hand : d'.hand = d.hand

namespace Desk

/-- The same desk with the slot free. -/
def vacated (d : Desk) : Desk :=
  { d with box := { d.box with controller := d.box.controller.vacated } }

theorem vacated_alike {d : Desk} {s : Session} (h : d.box.controller.slot = .spent s) :
    d.Alike d.vacated :=
  ⟨⟨Controller.vacated_alike h, rfl, by simp [vacated], rfl, d.box.resolved.toList, by simp [vacated]⟩,
    rfl⟩

namespace Alike
variable {d d' : Desk}

theorem step (h : d.Alike d') (e : Event) : (d.step e).Alike (d'.step e) := by
  obtain ⟨box, _⟩ := d
  obtain ⟨box', hand⟩ := d'
  obtain ⟨hbox, hhand⟩ := h
  simp only at hbox hhand
  subst hhand
  cases e with
  | post command => exact ⟨hbox.post command, rfl⟩
  | line text => exact ⟨hbox.step (.line text), rfl⟩
  | wait millis => exact ⟨hbox.work (.wait millis), rfl⟩
  | serve =>
    cases hand with
    | some q => exact ⟨hbox.process q.1 q.2, rfl⟩
    | none =>
      have hq : box'.queue = box.queue := by simpa using hbox.queue
      rcases hb : box.queue with _ | ⟨q, queue⟩
      · have hd : Desk.Alike ⟨box, none⟩ ⟨box', none⟩ := ⟨hbox, rfl⟩
        simpa [Desk.step, hq, hb] using hd
      · have ht : Mailbox.Shifted 0 [] [] { box with queue } { box' with queue } :=
          ⟨hbox.controller, hbox.alive, by simp, hbox.posted, hbox.resolved⟩
        have hd : Desk.Alike ⟨_, some q⟩ ⟨_, some q⟩ := ⟨ht, rfl⟩
        simpa [Desk.step, hq, hb] using hd
  | shutdown =>
    cases hand with
    | some q => exact ⟨hbox, rfl⟩
    | none => exact ⟨hbox.step .shutdown, rfl⟩

theorem run (h : d.Alike d') (events : List Event) : (d.run events).Alike (d'.run events) := by
  induction events generalizing d d' with
  | nil => exact h
  | cons e events ih => exact ih (h.step e)

end Alike

end Desk

/-- **Ended sessions are unseen.** Take any point of a run at which the slot still holds a session
that has ended, in whatever way, and the same desk with the slot free. However things go on, both
publish the same, call the device alike and give the same answers, under the same tickets and to every
call and every line. And the ended session stands in the way of no start and comes to no second end
by one. -/
theorem ended_session_unseen (s : Setup) (events : List Event) {ended : Session}
    (h : (s.desk events).box.controller.slot = .spent ended) :
    let d := s.desk events
    (∀ later,
      let m := (d.run later).box
      let m' := (d.vacated.run later).box
      m'.controller.published = m.controller.published ∧
      m'.controller.device = m.controller.device ∧
      m'.resolved = m.resolved ∧ m'.posted = m.posted ∧ m'.queue = m.queue ∧ m'.alive = m.alive ∧
      (d.vacated.run later).hand = (d.run later).hand ∧
      (∀ command, (m'.call command).1 = (m.call command).1) ∧
      ∀ text, (Line.answer m' text).1 = (Line.answer m text).1) ∧
    ∀ request context, d.box.controller.Unopposed request context := by
  intro d
  refine ⟨fun later => ?_, Controller.unopposed_of_not_playing (by rw [h]; rfl)⟩
  obtain ⟨hbox, hhand⟩ := (Desk.vacated_alike h).run later
  obtain ⟨new, hr, hr'⟩ := hbox.resolved
  have hresolved : (d.vacated.run later).box.resolved = (d.run later).box.resolved :=
    Array.toList_inj.mp (by rw [hr, hr']; simp)
  exact ⟨hbox.controller.published, hbox.controller.device, hresolved, hbox.posted,
    by simpa using hbox.queue, hbox.alive, hhand, fun command => hbox.call (by simp) (by simp) command,
    fun text => hbox.reply (by simp) (by simp) text⟩

/-- A plain run is over but has kept the slot; a preset that would not have been let in while it
played starts as if the slot were free. -/
theorem ended_session_unseen_sample :
    let s := { Setup.sample with policy := fun _ _ => .error "busy" }
    let d := s.desk [.post (.ok (.start (.time 100) {})), .serve, .serve, .wait 100]
    let command : Command := .start (.preset "tick" 3) {}
    d.box.controller.slot = .spent ⟨1, .time 100, {}, none⟩ ∧
      (d.vacated.box.call (.ok command)).1 = (d.box.call (.ok command)).1 ∧
      d.box.controller.accepts command.job = true := by
  intro s d command
  have hs : d.box.controller.slot = .spent ⟨1, .time 100, {}, none⟩ := by decide
  have hg : d.box.controller.settings.granted = true := by decide
  have hc : d.box.controller.candidate (.preset "tick" 3) {} =
      .ok ⟨2, .preset "tick" 3, {}, some ⟨"tick", 50⟩⟩ := by decide
  obtain ⟨hlater, hstart⟩ := ended_session_unseen s _ hs
  have hu : d.box.controller.Unopposed (.preset "tick" 3) {} := hstart _ _
  obtain ⟨-, -, -, -, -, -, -, hcall, -⟩ := hlater []
  have hcall := hcall (.ok command)
  rw [Desk.run_nil, Desk.run_nil] at hcall
  exact ⟨hs, hcall, hu.accepts.mpr ⟨hg, _, hc⟩⟩

end Haptics
