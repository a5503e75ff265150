import Haptics.Proofs.Alone
import Haptics.Proofs.Delivery
import Haptics.Proofs.History
import Haptics.Proofs.Unseen

/-! After the end. A controller ends when it is shut down, or when the device crashes in a first start.
Either way no session is left in its slot, so that from then on nothing goes on but the clock. -/

namespace Haptics

/-! ## Crashes in a playback -/

theorem Device.perform_intact {d d' : Device} {now : Nat} {call : Call} {outcome : Outcome}
    (h : d.perform now call = (outcome, d')) (ho : outcome ≠ .crashed) (hd : d.Intact) :
    d'.Intact := by
  intro e he
  rw [perform_log_toList h] at he
  rcases List.mem_append.mp he with he | he
  · exact hd e he
  · rw [List.mem_singleton.mp he]
    exact ho

theorem Playback.halt_intact {p : Playback} {now : Nat} {d d' : Device}
    (h : p.halt now d = (true, d')) (hd : d.Intact) : d'.Intact := by
  obtain ⟨outcome, hp, ho⟩ := perform_of_halt h
  exact Device.perform_intact hp (by simpa using ho) hd

/-- Only a playback that crashes leaves a crash behind. -/
theorem Playback.Course.intact {p : Playback} {how : Ending} {d : Device} {r : Progress × Device}
    (h : Course p how d r) (hr : r.1 ≠ .crashed) (hd : d.Intact) : r.2.Intact := by
  induction h with
  | pause => exact hd
  | again hh hs _ ih => exact ih hr (Device.perform_intact hs (by simp) (halt_intact hh hd))
  | halted hh => exact halt_intact hh hd
  | refused hh hs => exact Device.perform_intact hs (by simp) (halt_intact hh hd)
  | haltCrashed | startCrashed => exact absurd rfl hr

namespace Controller

/-- Whether the session that plays crashes in a job, as it plays on or when it is told to end. -/
def breaks (c : Controller) (job : Job) : Bool :=
  match c.slot with
  | .playing p =>
    match job with
    | .wait millis => (p.advance (c.now + millis) c.device).1 = .crashed
    | job =>
      match c.signal? job with
      | some signal => (p.interrupt c.now signal c.device).1 = .crashed
      | none => false
  | _ => false

section Breaks
variable {c : Controller} {job : Job}

theorem teardown_intact {signal : Signal} (hs : c.signal? job = some signal)
    (hb : c.breaks job = false) (hi : c.device.Intact) : (c.teardown signal).device.Intact := by
  cases hp : c.slot with
  | free | spent => rwa [teardown_of_not_playing (by rw [hp]; rfl)]
  | playing p =>
    rw [teardown_eq_settle hp, settle_device]
    refine (p.interrupt_course c.now signal c.device).intact ?_ hi
    cases job with
    | rest | wait => cases hs
    | start | stop | finish => simpa [breaks, hp, hs] using hb

theorem wait_intact {millis : Nat} (hb : c.breaks (.wait millis) = false) (hi : c.device.Intact) :
    (c.wait millis).device.Intact := by
  cases hp : c.slot with
  | free | spent => rwa [wait_of_not_playing (by rw [hp]; rfl)]
  | playing p =>
    rw [wait_of_playing hp, settle_device]
    exact (p.advance_course (c.now + millis) c.device).intact (by simpa [breaks, hp] using hb) hi

theorem signal?_of_accepted {s : Session} {request : Request} {context : Context}
    (hc : c.candidate request context = .ok s) (hg : c.settings.granted = true)
    (ho : c.objection? s = none) : c.signal? (.start request context) = some .preempted := by
  simp [signal?, accepts, hc, hg, ho]

/-- Where no playback crashes, a job leaves a crash behind only if the controller itself crashes in
it. -/
theorem work_intact (hb : c.breaks job = false) (hi : c.device.Intact)
    (hr : ∀ command : Command, job = command.job → c.reply? command ≠ none) :
    (c.work job).device.Intact := by
  cases job with
  | rest => exact hi
  | wait millis => exact wait_intact hb hi
  | finish => exact teardown_intact rfl hb hi
  | stop mode =>
    have hs := c.stop_heeded mode
    have hw : c.work (.stop mode) = (c.stop mode).2 := rfl
    generalize c.stop mode = r at hs hw
    rw [hw]
    cases hs with
    | denied | ignored => exact hi
    | idle => rwa [release_device]
    | @stopped p hg hp hm =>
      have hmode : c.slot.mode? = some p.session.mode := by rw [hp]; rfl
      have hs : c.signal? (.stop mode) = some .stopped := if_pos ⟨hg, hmode ▸ hm⟩
      exact teardown_intact hs hb hi
  | start request context =>
    have hn := hr (.start request context) rfl
    have hs := c.start_dealt request context
    have hw : c.work (.start request context) = (c.start request context).2 := rfl
    simp only [reply?] at hn
    generalize c.start request context = r at hs hw hn
    rw [hw]
    cases hs with
    | invalid | denied => exact hi
    | conflict => rwa [release_device]
    | @launched s hc hg ho =>
      have ht : (c.teardown .preempted).device.Intact :=
        teardown_intact (signal?_of_accepted hc hg ho) hb hi
      have hl := { c.teardown .preempted with nextId := c.nextId + 1 }.launch_launched s
      generalize { c.teardown .preempted with nextId := c.nextId + 1 }.launch s = r at hl hn
      cases hl with
      | active _ hc | refused _ hc => exact Device.perform_intact hc (by simp) ht
      | unresolved => exact ht
      | crashed => exact absurd rfl hn

/-- A crash of the controller comes after the slot was cleared for the session it launches. -/
theorem start_of_crash {request : Request} {context : Context}
    (h : (c.start request context).1 = none) :
    c.signal? (.start request context) = some .preempted ∧
      (c.start request context).2.slot = .free ∧
      (c.start request context).2.history = (c.teardown .preempted).history := by
  have hs := c.start_dealt request context
  generalize c.start request context = r at hs h ⊢
  cases hs with
  | invalid | denied | conflict => cases h
  | @launched s hc hg ho =>
    have hf : (c.teardown .preempted).slot = .free := c.teardown_slot .preempted
    have hl := { c.teardown .preempted with nextId := c.nextId + 1 }.launch_launched s
    generalize { c.teardown .preempted with nextId := c.nextId + 1 }.launch s = r at hl h ⊢
    cases hl with
    | active | refused | unresolved => cases h
    | crashed => exact ⟨signal?_of_accepted hc hg ho, hf, rfl⟩

end Breaks

end Controller

namespace Mailbox

/-- Whether a session crashes in the course of events while it plays. -/
def breaks (m : Mailbox) : List Event → Bool
  | [] => false
  | e :: events => m.controller.breaks (m.job e) || (m.step e).breaks events

/-! ## The end -/

/-- The controller has ended and has left nothing behind. -/
structure Over (m : Mailbox) : Prop where
  alive : m.alive = false
  queue : m.queue = []
  slot : m.controller.slot = .free

/-- The event in which a controller ends clears its slot, as it would with a signal to the session
that plays, and publishes nothing after that. -/
structure Closes (m : Mailbox) (e : Event) : Prop where
  ended : (m.step e).Over
  cleared : ∃ signal, m.controller.signal? (m.job e) = some signal ∧
    (m.step e).controller.history = (m.controller.teardown signal).history

theorem alive_of_post (m : Mailbox) (command : Except Refusal Command) :
    (m.post command).alive = m.alive := by
  cases command with
  | error why => rfl
  | ok command =>
    rw [post_ok]
    split
    · rfl
    · split <;> rfl

theorem alive_of_submit (m : Mailbox) (text : String) : (m.submit text).alive = m.alive := by
  rw [submit_eq]
  split
  · exact m.alive_of_post _
  · rfl

/-- A controller ends when it is shut down, or when it crashes as it serves a start. -/
theorem closes_of_ended {m : Mailbox} {e : Event} (ha : m.alive = true)
    (hd : (m.step e).alive = false) : m.Closes e := by
  have hc := m.step_controller e
  have still : (m.step e).alive ≠ m.alive := by
    rw [hd, ha]
    exact Bool.false_ne_true
  cases e with
  | post command => exact absurd (m.alive_of_post command) still
  | line text => exact absurd (m.alive_of_submit text) still
  | wait millis => exact absurd rfl still
  | shutdown =>
    have hj : m.job .shutdown = .finish := if_pos ha
    have hs : m.step .shutdown = (m.work .finish).close := if_pos ha
    rw [hj] at hc
    refine ⟨⟨hd, by rw [hs, close_queue], ?_⟩, .stopped, by rw [hj]; rfl, by rw [hc]; rfl⟩
    rw [hc]
    exact m.controller.teardown_slot .stopped
  | serve =>
    rcases hq : m.queue with _ | ⟨⟨ticket, command⟩, queue⟩
    · exact absurd (by simp only [step, serve, hq]) still
    · have hj : m.job .serve = command.job := by rw [job, hq]; rfl
      have hs : m.step .serve = { m with queue }.process ticket command := by
        simp only [step, serve, hq]
      cases hr : m.controller.reply? command with
      | some answer =>
        rw [hs, process_of_reply (m := { m with queue }) hr] at still
        exact absurd rfl still
      | none =>
        rw [hj] at hc
        cases command with
        | stop mode => cases hr
        | start request context =>
          obtain ⟨hsignal, hslot, hh⟩ := Controller.start_of_crash hr
          refine ⟨⟨hd, ?_, by rw [hc]; exact hslot⟩, .preempted, by rw [hj]; exact hsignal,
            by rw [hc]; exact hh⟩
          rw [hs, process_of_crash (m := { m with queue }) hr, close_queue]

namespace Over
variable {m : Mailbox}

/-- After the end only the clock goes on. -/
theorem step (h : m.Over) (e : Event) :
    (m.step e).Over ∧ ∃ now, (m.step e).controller = { m.controller with now } := by
  have declined (why : Refusal) : (m.decline why).Over := ⟨h.alive, h.queue, h.slot⟩
  cases e with
  | post command =>
    refine ⟨?_, m.controller.now, m.post_controller command⟩
    cases command with
    | error why => exact declined why
    | ok command =>
      rw [Mailbox.step, post_of_dead h.alive]
      exact declined _
  | line text =>
    refine ⟨?_, m.controller.now, m.submit_controller text⟩
    rw [Mailbox.step, submit_eq]
    split
    · rw [post_of_dead h.alive]
      exact declined _
    · exact h
  | serve =>
    rw [step_serve_of_empty h.queue]
    exact ⟨h, m.controller.now, rfl⟩
  | wait millis =>
    have hw := Controller.wait_of_not_playing (c := m.controller) (by rw [h.slot]; rfl) millis
    refine ⟨⟨h.alive, h.queue, ?_⟩, _, hw⟩
    rw [show (m.step (.wait millis)).controller = m.controller.wait millis from rfl, hw]
    exact h.slot
  | shutdown =>
    have hs : m.step .shutdown = m := by simp [Mailbox.step, shutdown, h.alive]
    rw [hs]
    exact ⟨h, m.controller.now, rfl⟩

theorem run (h : m.Over) (events : List Event) :
    (m.run events).Over ∧ ∃ now, (m.run events).controller = { m.controller with now } := by
  induction events generalizing m with
  | nil => exact ⟨h, m.controller.now, rfl⟩
  | cons e events ih =>
    obtain ⟨hs, now, hc⟩ := h.step e
    obtain ⟨hr, now', hc'⟩ := ih hs
    exact ⟨hr, now', by rw [run_cons, hc', hc]⟩

end Over

/-! ## Up to the end -/

theorem breaks_append (m : Mailbox) (events events' : List Event) :
    m.breaks (events ++ events') = (m.breaks events || (m.run events).breaks events') := by
  induction events generalizing m with
  | nil => rfl
  | cons e events ih => rw [List.cons_append, breaks, breaks, ih, run_cons, Bool.or_assoc]

/-- The controller does not live to answer a command in which it crashes. -/
theorem alive_of_crash {m : Mailbox} {e : Event} {command : Command}
    (hj : m.job e = command.job) (hr : m.controller.reply? command = none) :
    (m.step e).alive = false := by
  cases e with
  | post | line | wait => cases command <;> cases hj
  | shutdown =>
    rw [job] at hj
    split at hj <;> cases command <;> cases hj
  | serve =>
    rcases hq : m.queue with _ | ⟨⟨ticket, command'⟩, queue⟩
    · rw [job, hq] at hj
      cases command <;> cases hj
    · rw [job, hq] at hj
      have hcc : command' = command := by
        cases command <;> cases command' <;> cases hj <;> rfl
      rw [step, serve, hq]
      simp only [hcc]
      rw [process_of_crash (m := { m with queue }) hr, close_alive]

theorem step_intact {m : Mailbox} {e : Event} (ha : (m.step e).alive = true)
    (hb : m.controller.breaks (m.job e) = false) (hi : m.controller.device.Intact) :
    (m.step e).controller.device.Intact := by
  rw [step_controller]
  refine Controller.work_intact hb hi fun command hj hr => ?_
  rw [alive_of_crash hj hr] at ha
  cases ha

/-- As long as the controller lives and no playback has crashed, nothing has. -/
theorem run_intact {m : Mailbox} {events : List Event} (hm : m.alive = true)
    (ha : (m.run events).alive = true) (hb : m.breaks events = false)
    (hi : m.controller.device.Intact) : (m.run events).controller.device.Intact := by
  induction events generalizing m with
  | nil => exact hi
  | cons e events ih =>
    obtain ⟨hb, hbs⟩ := Bool.or_eq_false_iff.mp hb
    cases hs : (m.step e).alive with
    | true => exact ih hs ha hbs (step_intact hs hb hi)
    | false =>
      rw [run_cons, ((closes_of_ended hm hs).ended.run events).1.alive] at ha
      cases ha

end Mailbox

namespace Setup

/-- A run in which the controller ends has one event in which it does. -/
theorem closes_of_run (s : Setup) {events : List Event} (hd : (s.run events).alive = false) :
    ∃ earlier e later, events = earlier ++ e :: later ∧ (s.run earlier).alive = true ∧
      (s.run earlier).Closes e := by
  induction events using List.reverseRecOn with
  | nil => cases hd
  | append_singleton events e ih =>
    cases ha : (s.run events).alive with
    | true =>
      rw [run_snoc] at hd
      exact ⟨events, e, [], rfl, ha, Mailbox.closes_of_ended ha hd⟩
    | false =>
      obtain ⟨earlier, e', later, rfl, hl, hc⟩ := ih ha
      exact ⟨earlier, e', later ++ [e], by simp, hl, hc⟩

/-- What is declined keeps its answer. -/
theorem answer_of_declined (s : Setup) (events : List Event) {e : Event} {why : Refusal}
    (h : (s.run events).step e = (s.run events).decline why) (later : List Event) :
    ((s.run events).run (e :: later)).answer? (s.run events).posted = some (.error why) := by
  have hk := (s.run_kept events).decline why
  have ha := Desk.answer_of_declined (d := ⟨s.run events, none⟩) hk (later.flatMap Desk.whole)
  rwa [Desk.run_box, ← h] at ha

theorem call_of_declined (s : Setup) (events : List Event) {command : Except Refusal Command}
    {why : Refusal} (h : (s.run events).post command = (s.run events).decline why) :
    ((s.run events).call command).1 = .error why := by
  have ha := s.answer_of_declined events (e := .post command) h
    (List.replicate ((s.run events).post command).queue.length .serve)
  rw [Mailbox.run_cons, Mailbox.run_serve] at ha
  simp only [Mailbox.call, Mailbox.drain]
  rw [show (s.run events).step (.post command) = (s.run events).post command from rfl] at ha
  rw [ha]
  rfl

/-! ## Ended for good -/

/-- Whether a session crashes in a run while it plays. -/
def breaks (s : Setup) (events : List Event) : Bool := s.mailbox.breaks events

section End
variable {s : Setup} {events earlier : List Event} {e : Event}

theorem breaks_append (s : Setup) (events events' : List Event) :
    s.breaks (events ++ events') = (s.breaks events || (s.run events).breaks events') :=
  s.mailbox.breaks_append events events'

theorem breaks_snoc (s : Setup) (events : List Event) (e : Event) :
    s.breaks (events ++ [e]) = (s.breaks events || (s.after events).breaks ((s.run events).job e)) := by
  rw [breaks_append, Mailbox.breaks, Mailbox.breaks, Bool.or_false, after]

theorem intact_of_alive (hl : (s.run events).alive = true) (hb : s.breaks events = false) :
    (s.after events).device.Intact :=
  Mailbox.run_intact rfl hl hb (by rintro e ⟨⟩)

theorem closes_of_shutdown (hl : (s.run events).alive = true) :
    (s.run events).Closes .shutdown := by
  refine Mailbox.closes_of_ended hl ?_
  rw [show (s.run events).step .shutdown = ((s.run events).work .finish).close from if_pos hl]
  exact Mailbox.close_alive _

/-- The session that plays has ended before the controller has. -/
theorem phase_of_closes (hl : (s.run earlier).alive = true) (hc : (s.run earlier).Closes e)
    (hb : s.breaks (earlier ++ [e]) = false) :
    (s.after (earlier ++ [e])).snapshot.phase? ≠ some .active := by
  obtain ⟨hb, hbe⟩ := Bool.or_eq_false_iff.mp ((s.breaks_snoc earlier e).symm.trans hb)
  have hi := intact_of_alive hl hb
  obtain ⟨signal, hs, hh⟩ := hc.cleared
  have ht := Controller.teardown_intact hs hbe hi
  obtain ⟨closed, htells, -⟩ := s.tells earlier hi
  rw [Controller.snapshot_eq, after, run_snoc, hh, ← Controller.snapshot_eq]
  exact (htells.teardown ht).phase_of_not_playing (by rw [Controller.teardown_slot]; rfl)

/-- A shutdown ends the session that plays as stopped. -/
theorem history_of_shutdown {p : Playback} (hl : (s.run earlier).alive = true)
    (hp : (s.after earlier).slot = .playing p) (hb : s.breaks (earlier ++ [.shutdown]) = false) :
    (s.after (earlier ++ [.shutdown])).history =
      (s.after earlier).history ++ [p.session.snapshot .stopped] := by
  have hj : (s.run earlier).job .shutdown = .finish := if_pos hl
  obtain ⟨hb, hbe⟩ := Bool.or_eq_false_iff.mp ((s.breaks_snoc earlier .shutdown).symm.trans hb)
  rw [hj] at hbe
  have hs : (s.after earlier).signal? .finish = some .stopped := rfl
  have ht : ((s.after earlier).teardown .stopped).device.Intact :=
    Controller.teardown_intact hs hbe (intact_of_alive hl hb)
  obtain ⟨d, hd⟩ := Controller.teardown_of_playing hp ht
  rw [after_snoc, hj]
  exact (congrArg Controller.history hd).trans (Controller.publish_history ..)

/-- From the event on in which a controller ends only the clock goes on. -/
theorem over_of_closes (hc : (s.run earlier).Closes e) (later : List Event) :
    (s.run (earlier ++ e :: later)).Over ∧
      ∃ now, s.after (earlier ++ e :: later) = { s.after (earlier ++ [e]) with now } := by
  have ho : (s.run (earlier ++ [e])).Over := by
    rw [run_snoc]
    exact hc.ended
  rw [after, List.append_cons, run_append]
  exact ho.run later

/-- An orderly controller runs its motor only for a session, and none is left. -/
theorem engaged_of_over (ho : (s.run events).Over)
    (hs : ∀ e ∈ (s.after events).device.log.toList, e.isFailedStop = false) :
    (s.after events).device.motor.engaged = none := by
  rw [← Option.not_isSome_iff_eq_none]
  intro hm
  obtain ⟨p, hp⟩ := (s.orderly events).playing_of_engaged hs hm
  have hf : (s.after events).slot = .free := ho.slot
  rw [hf] at hp
  cases hp

theorem post_of_over (ho : (s.run events).Over) (command : Command) :
    (s.run events).post (.ok command) = (s.run events).decline (.failed .notRunning) :=
  Mailbox.post_of_dead ho.alive command

end End

end Setup

/-- **An ended controller stays ended.** Take a controller that has been shut down or has crashed in
a first start, and let no stop have failed and no session have crashed while it played. Then the
motor is off, and the session that played, if any, has ended; as stopped if it was a shutdown.
From then on nothing is published, the device is not called, and every start and stop is answered
alike, whatever it asks for. Only a stop in a mode that there is not is still answered as such. -/
theorem ended_for_good (s : Setup) (events : List Event) (hd : (s.run events).alive = false)
    (hs : ∀ e ∈ (s.after events).device.log.toList, e.isFailedStop = false)
    (hb : s.breaks events = false) :
    let m := s.run events
    m.controller.device.motor.engaged = none ∧
    m.controller.snapshot.phase? ≠ some .active ∧
    (∀ earlier later p, events = earlier ++ .shutdown :: later → (s.run earlier).alive = true →
      (s.after earlier).slot = .playing p →
      m.controller.history = (s.after earlier).history ++ [p.session.snapshot .stopped]) ∧
    ∀ later,
      let m' := m.run later
      m'.controller.published = m.controller.published ∧
      m'.controller.device = m.controller.device ∧
      (∀ command, (m'.call (.ok command)).1 = .error (.failed .notRunning)) ∧
      (∀ command rest, (m'.run (.post (.ok command) :: rest)).answer? m'.posted =
        some (.error (.failed .notRunning))) ∧
      (∀ name why, Mode.parse name = .error why →
        (m'.call (Command.stopNamed (some name))).1 = .error (.invalid why)) ∧
      (∀ id, m'.supports id = s.mailbox.supports id) ∧
      m'.effects = s.mailbox.effects ∧
      m'.shutdown = m' := by
  intro m
  obtain ⟨earlier, e, rest, he, hl, hc⟩ := s.closes_of_run hd
  obtain ⟨ho, now, hn⟩ := Setup.over_of_closes hc rest
  rw [← he] at ho hn
  have hsplit : s.breaks (earlier ++ [e]) = false := by
    rw [he, List.append_cons, s.breaks_append] at hb
    exact (Bool.or_eq_false_iff.mp hb).1
  refine ⟨?_, ?_, fun earlier later p he hl hp => ?_, fun later => ?_⟩
  · exact Setup.engaged_of_over ho hs
  · rw [show m.controller = _ from hn]
    exact Setup.phase_of_closes hl hc hsplit
  · obtain ⟨-, now, hn⟩ := Setup.over_of_closes (Setup.closes_of_shutdown hl) later
    rw [← he] at hn
    rw [he, List.append_cons, s.breaks_append] at hb
    rw [show m.controller = _ from hn]
    exact Setup.history_of_shutdown hl hp (Bool.or_eq_false_iff.mp hb).1
  · intro m'
    obtain ⟨ho', now', hn'⟩ := ho.run later
    have hr : m' = s.run (events ++ later) := (s.run_append events later).symm
    have hcatalog : m'.controller.catalog = s.mailbox.controller.catalog := by
      rw [hr]
      exact s.catalog_run _
    rw [← Setup.run_append] at ho'
    refine ⟨(congrArg Controller.published hn' :), (congrArg Controller.device hn' :), fun command => ?_,
      fun command rest => ?_, fun name why hw => ?_, fun id => ?_, ?_, ?_⟩
    · rw [hr]
      exact s.call_of_declined _ (Setup.post_of_over ho' command)
    · rw [hr]
      exact s.answer_of_declined _ (e := .post (.ok command)) (Setup.post_of_over ho' command) rest
    · have hstop : Command.stopNamed (some name) = .error (.invalid why) := by
        simp [Command.stopNamed, hw]
      rw [hstop, hr]
      exact s.call_of_declined _ rfl
    · rw [Mailbox.supports, hcatalog]
      rfl
    · rw [Mailbox.effects, hcatalog]
      rfl
    · rw [hr]
      exact if_neg (by simp [ho'.alive])

/-- The device crashes as a preset is started, after the plain run before it was ended. -/
theorem ended_for_good_sample :
    let s := { Setup.sample with faults := fun n => if n = 3 then some .crash else none }
    (s.run Setup.sampleEvents).alive = false ∧
      (∀ e ∈ (s.after Setup.sampleEvents).device.log.toList, e.isFailedStop = false) ∧
      s.breaks Setup.sampleEvents = false ∧
      (s.run Setup.sampleEvents).controller.device.motor.engaged = none ∧
      (((s.run Setup.sampleEvents).run [.wait 10]).call (.ok (.stop none))).1 =
        .error (.failed .notRunning) := by
  intro s
  have hd : (s.run Setup.sampleEvents).alive = false := by decide
  have hs : ∀ e ∈ (s.after Setup.sampleEvents).device.log.toList, e.isFailedStop = false := by decide
  have hb : s.breaks Setup.sampleEvents = false := by decide
  obtain ⟨hm, -, -, hlater⟩ := ended_for_good s Setup.sampleEvents hd hs hb
  exact ⟨hd, hs, hb, hm, (hlater [.wait 10]).2.2.1 _⟩

end Haptics
