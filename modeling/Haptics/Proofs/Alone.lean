import Haptics.Proofs.Alike
import Haptics.Proofs.Calls
import Haptics.Proofs.Checked
import Haptics.Proofs.Clock

/-! Sessions on their own. Between the start of a session and its end the controller does nothing to
the device but on behalf of that session, and what it does is what the session would do if it were
played alone. -/

namespace Haptics

namespace Controller

/-! ## Signals -/

/-- The signal that a job sends to the session that plays. -/
def signal? (c : Controller) : Job → Option Signal
  | .start request context => if c.accepts (.start request context) then some .preempted else none
  | .stop mode =>
    if c.settings.granted ∧ (mode = none ∨ mode = c.slot.mode?) then some .stopped else none
  | .finish => some .stopped
  | .rest | .wait _ => none

/-- What a job does while a session plays, with the signal that it sends to it: nothing, but for
letting time pass; or it ends the session, and after that the log only grows. -/
inductive Heard (c : Controller) (job : Job) : Option Signal → Prop where
  | ignored : c.work job = c → Heard c job none
  | waited {millis : Nat} : job = .wait millis → Heard c job none
  | signalled {signal : Signal} : (c.teardown signal).device.Grows (c.work job).device →
      Heard c job (some signal)

section Signals
variable {c : Controller} {p : Playback}

theorem job_heard (hp : c.slot = .playing p) (job : Job) : c.Heard job (c.signal? job) := by
  cases job with
  | rest => exact .ignored rfl
  | wait millis => exact .waited rfl
  | finish => exact .signalled (.refl _)
  | start request context =>
    have hs := c.start_dealt request context
    have hw : c.work (.start request context) = (c.start request context).2 := rfl
    unfold signal? accepts
    generalize c.start request context = r at hs hw
    cases hs with
    | invalid hc => simpa [hc] using Heard.ignored hw
    | denied hc hg => simpa [hc, hg] using Heard.ignored hw
    | conflict hc hg ho =>
      have hr : c.release = c := release_eq_self (by simp [hp])
      simpa [hc, hg, ho] using Heard.ignored (hw.trans hr)
    | @launched s hc hg ho =>
      have hl := (launch_grows { c.teardown .preempted with nextId := c.nextId + 1 } s).device
      rw [← hw] at hl
      have ht : c.Heard (.start request context) (some .preempted) := .signalled hl
      simpa [hc, hg, ho] using ht
  | stop mode =>
    have hs := c.stop_heeded mode
    have hw : c.work (.stop mode) = (c.stop mode).2 := rfl
    have hm : c.slot.mode? = some p.session.mode := by rw [hp]; rfl
    unfold signal?
    generalize c.stop mode = r at hs hw
    cases hs with
    | denied hg => simpa [hg] using Heard.ignored hw
    | ignored hg hp' hn =>
      cases hp.symm.trans hp'
      simpa [hg, hm, hn] using Heard.ignored hw
    | idle _ hn => simp [hp, Slot.playing?] at hn
    | stopped hg hp' hn =>
      cases hp.symm.trans hp'
      have ht : (c.teardown .stopped).device.Grows (c.work (.stop mode)).device := hw ▸ .refl _
      simpa [hg, hm, hn] using Heard.signalled ht

/-- An accepted start launches a session once the slot has been cleared for it. -/
theorem start_of_accepts {request : Request} {context : Context}
    (h : c.accepts (.start request context) = true) :
    ∃ s, c.candidate request context = .ok s ∧ (c.start request context).2 =
      ({ c.teardown .preempted with nextId := c.nextId + 1 }.launch s).2 := by
  have hs := c.start_dealt request context
  unfold accepts at h
  generalize c.start request context = r at hs ⊢
  cases hs with
  | invalid hc => simp [hc] at h
  | denied hc hg => simp [hc, hg] at h
  | conflict hc hg ho => simp [hc, hg, ho] at h
  | @launched s hc => exact ⟨s, hc, rfl⟩

/-- A session that is sent a signal ends as it would if it were played alone. -/
theorem teardown_play (hp : c.slot = .playing p) (hd : c.now < p.due) {signal : Signal}
    (hi : (c.teardown signal).device.Intact) :
    p.play (some (c.now, signal)) c.device = (.ended c.now signal.ending, (c.teardown signal).device) ∧
      (c.teardown signal).published =
        c.published.push ⟨c.now, p.session.snapshot signal.ending.phase⟩ := by
  have ht := teardown_eq_settle hp signal
  have hplay : p.play (some (c.now, signal)) c.device = p.interrupt c.now signal c.device := by
    rw [Playback.play, Playback.advance_of_lt hd]
  have hc := p.interrupt_course c.now signal c.device
  rw [hplay, ht]
  rw [ht] at hi
  rcases hh : p.halt c.now c.device with ⟨_ | _, d⟩
  · simp only [Playback.interrupt, hh] at hc hi
    exact absurd hi (hc.not_intact rfl)
  · simp only [Playback.interrupt, hh]
    exact ⟨rfl, rfl⟩

end Signals

end Controller

namespace Mailbox

/-! ## Following a session -/

/-- How the session that plays comes to its end in the course of events: the signal that it gets and
when, if it gets one, and the controller right after that; nothing if it plays on. -/
def farewell (m : Mailbox) : List Event → Option (Option (Nat × Signal) × Controller)
  | [] =>
    match m.controller.slot.playing? with
    | some _ => none
    | none => some (none, m.controller)
  | e :: events =>
    match m.controller.slot.playing?, m.controller.signal? (m.job e) with
    | none, _ => some (none, m.controller)
    | some _, some signal => some (some (m.controller.now, signal), m.controller.teardown signal)
    | some _, none => (m.step e).farewell events

theorem farewell_of_over {m : Mailbox} (h : m.controller.slot.playing? = none) (events : List Event) :
    m.farewell events = some (none, m.controller) := by
  cases events <;> rw [farewell, h]

theorem run_device_grows (m : Mailbox) (events : List Event) :
    m.controller.device.Grows (m.run events).controller.device :=
  (m.run_moves events).grows.device

/-- The session `s` plays to the end of the events, or it ends as it would by way of `play`, which
gets the signal that was sent; no signal was sent before `now`. -/
inductive Fares (m : Mailbox) (events : List Event) (s : Session) (now : Nat)
    (play : Option (Nat × Signal) → Progress × Device) : Prop where
  | playing {q : Playback} : m.farewell events = none →
      (m.run events).controller.slot = .playing q → q.session = s → Fares m events s now play
  | ended {sent : Option (Nat × Signal)} {c : Controller} {instant : Nat} {how : Ending}
      {before : Array Publication} : m.farewell events = some (sent, c) → (∀ x ∈ sent, now ≤ x.1) →
      play sent = (.ended instant how, c.device) →
      c.published = before.push ⟨instant, s.snapshot how.phase⟩ → Fares m events s now play

section Fares
variable {m : Mailbox} {e : Event} {events : List Event} {s : Session} {p : Playback}
  {now later : Nat} {play play' : Option (Nat × Signal) → Progress × Device}

/-- A session fares as it does after one more event, if that sends it no signal. -/
theorem Fares.cons (h : (m.step e).Fares events s later play')
    (hf : m.farewell (e :: events) = (m.step e).farewell events) (hn : now ≤ later)
    (hp : ∀ sent : Option (Nat × Signal), (∀ x ∈ sent, later ≤ x.1) → play sent = play' sent) :
    m.Fares (e :: events) s now play := by
  cases h with
  | playing hfare hq hs => exact .playing (hf.trans hfare) hq hs
  | ended hfare hle hplay hpub =>
    exact .ended (hf.trans hfare) (fun x hx => Nat.le_trans hn (hle x hx))
      ((hp _ hle).trans hplay) hpub

theorem farewell_of_silent (hp : m.controller.slot = .playing p)
    (hs : m.controller.signal? (m.job e) = none) :
    m.farewell (e :: events) = (m.step e).farewell events := by
  rw [farewell, hs, hp]
  rfl

/-- A signal ends the session at once. -/
theorem fares_of_signal (hp : m.controller.slot = .playing p) (hd : m.controller.now < p.due)
    {signal : Signal} (hs : m.controller.signal? (m.job e) = some signal)
    (hi : (m.controller.teardown signal).device.Intact) :
    m.Fares (e :: events) p.session m.controller.now fun sent => p.play sent m.controller.device := by
  obtain ⟨hplay, hpub⟩ := Controller.teardown_play hp hd hi
  have hf : m.farewell (e :: events) =
      some (some (m.controller.now, signal), m.controller.teardown signal) := by
    rw [farewell, hs, hp]
    rfl
  refine .ended hf ?_ hplay hpub
  rintro _ ⟨⟩
  exact Nat.le_refl _

theorem fares_play (hp : m.controller.slot = .playing p) (hd : m.controller.now < p.due)
    (hi : (m.run events).controller.device.Intact) :
    m.Fares events p.session m.controller.now fun sent => p.play sent m.controller.device := by
  induction events generalizing m p with
  | nil =>
    have hf : m.farewell [] = none := by rw [farewell, hp]; rfl
    exact .playing hf hp rfl
  | cons e events ih =>
    have hc := m.step_controller e
    have hg := (m.step e).run_device_grows events
    have hheard := Controller.job_heard hp (m.job e)
    rw [run_cons] at hi
    generalize hs : m.controller.signal? (m.job e) = signal? at hheard
    cases hheard with
    | signalled hgrows =>
      rw [← hc] at hgrows
      exact fares_of_signal hp hd hs (hi.of_grows (hgrows.trans hg))
    | ignored hw =>
      rw [hw] at hc
      have h := @ih (m.step e) p (by rw [hc]; exact hp) (by rw [hc]; exact hd) hi
      rw [hc] at h
      exact h.cons (farewell_of_silent hp hs) (Nat.le_refl _) fun _ _ => rfl
    | @waited millis hw =>
      rw [hw, Controller.work, Controller.wait_of_playing hp] at hc
      have ha := p.advance_course (m.controller.now + millis) m.controller.device
      have hf : m.farewell (e :: events) = (m.step e).farewell events := farewell_of_silent hp hs
      rcases hr : p.advance (m.controller.now + millis) m.controller.device with
        ⟨q | ⟨instant, how⟩ | _, d⟩ <;> rw [hr] at hc ha
      · have hdue : m.controller.now + millis < q.due := Playback.lt_due_of_advance hr
        have h := @ih (m.step e) q (by rw [hc]; rfl) (by rw [hc]; exact hdue) hi
        rw [hc, (ha.playing rfl).1] at h
        exact h.cons hf (Nat.le_add_right _ millis) fun _ hle => Playback.play_of_playing hr hle
      · refine .ended (hf.trans (farewell_of_over (by rw [hc]; rfl) _)) (by simp) ?_ (by rw [hc]; rfl)
        rw [Playback.play_of_ended hr, hc]
        rfl
      · rw [hc] at hg
        exact absurd (hi.of_grows hg) (ha.not_intact rfl)

/-- A session whose first start fails is over at once. -/
theorem fares_of_failed {c : Controller} {why : Setback} {d : Device} (hf : c.slot = .free)
    (ha : s.activate c.now c.device = (.failed why, d))
    (hm : m.controller = { c with device := d }.publish c.now (s.snapshot .failed)) :
    m.Fares events s c.now fun sent => s.alone c.now sent c.device := by
  have hn : m.controller.slot.playing? = none := by
    rw [hm, Controller.publish_slot, hf]
    rfl
  have halone : s.alone c.now none c.device = (.ended c.now (.failed why), m.controller.device) := by
    simp only [Session.alone, ha, hm]
    rfl
  exact .ended (farewell_of_over hn events) (by simp) halone (by rw [hm]; rfl)

/-- What becomes of a session from its launch on. -/
theorem fares_launch {c : Controller} (hf : c.slot = .free) (hspan : 0 < s.span)
    (hm : m.controller = (c.launch s).2) (hi : (m.run events).controller.device.Intact) :
    m.Fares events s c.now fun sent => s.alone c.now sent c.device := by
  have hl := c.launch_launched s
  generalize c.launch s = r at hl hm
  cases hl with
  | @active call d hs hc =>
    have hd : c.now < c.now + s.span := Nat.lt_add_of_pos_right hspan
    have ha : ∀ sent, s.alone c.now sent c.device =
        Playback.play ⟨s, call, c.now + s.span, s.repetitions - 1⟩ sent d := fun sent => by
      simp only [Session.alone, Session.activate, hs, hc]
    have h := fares_play (m := m) (p := ⟨s, call, c.now + s.span, s.repetitions - 1⟩)
      (by rw [hm]; rfl) (by rw [hm]; exact hd) hi
    rw [hm] at h
    simp only [ha]
    exact h
  | @refused call why d hs hc =>
    have ha : s.activate c.now c.device = (.failed (.device why), d) := by
      simp only [Session.activate, hs, hc]
    exact fares_of_failed hf ha hm
  | @unresolved why hs =>
    have ha : s.activate c.now c.device = (.failed why, c.device) := by
      simp only [Session.activate, hs]
    exact fares_of_failed hf ha hm
  | crashed hs hc =>
    have hg := m.run_device_grows events
    rw [hm] at hg
    exact absurd (hi.of_grows hg) (Device.not_intact_of_crashed hc)

end Fares

end Mailbox

/-- **Sessions play as they would alone.** Take a run without crashes, and an event `e` of it in which
a start is accepted. Its session is launched when the slot has been cleared for it, at the controller
`c`, and it plays to the end of the run, or ends as `farewell` says: perhaps on a signal, at `c'`.
Then the calls made between `c` and `c'`, timed from the launch, the time it took and the way it ended
are those of the same session played on its own, on a device whose calls have the same outcomes and
with the same signal at the same time. -/
theorem plays_as_alone (s : Setup) (effects : List Effect) (hcat : s.catalog = .ofList effects)
    (earlier : List Event) (e : Event) (rest : List Event)
    (hi : (s.after (earlier ++ e :: rest)).device.Intact) {request : Request} {context : Context}
    (hj : (s.run earlier).job e = .start request context)
    (ha : (s.after earlier).accepts (.start request context) = true) :
    let c := (s.after earlier).teardown .preempted
    let farewell := (s.run (earlier ++ [e])).farewell rest
    ∃ session, Session.check ⟨c.nextId, request, context, none⟩ s.catalog
        s.settings.maxDurationMs = .ok session ∧
      ((farewell = none ∧ ∃ p, (s.after (earlier ++ e :: rest)).slot = .playing p ∧
          p.session = session) ∨
        ∃ sent c' calls t how d, farewell = some (sent.map (Signal.delay c.now), c') ∧
          c'.device.log.toList = c.device.log.toList ++ calls.map (Entry.delay c.now) ∧
          (∃ before : Array Publication,
            c'.published = before.push ⟨c.now + t, session.snapshot how.phase⟩) ∧
          session.alone 0 sent (.scripted (calls.map Entry.outcome)) = (.ended t how, d) ∧
          d.log.toList = calls) := by
  intro c farewell
  obtain ⟨session, hc, hstart⟩ := Controller.start_of_accepts ha
  have hm : (s.run (earlier ++ [e])).controller =
      ({ c with nextId := (s.after earlier).nextId + 1 }.launch session).2 := by
    have hw := s.after_snoc earlier e
    rw [hj] at hw
    exact hw.trans hstart
  have hcheck : Session.check ⟨c.nextId, request, context, none⟩ s.catalog
      s.settings.maxDurationMs = .ok session := by
    have hg := (s.after_moves earlier).grows
    have hn : c.nextId = (s.after earlier).nextId :=
      ((s.after earlier).teardown_moves .preempted).nextId.trans (UInt64.add_zero _)
    rw [hn, ← hc, Controller.candidate, hg.catalog, hg.settings]
    rfl
  have hrun : s.after (earlier ++ e :: rest) = ((s.run (earlier ++ [e])).run rest).controller := by
    rw [Setup.after, Setup.run, List.append_cons, Mailbox.run_append]
    rfl
  have hslot : { c with nextId := (s.after earlier).nextId + 1 }.slot = .free :=
    (s.after earlier).teardown_slot .preempted
  rw [hrun] at hi ⊢
  refine ⟨session, hcheck, ?_⟩
  cases Mailbox.fares_launch hslot (Session.span_pos (hcat ▸ hcheck)) hm hi with
  | @playing q hf hq hs => exact .inl ⟨hf, q, hq, hs⟩
  | @ended sent c' instant how before hf hle halone hpub =>
    -- Both ends of the comparison are the session played alone: by the controller's clock, and
    -- from the launch on.
    obtain ⟨sent, rfl⟩ := Signal.exists_delay hle
    obtain ⟨calls, r, hplays, hr, hearly⟩ := session.alone_later c.now sent c.device
    rw [halone] at hplays hr
    obtain ⟨t, rfl, rfl⟩ := Progress.ended_of_delay hr.symm
    obtain ⟨d, hd⟩ := Device.scripted_plays calls
    exact .inr ⟨sent, c', calls, t, how, d, hf, hplays.log, ⟨before, hpub⟩, hearly _ _ hd, hd.log⟩

/-- A preset that has taken over from a plain run after 30 milliseconds is itself stopped 70
milliseconds later, in its second repetition. -/
theorem plays_as_alone_sample :
    let s := Setup.sample
    let earlier := Setup.sampleEvents.take 4
    let rest : List Event := [.wait 70, .shutdown]
    s.catalog = .ofList [⟨"tick", 50⟩] ∧ (s.after (earlier ++ .serve :: rest)).device.Intact ∧
      (s.run earlier).job .serve = .start (.preset "tick" 3) { usage := .ring } ∧
      (s.after earlier).accepts (.start (.preset "tick" 3) { usage := .ring }) = true ∧
      ∃ (session : Session) (sent : Option (Nat × Signal)) (outcomes : List Outcome) (d : Device),
        session.alone 0 sent (.scripted outcomes) = (.ended 70 .stopped, d) := by
  intro s earlier rest
  have hi : (s.after (earlier ++ .serve :: rest)).device.Intact := by decide
  have hj : (s.run earlier).job .serve = .start (.preset "tick" 3) { usage := .ring } := by decide
  have ha : (s.after earlier).accepts (.start (.preset "tick" 3) { usage := .ring }) = true := by
    decide
  have hlast : ((s.run (earlier ++ [.serve])).farewell rest).bind (fun f => f.2.published.back?) =
      some ⟨100, .session 2 (.preset "tick" 3) .ring .stopped⟩ := by decide
  have hnow : ((s.after earlier).teardown .preempted).now = 30 := by decide
  refine ⟨rfl, hi, hj, ha, ?_⟩
  obtain ⟨session, -, ⟨hf, -⟩ | ⟨sent, c', calls, t, how, d, hf, -, ⟨before, hpub⟩, halone, -⟩⟩ :=
    plays_as_alone s [⟨"tick", 50⟩] rfl earlier .serve rest hi hj ha
  · rw [hf] at hlast
    cases hlast
  · rw [hf, Option.bind_some, hpub, Array.back?_push, hnow, Option.some.injEq] at hlast
    obtain ⟨ht, hsnap⟩ := Publication.mk.inj hlast
    have hhow : how = .stopped := by
      obtain ⟨-, -, -, hphase⟩ := Snapshot.session.inj hsnap
      cases how <;> simp_all [Ending.phase]
    have ht : t = 70 := by omega
    exact ⟨session, sent, _, d, ht ▸ hhow ▸ halone⟩

end Haptics
