import Mathlib.Data.List.Chain
import Haptics.Proofs.Aftermath

/-! How long a session is shown as active. It is, as long as it plays, and then its ending is shown
before anything else; unless the device crashes in its playback. Such a session has no ending: it goes
on being shown as active until another one is published. -/

namespace Haptics

/-- An active snapshot is followed by the ending of its session. -/
def Snapshot.Next (x y : Snapshot) : Prop :=
  ∀ id request usage, x = .session id request usage .active →
    ∃ phase, phase ≠ .active ∧ y = .session id request usage phase

theorem Snapshot.next_of_not_active {x y : Snapshot} (h : x.phase? ≠ some .active) : x.Next y := by
  rintro id request usage rfl
  exact absurd rfl h

theorem Session.next_snapshot (s : Session) {phase : Phase} (h : phase ≠ .active) :
    (s.snapshot .active).Next (s.snapshot phase) := by
  intro id request usage hs
  cases hs
  exact ⟨phase, h, rfl⟩

namespace Controller

/-! ## What a job does -/

/-- The five ways a job may go: nothing happens, the slot is looked at, time passes, the session that
plays is ended, or it is ended for another one. -/
inductive Acts (c : Controller) : Job → Controller → Prop where
  | still {job : Job} : c.signal? job = none → Acts c job c
  | released {job : Job} : c.slot.playing? = none ∨ c.signal? job = none → Acts c job c.release
  | waited (millis : Nat) : Acts c (.wait millis) (c.wait millis)
  | ended {job : Job} {signal : Signal} : c.signal? job = some signal →
      Acts c job (c.teardown signal)
  | launched {request : Request} {context : Context} {s : Session} :
      c.signal? (.start request context) = some .preempted → s.id = c.nextId →
      c.reply? (.start request context) =
        ({ c.teardown .preempted with nextId := c.nextId + 1 }.launch s).1 →
      Acts c (.start request context)
        ({ c.teardown .preempted with nextId := c.nextId + 1 }.launch s).2

theorem work_acts (c : Controller) (job : Job) : c.Acts job (c.work job) := by
  cases job with
  | rest => exact .still rfl
  | wait millis => exact .waited millis
  | finish => exact .ended rfl
  | stop mode =>
    have hs := c.stop_heeded mode
    have hw : c.work (.stop mode) = (c.stop mode).2 := rfl
    rw [hw]
    generalize c.stop mode = r at hs ⊢
    cases hs with
    | denied hg => exact .still (by simp [signal?, hg])
    | idle _ hp => exact .released (.inl hp)
    | @ignored p _ hp hn =>
      have hm : c.slot.mode? = some p.session.mode := by rw [hp]; rfl
      exact .still (by simp [signal?, hm, hn])
    | @stopped p hg hp hm =>
      have hmode : c.slot.mode? = some p.session.mode := by rw [hp]; rfl
      exact .ended (if_pos ⟨hg, hmode ▸ hm⟩)
  | start request context =>
    have hs := c.start_dealt request context
    have hw : c.work (.start request context) = (c.start request context).2 := rfl
    have hr : c.reply? (.start request context) = (c.start request context).1 := rfl
    rw [hw]
    generalize c.start request context = r at hs hr ⊢
    cases hs with
    | invalid hc => exact .still (by simp [signal?, accepts, hc])
    | denied hc hg => exact .still (by simp [signal?, accepts, hc, hg])
    | conflict hc hg ho => exact .released (.inr (by simp [signal?, accepts, hc, hg, ho]))
    | launched hc hg ho =>
      exact .launched (signal?_of_accepted hc hg ho) (Session.check_ok hc).1 hr

/-- What is left of a launch: nothing is published if the device crashed in it, and otherwise one
snapshot of the session. -/
theorem launch_history {c : Controller} (hf : c.slot = .free) (s : Session) :
    ((c.launch s).1 = none ∧ (c.launch s).2.slot = .free ∧ (c.launch s).2.history = c.history) ∨
    ((c.launch s).2.slot.playing? = none ∧
      (c.launch s).2.history = c.history ++ [s.snapshot .failed]) ∨
    ∃ p, (c.launch s).2.slot = .playing p ∧ p.session = s ∧
      (c.launch s).2.history = c.history ++ [s.snapshot .active] := by
  have hl := c.launch_launched s
  generalize c.launch s = r at hl ⊢
  cases hl with
  | active => exact .inr (.inr ⟨_, rfl, rfl, publish_history ..⟩)
  | refused | unresolved =>
    refine .inr (.inl ⟨?_, publish_history ..⟩)
    rw [publish_slot]
    simp [hf, Slot.playing?]
  | crashed => exact .inl ⟨rfl, hf, rfl⟩

section Breaks
variable {c : Controller} {p : Playback}

theorem breaks_of_signal (hp : c.slot = .playing p) {job : Job} {signal : Signal}
    (hs : c.signal? job = some signal) :
    c.breaks job = decide ((p.interrupt c.now signal c.device).1 = .crashed) := by
  cases job with
  | rest | wait => cases hs
  | start | stop | finish => simp [breaks, hp, hs]

theorem breaks_wait (hp : c.slot = .playing p) (millis : Nat) :
    c.breaks (.wait millis) = decide ((p.advance (c.now + millis) c.device).1 = .crashed) := by
  simp [breaks, hp]

end Breaks

/-! ## Shown as active -/

/-- Every ending is shown, and what is shown as active plays. -/
structure Reports (c : Controller) : Prop where
  chain : c.history.IsChain Snapshot.Next
  playing : ∀ p, c.slot = .playing p →
    c.history.getLast? = some (p.session.snapshot .active) ∧ c.nextId = p.session.id + 1
  settled : c.slot.playing? = none → ∀ x, c.history.getLast? = some x → x.phase? ≠ some .active

theorem isChain_snoc {l : List Snapshot} {y : Snapshot} (h : l.IsChain Snapshot.Next)
    (hy : ∀ x, l.getLast? = some x → x.Next y) : (l ++ [y]).IsChain Snapshot.Next := by
  refine h.append (.singleton y) ?_
  intro x hx z hz
  cases hz
  exact hy x hx

namespace Reports
variable {c c' : Controller} {p : Playback}

theorem of_idle (hs : c.slot.playing? = none) (hchain : c.history.IsChain Snapshot.Next)
    (hlast : ∀ x, c.history.getLast? = some x → x.phase? ≠ some .active) : c.Reports := by
  refine ⟨hchain, ?_, fun _ => hlast⟩
  intro p hp
  rw [hp] at hs
  cases hs

/-- The last thing that was shown is an ending. -/
theorem of_ending (hs : c'.slot.playing? = none) {s : Session} {phase : Phase}
    (hph : phase ≠ .active) (hh : c'.history = c.history ++ [s.snapshot phase])
    (hchain : (c.history ++ [s.snapshot phase]).IsChain Snapshot.Next) : c'.Reports := by
  apply of_idle hs (hh ▸ hchain)
  intro x hx
  rw [hh, List.getLast?_concat] at hx
  cases hx
  intro ha
  exact hph (Option.some.inj ha)

/-- The session that plays is over, and that is shown. -/
theorem close (h : c.Reports) (hp : c.slot = .playing p) {phase : Phase} (hph : phase ≠ .active)
    (hs : c'.slot.playing? = none) (hh : c'.history = c.history ++ [p.session.snapshot phase]) :
    c'.Reports := by
  apply of_ending hs hph hh
  apply isChain_snoc h.chain
  intro x hx
  rw [(h.playing p hp).1] at hx
  cases hx
  exact p.session.next_snapshot hph

/-- Nothing is published while nothing plays. -/
theorem quiet (h : c.Reports) (hp : c.slot.playing? = none) (hs : c'.slot.playing? = none)
    (hh : c'.history = c.history) : c'.Reports :=
  of_idle hs (hh ▸ h.chain) (hh ▸ h.settled hp)

theorem release (h : c.Reports) : c.release.Reports := by
  cases hs : c.slot with
  | playing p => rwa [release_eq_self (by simp [hs])]
  | free | spent =>
    have hp : c.slot.playing? = none := by rw [hs]; rfl
    exact h.quiet hp ((release_playing c).trans hp) c.release_history

theorem wait (h : c.Reports) {millis : Nat} (hb : c.breaks (.wait millis) = false) :
    (c.wait millis).Reports := by
  cases hs : c.slot with
  | free | spent =>
    have hp : c.slot.playing? = none := by rw [hs]; rfl
    rw [wait_of_not_playing hp]
    exact h.quiet hp hp rfl
  | playing p =>
    have hc := p.advance_course (c.now + millis) c.device
    rw [breaks_wait hs] at hb
    rw [wait_of_playing hs]
    rcases hr : p.advance (c.now + millis) c.device with ⟨q | ⟨t, how⟩ | _, d⟩
    · rw [hr] at hc
      obtain ⟨hlast, hnext⟩ := h.playing p hs
      refine ⟨h.chain, ?_, nofun⟩
      rintro _ ⟨⟩
      rw [(hc.playing rfl).1]
      exact ⟨hlast, hnext⟩
    · exact h.close hs how.phase_ne_active rfl (settle_ended_history ..)
    · rw [hr] at hb
      exact absurd rfl (of_decide_eq_false hb)

theorem teardown (h : c.Reports) {job : Job} {signal : Signal} (hs : c.signal? job = some signal)
    (hb : c.breaks job = false) : (c.teardown signal).Reports := by
  cases hp : c.slot with
  | free | spent =>
    have hn : c.slot.playing? = none := by rw [hp]; rfl
    rw [teardown_of_not_playing hn]
    exact h.quiet hn rfl rfl
  | playing p =>
    rw [breaks_of_signal hp hs] at hb
    rw [teardown_eq_settle hp]
    unfold Playback.interrupt at hb ⊢
    rcases hh : p.halt c.now c.device with ⟨_ | _, d⟩
    · rw [hh] at hb
      exact absurd rfl (of_decide_eq_false hb)
    · exact h.close hp signal.ending.phase_ne_active rfl (settle_ended_history ..)

theorem launch (h : c.Reports) (hf : c.slot = .free) {s : Session} (hid : s.id = c.nextId) :
    ({ c with nextId := c.nextId + 1 }.launch s).2.Reports := by
  have hp : c.slot.playing? = none := by rw [hf]; rfl
  have hchain (phase : Phase) : (c.history ++ [s.snapshot phase]).IsChain Snapshot.Next :=
    isChain_snoc h.chain fun x hx => Snapshot.next_of_not_active (h.settled hp x hx)
  have hnext : ({ c with nextId := c.nextId + 1 }.launch s).2.nextId = c.nextId + 1 :=
    launch_nextId _ s
  rcases launch_history (c := { c with nextId := c.nextId + 1 }) hf s with
    ⟨-, hs, hh⟩ | ⟨hs, hh⟩ | ⟨p, hs, rfl, hh⟩
  · exact h.quiet hp (by rw [hs]; rfl) hh
  · have hfailed : Phase.failed ≠ .active := nofun
    exact of_ending hs hfailed hh (hchain .failed)
  · refine ⟨hh ▸ hchain .active, ?_, ?_⟩
    · intro q hq
      rw [hs] at hq
      cases hq
      rw [hh, List.getLast?_concat, hnext, hid]
      exact ⟨rfl, rfl⟩
    · rw [hs]
      nofun

/-- Whatever a controller is made to do, unless the session that plays crashes in it. -/
theorem work (h : c.Reports) {job : Job} (hb : c.breaks job = false) : (c.work job).Reports := by
  have ha := c.work_acts job
  generalize c.work job = c' at ha ⊢
  cases ha with
  | still => exact h
  | released => exact h.release
  | waited => exact h.wait hb
  | ended hs => exact h.teardown hs hb
  | launched hs hid _ =>
    have hn : (c.teardown .preempted).nextId = c.nextId :=
      (c.teardown_moves .preempted).nextId.trans (UInt64.add_zero _)
    rw [← hn] at hid ⊢
    exact (h.teardown hs hb).launch (c.teardown_slot .preempted) hid

theorem playing_of_active (h : c.Reports) (ha : c.snapshot.phase? = some .active) :
    ∃ p, c.slot = .playing p := by
  cases hs : c.slot with
  | playing p => exact ⟨p, rfl⟩
  | free | spent =>
    rw [snapshot_eq] at ha
    cases hx : c.history.getLast? with
    | none =>
      rw [hx] at ha
      cases ha
    | some x =>
      rw [hx] at ha
      exact absurd ha (h.settled (by rw [hs]; rfl) x hx)

end Reports

/-! ## A crash -/

section Crash
variable {c : Controller} {p : Playback} {job : Job}

theorem playing_of_breaks (hb : c.breaks job = true) : ∃ p, c.slot = .playing p := by
  cases hp : c.slot with
  | playing p => exact ⟨p, rfl⟩
  | free | spent => simp [breaks, hp] at hb

/-- A session crashes as it plays on, or as it is told to end. -/
theorem breaks_cases (hb : c.breaks job = true) (hp : c.slot = .playing p) :
    (∃ millis, job = .wait millis ∧ (p.advance (c.now + millis) c.device).1 = .crashed) ∨
    ∃ signal, c.signal? job = some signal ∧ (p.interrupt c.now signal c.device).1 = .crashed := by
  have signalled {signal : Signal} (hs : c.signal? job = some signal) :
      ∃ signal, c.signal? job = some signal ∧
        (p.interrupt c.now signal c.device).1 = .crashed := by
    rw [breaks_of_signal hp hs] at hb
    exact ⟨signal, hs, of_decide_eq_true hb⟩
  cases job with
  | rest => simp [breaks, hp, signal?] at hb
  | wait millis =>
    rw [breaks_wait hp] at hb
    exact .inl ⟨millis, rfl, of_decide_eq_true hb⟩
  | finish => exact .inr (signalled rfl)
  | start request context =>
    cases hs : c.signal? (.start request context) with
    | none => simp [breaks, hp, hs] at hb
    | some signal => exact .inr (hs ▸ signalled hs)
  | stop mode =>
    cases hs : c.signal? (.stop mode) with
    | none => simp [breaks, hp, hs] at hb
    | some signal => exact .inr (hs ▸ signalled hs)

/-- A session that crashes is over, and nothing shows it. -/
theorem settle_of_crashed {s : Session} {r : Progress × Device} (hr : r.1 = .crashed) :
    (c.settle s r).slot.playing? = none ∧ (c.settle s r).history = c.history := by
  obtain ⟨progress, d⟩ := r
  cases hr
  exact ⟨rfl, rfl⟩

theorem teardown_of_crashed (hp : c.slot = .playing p) {signal : Signal}
    (hr : (p.interrupt c.now signal c.device).1 = .crashed) :
    (c.teardown signal).history = c.history := by
  rw [teardown_eq_settle hp]
  exact (settle_of_crashed hr).2

/-- The crash is on record. -/
theorem not_intact_of_breaks (hb : c.breaks job = true) : ¬ (c.work job).device.Intact := by
  obtain ⟨p, hp⟩ := playing_of_breaks hb
  rcases breaks_cases hb hp with ⟨millis, rfl, hr⟩ | ⟨signal, hs, hr⟩
  · show ¬ (c.wait millis).device.Intact
    rw [wait_of_playing hp, settle_device]
    exact (p.advance_course (c.now + millis) c.device).not_intact hr
  · intro hi
    have hheard := job_heard hp job
    rw [hs] at hheard
    cases hheard with
    | signalled hgrows =>
      have ht := hi.of_grows hgrows
      rw [teardown_eq_settle hp] at ht
      simp only [settle_device] at ht
      exact (p.interrupt_course c.now signal c.device).not_intact hr ht

end Crash

end Controller

namespace Mailbox

/-- A session is over and was never shown as such: its snapshot is the last one and nothing plays, or
the next one is not about it. -/
def Lost (m : Mailbox) : Prop :=
  ∃ earlier later id request usage,
    m.controller.history = earlier ++ .session id request usage .active :: later ∧
    (later = [] → m.controller.slot.playing? = none ∧
      (m.alive = true → m.controller.nextId = id + 1)) ∧
    ∀ y ∈ later.head?, ∀ phase, y ≠ .session id request usage phase

section Lost
variable {m : Mailbox} {earlier : List Snapshot} {id : UInt64} {request : Request} {usage : Usage}

theorem lost_of_last {c : Controller} (hc : m.controller = c)
    (hh : c.history = earlier ++ [.session id request usage .active])
    (hp : c.slot.playing? = none) (hn : m.alive = true → c.nextId = id + 1) : m.Lost := by
  subst hc
  exact ⟨earlier, [], id, request, usage, hh, fun _ => ⟨hp, hn⟩, nofun⟩

/-- A session that is launched next gets another number. -/
theorem lost_of_launch {c : Controller} {s : Session} (hc : m.controller = (c.launch s).2)
    (ha : (c.launch s).1 = none → m.alive = false) (hf : c.slot = .free)
    (hh : c.history = earlier ++ [.session id request usage .active]) (hid : s.id = id + 1) :
    m.Lost := by
  have hother (phase : Phase) (hm : m.controller.history = c.history ++ [s.snapshot phase]) :
      m.Lost := by
    refine ⟨earlier, [s.snapshot phase], id, request, usage, ?_, nofun, ?_⟩
    · rw [hm, hh, List.append_assoc]
      rfl
    · intro y hy phase' heq
      cases hy
      have hsame : s.id = id := by
        cases heq
        rfl
      -- Numbers wrap around, but none is its own successor.
      rw [hid] at hsame
      simp at hsame
  rcases Controller.launch_history hf s with ⟨hr, hs, hm⟩ | ⟨-, hm⟩ | ⟨-, -, -, hm⟩
  · refine lost_of_last hc (hm.trans hh) (congrArg Slot.playing? hs) fun hl => ?_
    rw [ha hr] at hl
    cases hl
  · exact hother .failed (hc ▸ hm)
  · exact hother .active (hc ▸ hm)

/-- Once nothing plays, the next thing that is published is about another session. -/
theorem lost_of_idle {e : Event} (hp : m.controller.slot.playing? = none)
    (hh : m.controller.history = earlier ++ [.session id request usage .active])
    (hn : m.controller.nextId = id + 1) : (m.step e).Lost := by
  have hc := m.step_controller e
  have ha := m.controller.work_acts (m.job e)
  generalize hj : m.job e = job at hc ha
  generalize m.controller.work job = c at hc ha
  cases ha with
  | still => exact lost_of_last hc hh hp fun _ => hn
  | released =>
    exact lost_of_last hc (m.controller.release_history.trans hh)
      (m.controller.release_playing.trans hp) fun _ => m.controller.release_nextId.trans hn
  | waited =>
    rw [Controller.wait_of_not_playing hp] at hc
    exact lost_of_last hc hh hp fun _ => hn
  | ended =>
    rw [Controller.teardown_of_not_playing hp] at hc
    exact lost_of_last hc hh rfl fun _ => hn
  | @launched request' context s _ hid hr =>
    have hj : m.job e = (Command.start request' context).job := hj
    have hteardown : (m.controller.teardown .preempted).history =
        earlier ++ [.session id request usage .active] := by
      rw [Controller.teardown_of_not_playing hp]
      exact hh
    exact lost_of_launch hc (fun hcrash => alive_of_crash hj (hr.trans hcrash))
      (m.controller.teardown_slot .preempted) hteardown (hid.trans hn)

theorem lost_of_breaks {e : Event} (h : m.controller.Reports)
    (hb : m.controller.breaks (m.job e) = true) : (m.step e).Lost := by
  obtain ⟨p, hp⟩ := Controller.playing_of_breaks hb
  obtain ⟨hlast, hn⟩ := h.playing p hp
  obtain ⟨earlier, hh⟩ := List.getLast?_eq_some_iff.mp hlast
  have hc := m.step_controller e
  rcases Controller.breaks_cases hb hp with ⟨millis, hj, hr⟩ | ⟨signal, hs, hr⟩
  · have hc : (m.step e).controller = m.controller.wait millis := by
      rw [hc, hj]
      rfl
    have hwait := Controller.settle_of_crashed (c := { m.controller with
      now := m.controller.now + millis }) (s := p.session) hr
    rw [← Controller.wait_of_playing hp] at hwait
    obtain ⟨hs, hw⟩ := hwait
    have hnext : (m.controller.wait millis).nextId = m.controller.nextId :=
      (m.controller.wait_moves millis).nextId.trans (UInt64.add_zero _)
    exact lost_of_last hc (hw.trans hh) hs fun _ => hnext.trans hn
  · have hw := Controller.teardown_of_crashed hp hr
    have ha := m.controller.work_acts (m.job e)
    generalize hj : m.job e = job at hc ha hs
    generalize m.controller.work job = c at hc ha
    cases ha with
    | still hnone =>
      rw [hs] at hnone
      cases hnone
    | released hnone =>
      rw [hp, hs] at hnone
      rcases hnone with hnone | hnone <;> cases hnone
    | waited => cases hs
    | ended hs' =>
      cases hs.symm.trans hs'
      have hnext : (m.controller.teardown signal).nextId = m.controller.nextId :=
        (m.controller.teardown_moves signal).nextId.trans (UInt64.add_zero _)
      have hfree : (m.controller.teardown signal).slot.playing? = none := by
        rw [Controller.teardown_slot]
        rfl
      exact lost_of_last hc (hw.trans hh) hfree fun _ => hnext.trans hn
    | @launched request context s hs' hid hreply =>
      cases hs.symm.trans hs'
      have hj : m.job e = (Command.start request context).job := hj
      exact lost_of_launch hc (fun hcrash => alive_of_crash hj (hreply.trans hcrash))
        (m.controller.teardown_slot .preempted) (hw.trans hh) (hid.trans hn)

end Lost

/-- It is never shown later on. -/
theorem Lost.step {m : Mailbox} (h : m.Lost) (hd : m.alive = false → m.Over) (e : Event) :
    (m.step e).Lost := by
  obtain ⟨earlier, later, id, request, usage, hh, hlast, hnext⟩ := h
  cases later with
  | nil =>
    obtain ⟨hp, hn⟩ := hlast rfl
    cases ha : m.alive with
    | true => exact lost_of_idle hp hh (hn ha)
    | false =>
      obtain ⟨hover, now, hc⟩ := (hd ha).step e
      refine lost_of_last hc hh hp fun hl => ?_
      rw [hover.alive] at hl
      cases hl
  | cons y rest =>
    have hg : m.controller.history <+: (m.step e).controller.history := by
      rw [step_controller]
      exact (m.controller.work_moves (m.job e)).grows.history
    obtain ⟨new, hnew⟩ := hg
    refine ⟨earlier, y :: rest ++ new, id, request, usage, ?_, nofun, ?_⟩
    · rw [← hnew, hh, List.append_assoc]
      rfl
    · intro z hz
      cases hz
      exact hnext y rfl

/-- Where a session is lost, its ending is missing or it is shown as active without playing. -/
theorem Lost.not_shown {m : Mailbox} (h : m.Lost)
    (hchain : m.controller.history.IsChain Snapshot.Next)
    (hplays : m.controller.snapshot.phase? = some .active → ∃ p, m.controller.slot = .playing p) :
    False := by
  obtain ⟨earlier, later, id, request, usage, hh, hlast, hnext⟩ := h
  cases later with
  | nil =>
    have hactive : m.controller.snapshot.phase? = some .active := by
      rw [Controller.snapshot_of_history hh]
      rfl
    obtain ⟨p, hp⟩ := hplays hactive
    have hidle := (hlast rfl).1
    rw [hp] at hidle
    cases hidle
  | cons y rest =>
    rw [hh, List.isChain_append_cons_cons] at hchain
    obtain ⟨phase, -, hy⟩ := hchain.2.1 id request usage rfl
    exact hnext y rfl phase hy

end Mailbox

namespace Setup

/-- A controller that has ended has left nothing behind. -/
theorem over_of_dead (s : Setup) {events : List Event} (hd : (s.run events).alive = false) :
    (s.run events).Over := by
  obtain ⟨earlier, e, later, rfl, -, hc⟩ := s.closes_of_run hd
  exact (over_of_closes hc later).1

theorem reports (s : Setup) {events : List Event} (hb : s.breaks events = false) :
    (s.after events).Reports := by
  induction events using List.reverseRecOn with
  | nil =>
    have hh : (s.after []).history = [.idle] := rfl
    have hs : (s.after []).slot = .free := rfl
    apply Controller.Reports.of_idle (congrArg Slot.playing? hs) (hh ▸ .singleton _)
    intro x hx
    rw [hh] at hx
    cases hx
    nofun
  | append_singleton events e ih =>
    obtain ⟨hb, hbe⟩ := Bool.or_eq_false_iff.mp ((s.breaks_snoc events e).symm.trans hb)
    rw [after_snoc]
    exact (ih hb).work hbe

theorem lost (s : Setup) {events : List Event} (hb : s.breaks events = true) :
    (s.run events).Lost := by
  induction events using List.reverseRecOn with
  | nil => cases hb
  | append_singleton events e ih =>
    -- Either a session was lost before this event, or everything was shown up to it.
    rw [breaks_snoc] at hb
    rw [run_snoc]
    cases hbs : s.breaks events with
    | true => exact (ih hbs).step s.over_of_dead e
    | false =>
      rw [hbs, Bool.false_or] at hb
      exact Mailbox.lost_of_breaks (s.reports hbs) hb

/-- In a run in which no call crashes no playback does. -/
theorem breaks_of_intact (s : Setup) {events : List Event}
    (hi : (s.after events).device.Intact) : s.breaks events = false := by
  induction events using List.reverseRecOn with
  | nil => rfl
  | append_singleton events e ih =>
    rw [breaks_snoc, ih (hi.of_grows (s.after_snoc_grows events e).device), Bool.false_or,
      ← Bool.not_eq_true]
    intro hb
    rw [after_snoc] at hi
    exact Controller.not_intact_of_breaks hb hi

end Setup

/-- **Whoever is shown as active plays.** After a run, every session that was shown as active has had
its ending shown right after that, except for one that is still playing, exactly if no session has
crashed in the run while it played; and none has if no call of the device has crashed. Then a session
that plays is the one that is shown. -/
theorem shown_while_playing (s : Setup) (events : List Event) :
    let c := s.after events
    (s.breaks events = false ↔ c.history.IsChain Snapshot.Next ∧
      (c.snapshot.phase? = some .active → ∃ p, c.slot = .playing p)) ∧
    (s.breaks events = false → ∀ p, c.slot = .playing p →
      c.snapshot = p.session.snapshot .active) ∧
    (c.device.Intact → s.breaks events = false) := by
  intro c
  refine ⟨⟨fun hb => ?_, ?_⟩, fun hb p hp => ?_, s.breaks_of_intact⟩
  · have h : c.Reports := s.reports hb
    exact ⟨h.chain, h.playing_of_active⟩
  · rintro ⟨hchain, hplays⟩
    rw [← Bool.not_eq_true]
    intro hb
    exact (s.lost hb).not_shown hchain hplays
  · have h : c.Reports := s.reports hb
    rw [Controller.snapshot_eq, (h.playing p hp).1]
    rfl

/-- The device crashes in the start of the session that takes over; the one before it has been shown to
its end. -/
theorem shown_while_playing_sample :
    let s := { Setup.sample with faults := fun n => if n = 3 then some .crash else none }
    s.breaks Setup.sampleEvents = false ∧
      (s.after Setup.sampleEvents).history.IsChain Snapshot.Next ∧
      (s.after Setup.sampleEvents).snapshot.phase? ≠ some .active := by
  intro s
  have hb : s.breaks Setup.sampleEvents = false := by decide
  have hfree : (s.after Setup.sampleEvents).slot = .free := by decide
  obtain ⟨hiff, -, -⟩ := shown_while_playing s Setup.sampleEvents
  obtain ⟨hchain, hplays⟩ := hiff.mp hb
  refine ⟨hb, hchain, ?_⟩
  intro hactive
  obtain ⟨p, hp⟩ := hplays hactive
  rw [hfree] at hp
  cases hp

/-- The device crashes as it is told to stop. The session is over, the slot is free, and the session is
still shown as active. -/
theorem active_after_crash :
    ¬ ∀ (s : Setup) (events : List Event),
      (s.after events).snapshot.phase? = some .active → ∃ p, (s.after events).slot = .playing p := by
  intro h
  let s : Setup := { Setup.sample with faults := fun n => if n = 2 then some .crash else none }
  let events : List Event :=
    [.post (.ok (.start (.time 1000) {})), .serve, .post (.ok (.stop (some .time))), .serve]
  have hactive : (s.after events).snapshot.phase? = some .active := by decide
  have hfree : (s.after events).slot = .free := by decide
  obtain ⟨p, hp⟩ := h s events hactive
  rw [hfree] at hp
  cases hp

end Haptics
