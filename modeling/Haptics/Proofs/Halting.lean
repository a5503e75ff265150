import Haptics.Proofs.Calls
import Haptics.Proofs.Unseen

/-! What a stop does to the motor. The answer to a stop does not depend on the device: a session that
is told to stop is over, even if the device refuses to halt. So the motor may go on, and it does until
a later stop is carried out. -/

namespace Haptics

/-! ## Stops that are still pending -/

/-- A stop came to nothing, and no start has been carried out since. -/
def LeftOn (log : List Entry) : Prop :=
  ∃ earlier e later, log = earlier ++ e :: later ∧ e.isFailedStop = true ∧
    later.any Entry.isStart = false

theorem leftOn_cons {e : Entry} {log : List Entry} :
    LeftOn (e :: log) ↔ (e.isFailedStop = true ∧ log.any Entry.isStart = false) ∨ LeftOn log := by
  constructor
  · rintro ⟨_ | ⟨f, earlier⟩, g, later, hl, hg, hs⟩
    · cases hl
      exact .inl ⟨hg, hs⟩
    · cases hl
      exact .inr ⟨earlier, g, later, rfl, hg, hs⟩
  · rintro (⟨he, hs⟩ | ⟨earlier, g, later, rfl, hg, hs⟩)
    · exact ⟨[], e, log, rfl, he, hs⟩
    · exact ⟨e :: earlier, g, later, rfl, hg, hs⟩

/-- Of the stops that failed, those that had a start after them do not count any more. -/
theorem leftOn_iff (log : List Entry) : LeftOn log ↔ overrun log < failedStops log := by
  induction log with
  | nil =>
    refine ⟨?_, fun h => absurd h (Nat.lt_irrefl 0)⟩
    rintro ⟨earlier, e, later, hl, -⟩
    exact absurd hl (by simp)
  | cons e log ih =>
    have hle := overrun_le_failedStops log
    rw [leftOn_cons, ih, overrun]
    simp only [failedStops, List.countP_cons] at hle ⊢
    cases e.isFailedStop <;> cases log.any Entry.isStart <;> simp <;> omega

namespace Device.Serves
variable {d d' : Device} {now : Nat} {mode : Mode} {outcome : Outcome}

/-- While no session plays the motor runs exactly if a stop is pending. -/
theorem engaged_iff (h : d.Serves none) : d.motor.engaged = none ↔ ¬ LeftOn d.log.toList := by
  have hp := h.pending
  rw [leftOn_iff]
  cases he : d.motor.engaged with
  | none =>
    simp only [he, Option.isSome_none, Bool.false_eq_true, and_false, if_false] at hp
    simp only [true_iff]
    omega
  | some mode =>
    simp only [he, Option.isNone_none, Option.isSome_some, and_self, if_true] at hp
    simp only [reduceCtorEq, false_iff, not_not]
    omega

/-- A stop that is not carried out leaves the motor running in the mode of the session. -/
theorem engaged_after_stop (h : d.Serves (some mode))
    (hc : d.perform now (.stop mode) = (outcome, d')) :
    d'.motor.engaged = if outcome = .done then none else some mode := by
  have he := h.engaged mode rfl
  split
  · rename_i ho
    obtain ⟨m, hm, -, hg⟩ := d.motor.accept_stop mode
    rw [perform_done (ho ▸ hc)] at hm
    cases hm
    rw [hg, if_pos he]
  · rename_i ho
    rw [perform_motor_of_ne_done hc ho, he]

end Device.Serves

/-! ## Stops -/

namespace Playback

/-- Ending a playback takes one call, whatever comes of it. -/
theorem interrupt_device (p : Playback) (now : Nat) (signal : Signal) (d : Device) :
    (p.interrupt now signal d).2 = (d.perform now (.stop p.session.mode)).2 := by
  unfold interrupt halt
  rcases d.perform now (.stop p.session.mode) with ⟨_ | _ | _, d'⟩ <;> rfl

end Playback

namespace Controller

/-- Whether a stop is one for what plays: it names no mode, or the mode of the session. -/
def Concerns (c : Controller) (mode : Option Mode) : Prop :=
  ∀ running, c.slot.mode? = some running → mode = none ∨ mode = some running

section Stop
variable {c : Controller} {mode : Option Mode}

theorem teardown_serves (h : c.Orderly) (signal : Signal) :
    (c.teardown signal).device.Serves none := by
  have ho : (c.teardown signal).Orderly :=
    (c.teardown_moves signal).invariant (P := fun c _ => c.Orderly) (n := 0) Orderly.move h
  have hs := ho.serves
  rwa [teardown_slot] at hs

/-- A slot in which nothing plays is freed. -/
theorem release_of_not_playing (hp : c.slot.playing? = none) : c.release = { c with slot := .free } := by
  unfold release
  cases hs : c.slot with
  | playing p =>
    rw [hs] at hp
    cases hp
  | free =>
    show c = { c with slot := .free }
    rw [← hs]
  | spent => rfl

/-- A permitted stop that concerns what plays is a teardown, whatever comes of it. -/
theorem stop_of_concerns (hg : c.settings.granted = true) (hm : c.Concerns mode) :
    c.stop mode = (.ok (), c.teardown .stopped) := by
  have hs := c.stop_heeded mode
  generalize c.stop mode = r at hs ⊢
  cases hs with
  | denied hd =>
    rw [hd] at hg
    cases hg
  | idle _ hp => rw [release_of_not_playing hp, teardown_of_not_playing hp]
  | ignored _ hp hn => exact absurd (hm _ (by rw [hp]; rfl)) hn
  | stopped => rfl

theorem stop_of_not_granted (hg : c.settings.granted = false) : c.stop mode = (.error .denied, c) := by
  have hs := c.stop_heeded mode
  generalize c.stop mode = r at hs ⊢
  cases hs with
  | denied => rfl
  | idle hd | ignored hd | stopped hd =>
    rw [hd] at hg
    cases hg

/-- After the teardown of a session the log has one more call, which tells how the motor is left. -/
theorem teardown_halts (h : c.Orderly) {p : Playback} (hp : c.slot = .playing p) (signal : Signal) :
    ∃ outcome, (c.teardown signal).device.log.toList =
        c.device.log.toList ++ [⟨c.now, .stop p.session.mode, outcome⟩] ∧
      (c.teardown signal).device.motor.engaged =
        if outcome = .done then none else some p.session.mode := by
  have hd : c.device.Serves (some p.session.mode) := by
    have hs := h.serves
    rwa [hp] at hs
  have hcall : (c.teardown signal).device =
      (c.device.perform c.now (.stop p.session.mode)).2 := by
    rw [teardown_eq_settle hp]
    simp only [settle_device, Playback.interrupt_device]
  rcases hc : c.device.perform c.now (.stop p.session.mode) with ⟨outcome, d⟩
  rw [hc] at hcall
  rw [hcall]
  exact ⟨outcome, Device.perform_log_toList hc, hd.engaged_after_stop hc⟩

end Stop

end Controller

/-! ## What an answer is worth -/

/-- The command that is served next is answered when it has been served. -/
theorem Setup.answer_of_serve (s : Setup) (events : List Event) {ticket : Nat} {command : Command}
    {rest : List (Nat × Command)} (hq : (s.run events).queue = (ticket, command) :: rest)
    {answer : Answer} (hr : (s.after events).reply? command = some answer) :
    (s.run (events ++ [.serve])).answer? ticket = some answer ∧
      s.after (events ++ [.serve]) = (s.after events).work command.job := by
  have hs : (s.run events).step .serve = { s.run events with queue := rest }.process ticket command := by
    rw [Mailbox.step, Mailbox.serve, hq]
  have hserve : s.run (events ++ [.serve]) =
      ({ s.run events with queue := rest }.work command.job).resolve ticket answer := by
    rw [run_snoc, hs]
    exact Mailbox.process_of_reply (m := { s.run events with queue := rest }) hr ticket
  constructor
  · have hkept : (Desk.mk (s.run (events ++ [.serve])) none).Kept := s.run_kept _
    refine hkept.answer_iff.mpr ?_
    rw [hserve, Mailbox.resolve_toList]
    exact List.mem_append_right _ List.mem_cons_self
  · rw [after, hserve]
    rfl

/-- **What the answer to a stop is worth.** A stop for what plays is answered as done if stops are
permitted, and as denied if not, whatever the device does. If it is answered as done, no session
plays any more, and the motor is off unless a stop, this one or an earlier one, came to nothing and
no start has been carried out since. A session that played has had one call of the device, and the
motor is off exactly if that was carried out; where no session played, the device was not called. -/
theorem stop_halts_iff (s : Setup) (events : List Event) {ticket : Nat} {mode : Option Mode}
    {rest : List (Nat × Command)} (hq : (s.run events).queue = (ticket, .stop mode) :: rest)
    (hm : (s.after events).Concerns mode) :
    let c := s.after events
    let m := s.run (events ++ [.serve])
    let d := m.controller.device
    m.answer? ticket = some (if s.settings.granted then .ok () else .error .denied) ∧
    (m.answer? ticket = some (.ok ()) →
      m.controller.slot.playing? = none ∧
      (d.motor.engaged = none ↔ ¬ LeftOn d.log.toList) ∧
      (c.slot.playing? = none → d = c.device) ∧
      ∀ p, c.slot = .playing p → ∃ outcome,
        d.log.toList = c.device.log.toList ++ [⟨c.now, .stop p.session.mode, outcome⟩] ∧
        (d.motor.engaged = none ↔ outcome = .done)) := by
  intro c m d
  have ho : c.Orderly := s.orderly events
  have hsettings : c.settings = s.settings := (s.after_moves events).grows.settings
  have hreply : c.reply? (.stop mode) = some (c.stop mode).1 := rfl
  obtain ⟨hanswer, hafter⟩ := s.answer_of_serve events hq hreply
  have hwork : m.controller = (c.stop mode).2 := hafter
  cases hg : s.settings.granted with
  | false =>
    have hstop : c.stop mode = (.error .denied, c) :=
      Controller.stop_of_not_granted (hsettings ▸ hg)
    rw [hstop] at hanswer
    refine ⟨hanswer, fun hok => ?_⟩
    rw [hanswer] at hok
    cases hok
  | true =>
    have hstop := Controller.stop_of_concerns (hsettings ▸ hg) hm
    rw [hstop] at hanswer hwork
    refine ⟨hanswer, fun _ => ⟨?_, ?_, ?_, ?_⟩⟩
    · rw [hwork]
      simp [Controller.teardown_slot, Slot.playing?]
    · have hd : d = (c.teardown .stopped).device := congrArg Controller.device hwork
      rw [hd]
      exact (Controller.teardown_serves ho .stopped).engaged_iff
    · intro hp
      have hd : d = (c.teardown .stopped).device := congrArg Controller.device hwork
      rw [hd, Controller.teardown_of_not_playing hp]
    · intro p hp
      have hd : d = (c.teardown .stopped).device := congrArg Controller.device hwork
      obtain ⟨outcome, hlog, hmotor⟩ := Controller.teardown_halts ho hp .stopped
      refine ⟨outcome, by rw [hd, hlog], ?_⟩
      rw [hd, hmotor]
      split <;> simp_all

/-- A plain run is stopped after no time, and the device does as it is told. -/
theorem stop_halts_iff_sample :
    let events : List Event :=
      [.post (.ok (.start (.time 1000) {})), .serve, .post (.ok (.stop none))]
    (Setup.sample.run events).queue = [(1, .stop none)] ∧
      (Setup.sample.after events).Concerns none ∧
      (Setup.sample.run (events ++ [.serve])).answer? 1 = some (.ok ()) ∧
      (Setup.sample.after (events ++ [.serve])).device.motor.engaged = none := by
  intro events
  have hq : (Setup.sample.run events).queue = [(1, .stop none)] := rfl
  have hm : (Setup.sample.after events).Concerns none := fun _ _ => .inl rfl
  obtain ⟨hanswer, hok⟩ := stop_halts_iff Setup.sample events hq hm
  obtain ⟨-, hoff, -⟩ := hok hanswer
  refine ⟨hq, hm, hanswer, hoff.mpr ?_⟩
  rw [leftOn_iff]
  decide

/-- The device answers the stop with an error, and whoever asked for it is told that it was done while
the motor runs on. -/
theorem stop_ok_while_engaged :
    ¬ ∀ (s : Setup) (events : List Event) (ticket : Nat) (mode : Option Mode)
        (rest : List (Nat × Command)), (s.run events).queue = (ticket, .stop mode) :: rest →
      (s.after events).Concerns mode → (s.after (events ++ [.serve])).device.Intact →
      (s.run (events ++ [.serve])).answer? ticket = some (.ok ()) →
      (s.after (events ++ [.serve])).device.motor.engaged = none := by
  intro h
  let s : Setup := { Setup.sample with
    faults := fun n => if n = 2 then some (.error (.unavailable "stuck")) else none }
  let events : List Event :=
    [.post (.ok (.start (.time 1000) {})), .serve, .post (.ok (.stop none))]
  have hq : (s.run events).queue = [(1, .stop none)] := by decide
  have hi : (s.after (events ++ [.serve])).device.Intact := by decide
  have hok : (s.run (events ++ [.serve])).answer? 1 = some (.ok ()) := by decide
  have hoff := h s events 1 none [] hq (fun _ _ => .inl rfl) hi hok
  have hon : (s.after (events ++ [.serve])).device.motor.engaged = some .time := by decide
  rw [hon] at hoff
  cases hoff

end Haptics
