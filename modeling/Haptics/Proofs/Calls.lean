import Haptics.Proofs.Moves

/-! The calls a device gets. In every run, whatever the driver fails or crashes, they come in
blocks: a start that came to nothing, or a start that was carried out and then the stop of its mode.
So the motor is started over a running one exactly as often as a stop failed that had a start after
it. -/

namespace Haptics

/-! ## Blocks -/

/-- A start that was carried out; from then on the motor runs in `mode`. -/
def Entry.Starts (e : Entry) (mode : Mode) : Prop := e.call.starts? = some mode ∧ e.outcome = .done

/-- Calls that belong together. -/
inductive Block : List Entry → Prop where
  | vain {e : Entry} {mode : Mode} : e.call.starts? = some mode → e.outcome ≠ .done → Block [e]
  | pair {e f : Entry} {mode : Mode} : e.Starts mode → f.call = .stop mode → Block [e, f]

/-- What is left of a log after its blocks: nothing, or the start of the session that plays. -/
def Tail (live : Option Mode) (rest : List Entry) : Prop :=
  match live with
  | none => rest = []
  | some mode => ∃ e, rest = [e] ∧ e.Starts mode

def InBlocks (log : List Entry) (live : Option Mode) : Prop :=
  ∃ (blocks : List (List Entry)) (rest : List Entry),
    (∀ b ∈ blocks, Block b) ∧ Tail live rest ∧ log = blocks.flatten ++ rest

namespace InBlocks
variable {log : List Entry} {e : Entry} {mode : Mode}

theorem nil : InBlocks [] none := ⟨[], [], by simp, rfl, rfl⟩

theorem vain (h : InBlocks log none) (hs : e.call.starts? = some mode) (ho : e.outcome ≠ .done) :
    InBlocks (log ++ [e]) none := by
  obtain ⟨blocks, rest, hb, rfl, rfl⟩ := h
  refine ⟨blocks ++ [[e]], [], List.forall_mem_append.mpr ⟨hb, ?_⟩, rfl, by simp⟩
  intro b hm
  rw [List.mem_singleton.mp hm]
  exact .vain hs ho

theorem start (h : InBlocks log none) (hs : e.Starts mode) : InBlocks (log ++ [e]) (some mode) := by
  obtain ⟨blocks, rest, hb, rfl, rfl⟩ := h
  exact ⟨blocks, [e], hb, ⟨e, rfl, hs⟩, by simp⟩

theorem stop (h : InBlocks log (some mode)) (hs : e.call = .stop mode) :
    InBlocks (log ++ [e]) none := by
  obtain ⟨blocks, rest, hb, ⟨f, rfl, hf⟩, rfl⟩ := h
  refine ⟨blocks ++ [[f, e]], [], List.forall_mem_append.mpr ⟨hb, ?_⟩, rfl, by simp⟩
  intro b hm
  rw [List.mem_singleton.mp hm]
  exact .pair hf hs

end InBlocks

/-! ## Stops that failed -/

namespace Entry

/-- A stop that came to nothing, so that the motor is left running. -/
def isFailedStop (e : Entry) : Bool := e.call.starts?.isNone && e.outcome ≠ .done

def isStart (e : Entry) : Bool := e.call.starts?.isSome && e.outcome = .done

end Entry

/-- How many stops came to nothing and had a start that was carried out after them. -/
def overrun : List Entry → Nat
  | [] => 0
  | e :: log => (if e.isFailedStop && log.any Entry.isStart then 1 else 0) + overrun log

def failedStops (log : List Entry) : Nat := log.countP Entry.isFailedStop

theorem failedStops_snoc (log : List Entry) (e : Entry) :
    failedStops (log ++ [e]) = failedStops log + if e.isFailedStop then 1 else 0 := by
  simp [failedStops, List.countP_append, List.countP_singleton]

theorem failedStops_eq_zero {log : List Entry} (h : ∀ e ∈ log, e.isFailedStop = false) :
    failedStops log = 0 := List.countP_eq_zero.mpr fun e he => by simp [h e he]

theorem overrun_snoc_start (log : List Entry) {e : Entry} (h : e.isStart) :
    overrun (log ++ [e]) = failedStops log := by
  induction log with
  | nil =>
    have hn : e.isFailedStop = false := by
      simp only [Entry.isStart, Bool.and_eq_true, Option.isSome_iff_ne_none] at h
      simp [Entry.isFailedStop, h.1]
    simp [overrun, failedStops, hn]
  | cons f log ih =>
    simp only [List.cons_append, overrun, ih, List.any_append, List.any_cons, h, Bool.true_or,
      Bool.or_true, Bool.and_true, failedStops, List.countP_cons]
    omega

theorem overrun_snoc_of_not_start (log : List Entry) {e : Entry} (h : e.isStart = false) :
    overrun (log ++ [e]) = overrun log := by
  induction log with
  | nil => simp [overrun]
  | cons f log ih =>
    simp only [List.cons_append, overrun, ih, List.any_append, List.any_cons, h, List.any_nil,
      Bool.or_false]

theorem overrun_le_failedStops (log : List Entry) : overrun log ≤ failedStops log := by
  induction log with
  | nil => exact Nat.le_refl 0
  | cons e log ih =>
    simp only [overrun, failedStops, List.countP_cons] at ih ⊢
    cases e.isFailedStop <;> cases log.any Entry.isStart <;> simp <;> omega

/-! ## The device -/

/-- What holds of a device throughout, where `live` is the mode of the session that plays. While no
session plays the motor runs only if the last stop failed, and that one has had no start since. -/
structure Device.Serves (d : Device) (live : Option Mode) : Prop where
  blocks : InBlocks d.log.toList live
  overlaps : d.motor.overlaps = overrun d.log.toList
  engaged : ∀ mode, live = some mode → d.motor.engaged = some mode
  pending : failedStops d.log.toList =
    overrun d.log.toList + if live.isNone ∧ d.motor.engaged.isSome then 1 else 0

namespace Device.Serves
variable {d d' : Device} {now : Nat} {mode : Mode} {call : Call} {outcome : Outcome}

theorem start (h : d.Serves none) (hs : call.starts? = some mode)
    (hc : d.perform now call = (.done, d')) : d'.Serves (some mode) := by
  obtain ⟨he, hv⟩ := Motor.accept_start hs (perform_done hc)
  have hl := perform_log_toList hc
  have hi : Entry.isStart ⟨now, call, .done⟩ := by simp [Entry.isStart, hs]
  have hf : Entry.isFailedStop ⟨now, call, .done⟩ = false := by simp [Entry.isFailedStop]
  have hp := h.pending
  rw [← h.overlaps] at hp
  refine ⟨?_, ?_, ?_, ?_⟩
  · rw [hl]
    exact h.blocks.start ⟨hs, rfl⟩
  · rw [hl, overrun_snoc_start _ hi, hv, hp]
    cases d.motor.engaged <;> simp
  · rintro _ ⟨⟩
    exact he
  · rw [hl, overrun_snoc_start _ hi, failedStops_snoc, hf]
    simp

theorem vain (h : d.Serves none) (hs : call.starts? = some mode)
    (hc : d.perform now call = (outcome, d')) (ho : outcome ≠ .done) : d'.Serves none := by
  have hm := perform_motor_of_ne_done hc ho
  have hl := perform_log_toList hc
  have hi : Entry.isStart ⟨now, call, outcome⟩ = false := by simp [Entry.isStart, ho]
  have hf : Entry.isFailedStop ⟨now, call, outcome⟩ = false := by simp [Entry.isFailedStop, hs]
  refine ⟨?_, ?_, ?_, ?_⟩
  · rw [hl]
    exact h.blocks.vain hs ho
  · rw [hl, hm, overrun_snoc_of_not_start _ hi, h.overlaps]
  · rintro _ ⟨⟩
  · rw [hl, hm, overrun_snoc_of_not_start _ hi, failedStops_snoc, hf, h.pending]
    simp

theorem stop (h : d.Serves (some mode)) (hc : d.perform now (.stop mode) = (outcome, d')) :
    d'.Serves none := by
  have hl := perform_log_toList hc
  have he := h.engaged mode rfl
  have hi : Entry.isStart ⟨now, .stop mode, outcome⟩ = false := by
    simp [Entry.isStart, Call.starts?]
  have hb : InBlocks d'.log.toList none := by
    rw [hl]
    exact h.blocks.stop rfl
  by_cases ho : outcome = .done
  · obtain ⟨m, hm, hv, hg⟩ := d.motor.accept_stop mode
    rw [perform_done (ho ▸ hc)] at hm
    cases hm
    rw [if_pos he] at hg
    refine ⟨hb, ?_, by rintro _ ⟨⟩, ?_⟩
    · rw [hl, hv, overrun_snoc_of_not_start _ hi, h.overlaps]
    · rw [hl, overrun_snoc_of_not_start _ hi, failedStops_snoc, h.pending, hg, ho]
      simp [Entry.isFailedStop]
  · have hm := perform_motor_of_ne_done hc ho
    refine ⟨hb, ?_, by rintro _ ⟨⟩, ?_⟩
    · rw [hl, hm, overrun_snoc_of_not_start _ hi, h.overlaps]
    · rw [hl, overrun_snoc_of_not_start _ hi, failedStops_snoc, h.pending, hm, he]
      simp [Entry.isFailedStop, Call.starts?, ho]

theorem rest (h : d.Serves none) (hs : ∀ e ∈ d.log.toList, e.isFailedStop = false) :
    d.motor.engaged = none := by
  have hp := h.pending
  rw [failedStops_eq_zero hs] at hp
  cases he : d.motor.engaged with
  | none => rfl
  | some mode => simp [he] at hp

end Device.Serves

/-! ## The controller -/

/-- The mode of the session that plays. -/
def Slot.mode? (slot : Slot) : Option Mode := slot.playing?.map fun p => p.session.mode

@[simp] theorem Slot.mode?_free : Slot.free.mode? = none := rfl

theorem Session.start_starts {s : Session} {call : Call} (h : s.start = .ok call) :
    call.starts? = some s.mode := by
  unfold Session.start at h
  unfold Session.mode
  split at h <;> cases h <;> simp_all [Call.starts?, Request.mode]

namespace Playback

/-- A playback repeats the call that its session starts with. -/
def Repeats (p : Playback) : Prop := p.session.start = .ok p.start

theorem halt_serves {p : Playback} {now : Nat} {d d' : Device} {done : Bool}
    (h : p.halt now d = (done, d')) (hd : d.Serves (some p.session.mode)) : d'.Serves none := by
  obtain ⟨outcome, hc, -⟩ := perform_of_halt h
  exact hd.stop hc

theorem Course.serves {p : Playback} {how : Ending} {d : Device} {r : Progress × Device}
    (h : Course p how d r) (hp : p.Repeats) (hd : d.Serves (some p.session.mode)) :
    r.2.Serves (r.1.playing?.map fun q => q.session.mode) := by
  have hs := Session.start_starts hp
  induction h with
  | pause => exact hd
  | again hh hc _ ih => exact ih ((halt_serves hh hd).start hs hc)
  | halted hh | haltCrashed hh => exact halt_serves hh hd
  | refused hh hc | startCrashed hh hc => exact (halt_serves hh hd).vain hs hc nofun

end Playback

/-- The device has been called in order, and what plays was begun by the start of its session. -/
structure Controller.Orderly (c : Controller) : Prop where
  serves : c.device.Serves c.slot.mode?
  repeats : ∀ p, c.slot = .playing p → p.Repeats

namespace Controller.Orderly
variable {c : Controller}

theorem settle (h : c.Orderly) {p : Playback} {how : Ending} {r : Progress × Device}
    (hp : c.slot = .playing p) (hc : p.Course how c.device r) : (c.settle p.session r).Orderly := by
  have hr := h.repeats p hp
  have hs := h.serves
  rw [hp] at hs
  have hd := hc.serves hr hs
  rcases r with ⟨q | ⟨t, e⟩ | _, d⟩
  · obtain ⟨hq, hcall⟩ := hc.playing rfl
    refine ⟨hd, ?_⟩
    rintro _ ⟨⟩
    unfold Playback.Repeats
    rw [hq, hcall]
    exact hr
  · exact ⟨hd, by rintro _ ⟨⟩⟩
  · exact ⟨hd, by rintro _ ⟨⟩⟩

theorem launch (h : c.Orderly) (hf : c.slot = .free) (s : Session) : (c.launch s).2.Orderly := by
  have hd := h.serves
  rw [hf] at hd
  have hl := c.launch_launched s
  generalize c.launch s = r at hl ⊢
  cases hl with
  | active hs hc =>
    refine ⟨hd.start (Session.start_starts hs) hc, ?_⟩
    rintro _ ⟨⟩
    exact hs
  | refused hs hc =>
    have hd' := hd.vain (Session.start_starts hs) hc nofun
    exact ⟨by simpa [hf] using hd', by simp [hf]⟩
  | unresolved => exact ⟨by simpa [hf] using hd, by simp [hf]⟩
  | crashed hs hc =>
    have hd' := hd.vain (Session.start_starts hs) hc nofun
    exact ⟨by simpa [hf] using hd', by simp [hf]⟩

theorem move {k : Nat} {c' : Controller} (hm : Move c k c') (h : c.Orderly) : c'.Orderly := by
  cases hm with
  | pass now _ => exact ⟨h.serves, h.repeats⟩
  | free hp =>
    have hs := h.serves
    rw [Slot.mode?, hp] at hs
    exact ⟨hs, by rintro _ ⟨⟩⟩
  | settle hp hc => exact h.settle hp hc
  | launch hf _ _ =>
    exact launch (c := { c with nextId := c.nextId + 1 }) ⟨h.serves, h.repeats⟩ hf _

theorem engaged_of_playing (h : c.Orderly) {p : Playback} (hp : c.slot = .playing p) :
    c.device.motor.engaged = some p.session.mode :=
  h.serves.engaged _ (by rw [Slot.mode?, hp]; rfl)

/-- As long as no stop has failed the motor runs only for a session. -/
theorem playing_of_engaged (h : c.Orderly)
    (hn : ∀ e ∈ c.device.log.toList, e.isFailedStop = false)
    (he : c.device.motor.engaged.isSome) : ∃ p, c.slot = .playing p := by
  cases hs : c.slot with
  | playing p => exact ⟨p, rfl⟩
  | free | spent =>
    have hd := h.serves
    rw [hs] at hd
    rw [hd.rest hn] at he
    cases he

end Controller.Orderly

theorem Setup.orderly (s : Setup) (events : List Event) : (s.after events).Orderly := by
  have h : s.mailbox.controller.Orderly :=
    ⟨⟨.nil, rfl, by rintro _ ⟨⟩, rfl⟩, by rintro _ ⟨⟩⟩
  exact (s.after_moves events).invariant (P := fun c _ => c.Orderly) (n := 0)
    Controller.Orderly.move h

/-! ## The discipline -/

/-- A stop ends a block, right after the start of it, or comes after the block. -/
theorem Block.split {b rest before after : List Entry} {e : Entry} {mode : Mode} (h : Block b)
    (he : e.call = .stop mode) (hl : b ++ rest = before ++ e :: after) :
    (∃ f, before = [f] ∧ f.Starts mode) ∨
      ∃ before', before = b ++ before' ∧ rest = before' ++ e :: after := by
  have hn : ∀ {mode'}, ¬ e.call.starts? = some mode' := by
    rw [he]
    nofun
  cases h with
  | vain hs _ =>
    cases before with
    | nil =>
      cases hl
      exact absurd hs hn
    | cons f before =>
      simp only [List.cons_append, List.nil_append, List.cons.injEq] at hl
      exact .inr ⟨before, by rw [hl.1]; rfl, hl.2⟩
  | pair hs hf =>
    rcases before with _ | ⟨f, _ | ⟨g, before⟩⟩
    · cases hl
      exact absurd hs.1 hn
    · cases hl
      rw [he] at hf
      cases hf
      exact .inl ⟨_, rfl, hs⟩
    · simp only [List.cons_append, List.nil_append, List.cons.injEq] at hl
      obtain ⟨rfl, rfl, hl⟩ := hl
      exact .inr ⟨before, rfl, hl⟩

theorem InBlocks.start_before_stop {log : List Entry} {live : Option Mode} (h : InBlocks log live)
    {before after : List Entry} {e : Entry} {mode : Mode} (hl : log = before ++ e :: after)
    (he : e.call = .stop mode) : ∃ earlier f, before = earlier ++ [f] ∧ f.Starts mode := by
  obtain ⟨blocks, rest, hb, hr, rfl⟩ := h
  induction blocks generalizing before with
  | nil =>
    -- What is left after the blocks is at most one start, so it has no stop.
    cases live with
    | none =>
      rw [show rest = [] from hr] at hl
      simp at hl
    | some mode' =>
      obtain ⟨f, rfl, hf, -⟩ := hr
      cases before with
      | nil =>
        cases hl
        rw [he] at hf
        cases hf
      | cons => simp at hl
  | cons b blocks ih =>
    rw [List.flatten_cons, List.append_assoc] at hl
    rcases (hb b List.mem_cons_self).split he hl with ⟨f, rfl, hf⟩ | ⟨before', rfl, hr'⟩
    · exact ⟨[], f, rfl, hf⟩
    · obtain ⟨earlier, f, rfl, hf⟩ := ih (fun b hm => hb b (List.mem_cons_of_mem _ hm)) hr'
      exact ⟨b ++ earlier, f, (List.append_assoc ..).symm, hf⟩

/-- **Call discipline.** After every run the calls fall into blocks, and what is left of them is the
start of the session that plays, if one plays. So every stop comes right after the start it belongs
to, and starts overrun the motor only where a stop had failed. -/
theorem calls_in_blocks (s : Setup) (events : List Event) :
    let c := s.after events
    let log := c.device.log.toList
    (∃ (blocks : List (List Entry)) (rest : List Entry), (∀ b ∈ blocks, Block b) ∧
      Tail c.slot.mode? rest ∧ log = blocks.flatten ++ rest) ∧
    (∀ before e after mode, log = before ++ e :: after → e.call = .stop mode →
      ∃ earlier f, before = earlier ++ [f] ∧ f.Starts mode) ∧
    c.device.motor.overlaps = overrun log ∧
    ((∀ e ∈ log, e.isFailedStop = false) → c.device.motor.overlaps = 0) := by
  intro c log
  have h := (s.orderly events).serves
  refine ⟨h.blocks, fun _ _ _ _ => h.blocks.start_before_stop, h.overlaps, fun hs => ?_⟩
  have hn := failedStops_eq_zero hs
  have hle : overrun log ≤ failedStops log := overrun_le_failedStops log
  have ho : c.device.motor.overlaps = overrun log := h.overlaps
  omega

/-- The stop of a plain run that was taken over after 30 milliseconds comes right after its start. -/
theorem calls_in_blocks_sample :
    (∀ e ∈ (Setup.sample.after Setup.sampleEvents).device.log.toList, e.isFailedStop = false) ∧
      (Setup.sample.after Setup.sampleEvents).device.motor.overlaps = 0 ∧
      ∃ earlier f, [(⟨0, .startOnce 100 .unknown {}, .done⟩ : Entry)] = earlier ++ [f] ∧
        f.Starts .time := by
  have hn : ∀ e ∈ (Setup.sample.after Setup.sampleEvents).device.log.toList,
      e.isFailedStop = false := by decide
  have hl : (Setup.sample.after Setup.sampleEvents).device.log.toList =
      [⟨0, .startOnce 100 .unknown {}, .done⟩] ++ ⟨30, .stop .time, .done⟩ ::
        (Setup.sample.after Setup.sampleEvents).device.log.toList.drop 2 := by decide
  obtain ⟨-, hstop, -, hzero⟩ := calls_in_blocks Setup.sample Setup.sampleEvents
  exact ⟨hn, hzero hn, hstop _ _ _ _ hl rfl⟩

end Haptics
