import Mathlib.Data.List.Forall2
import Haptics.Proofs.Alike
import Haptics.Proofs.Calls
import Haptics.Proofs.Checked
import Haptics.Proofs.Clock

/-! The values that reach the motor. The log of a device consists of one share for each start that was
taken on, in their order, and every start in a share carries what its request asked for, which has
passed the check. -/

namespace Haptics

/-! ## The calls of one session -/

/-- How often calls try to start the motor. -/
def attempts (calls : List Entry) : Nat := calls.countP fun e => e.call.starts?.isSome

@[simp] theorem attempts_nil : attempts [] = 0 := rfl

@[simp] theorem attempts_append (calls calls' : List Entry) :
    attempts (calls ++ calls') = attempts calls + attempts calls' := List.countP_append

theorem attempts_singleton_le (e : Entry) : attempts [e] ≤ 1 := List.countP_le_length

/-- How many repetitions may still be started. -/
def Progress.left : Progress → Nat
  | .playing p => p.left
  | _ => 0

namespace Playback

/-- From a device on, a playback has made calls of which each start repeats its first one, and at most
`left` starts have been made or are still to come. -/
def Adds (p : Playback) (left : Nat) (d : Device) (r : Progress × Device) : Prop :=
  ∃ calls, r.2.log.toList = d.log.toList ++ calls ∧
    (∀ e ∈ calls, e.call.starts?.isSome → e.call = p.start) ∧ attempts calls + r.1.left ≤ left

variable {p : Playback} {t due left : Nat} {d d' d'' : Device} {r : Progress × Device}

theorem Adds.halted {result : Progress} {done : Bool} (h : p.halt t d = (done, d'))
    (hr : result.left ≤ left) : p.Adds left d (result, d') := by
  obtain ⟨outcome, hc, -⟩ := perform_of_halt h
  refine ⟨_, Device.perform_log_toList hc, ?_, ?_⟩
  · intro e he hs
    rw [List.mem_singleton.mp he] at hs
    cases hs
  · have hstop : attempts [(⟨t, .stop p.session.mode, outcome⟩ : Entry)] = 0 := rfl
    show _ + result.left ≤ left
    omega

/-- A repetition is stopped and the next one started, which takes one from those that are left. -/
theorem Adds.restarted {outcome : Outcome} (h : p.halt t d = (true, d'))
    (hs : d'.perform t p.start = (outcome, d'')) (hr : p.Adds left d'' r) :
    p.Adds (left + 1) d r := by
  obtain ⟨o, hc, -⟩ := perform_of_halt h
  obtain ⟨calls, hl, ho, hn⟩ := hr
  refine ⟨[⟨t, .stop p.session.mode, o⟩] ++ [⟨t, p.start, outcome⟩] ++ calls, ?_, ?_, ?_⟩
  · rw [hl, Device.perform_log_toList hs, Device.perform_log_toList hc]
    simp
  · intro e he hs
    simp only [List.mem_append, List.mem_singleton] at he
    rcases he with (rfl | rfl) | he
    · cases hs
    · rfl
    · exact ho e he hs
  · have hstop : attempts [(⟨t, .stop p.session.mode, o⟩ : Entry)] = 0 := rfl
    have hstart : attempts [(⟨t, p.start, outcome⟩ : Entry)] ≤ 1 := attempts_singleton_le _
    rw [attempts_append, attempts_append]
    omega

theorem Adds.rest (hr : r.1.left ≤ left) (hd : r.2 = d) : p.Adds left d r :=
  ⟨[], by simp [hd], by simp, by simpa using hr⟩

theorem Pace.adds (h : Pace p t due left d r) : p.Adds left d r := by
  induction h with
  | pause => exact .rest (Nat.le_refl _) rfl
  | last _ hh | haltCrashed _ hh => exact .halted hh (Nat.zero_le _)
  | again _ hh hs _ ih => exact ih.restarted hh hs
  | refused _ hh hs | startCrashed _ hh hs =>
    exact Adds.restarted hh hs (.rest (Nat.zero_le _) rfl)

theorem interrupt_adds (p : Playback) (now : Nat) (signal : Signal) (d : Device) :
    p.Adds p.left d (p.interrupt now signal d) ∧
      (p.interrupt now signal d).1.playing? = none := by
  unfold interrupt
  rcases hh : p.halt now d with ⟨_ | _, d'⟩
  · exact ⟨.halted hh (Nat.zero_le _), rfl⟩
  · exact ⟨.halted hh (Nat.zero_le _), rfl⟩

end Playback

/-- Of the calls that were made for a session every start is its own; and with `left` more there are
no more starts than repetitions. -/
structure Session.Asks (s : Session) (left : Nat) (calls : List Entry) : Prop where
  own : ∀ e ∈ calls, e.call.starts?.isSome → s.start = .ok e.call
  few : attempts calls + left ≤ s.repetitions

namespace Session.Asks
variable {s : Session} {left : Nat} {calls : List Entry}

theorem mono (h : s.Asks left calls) {less : Nat} (hl : less ≤ left) : s.Asks less calls :=
  ⟨h.own, Nat.le_trans (Nat.add_le_add_left hl _) h.few⟩

/-- The first start of a session. -/
theorem first {e : Entry} (hs : s.start = .ok e.call) (hr : 0 < s.repetitions) :
    s.Asks (s.repetitions - 1) [e] := by
  refine ⟨?_, ?_⟩
  · intro e' he _
    rw [List.mem_singleton.mp he]
    exact hs
  · have hone := attempts_singleton_le e
    omega

theorem adds {p : Playback} (h : p.session.Asks p.left calls) (hp : p.Repeats) {d : Device}
    {r : Progress × Device} (ha : p.Adds p.left d r) :
    ∃ more, r.2.log.toList = d.log.toList ++ more ∧ p.session.Asks r.1.left (calls ++ more) := by
  obtain ⟨more, hl, ho, hn⟩ := ha
  refine ⟨more, hl, ?_, ?_⟩
  · intro e he hs
    rcases List.mem_append.mp he with he | he
    · exact h.own e he hs
    · rw [ho e he hs]
      exact hp
  · have := h.few
    rw [attempts_append]
    omega

end Session.Asks

/-! ## The share of a request -/

/-- The start that carries what a request asks for. -/
inductive Request.Begins (catalog : Catalog) (limit : Int64) (context : Context) :
    Request → Call → Prop where
  | once {millis : Int64} {n : UInt64} : (n.toNat : Int) = millis.toInt → 1 ≤ n.toNat →
      (n.toNat : Int) ≤ limit.toInt →
      Begins catalog limit context (.time millis) (.startOnce n context.usage context.parameter)
  | effect {effectId : String} {count : Int32} {effect : Effect} :
      catalog.find? effectId = some effect → effect.id = effectId → 1 ≤ effect.durationMs.toNat →
      Begins catalog limit context (.preset effectId count)
        (.startEffect effect context.usage context.parameter)

/-- The calls that were made for a request: its numbers are in their bounds, every start carries them
unaltered, and a preset is started at most as often as it is to be played. -/
structure Carries (catalog : Catalog) (limit : Int64) (r : Request × Context) (calls : List Entry) :
    Prop where
  intensity : 0 ≤ r.2.parameter.intensity ∧ r.2.parameter.intensity ≤ 100
  frequency : -100 ≤ r.2.parameter.frequency ∧ r.2.parameter.frequency ≤ 100
  values : ∀ e ∈ calls, e.call.starts?.isSome → r.1.Begins catalog limit r.2 e.call
  often : (attempts calls : Int) ≤ match r.1 with
    | .time _ => 1
    | .preset _ count => count.toInt

theorem Carries.of_asks {effects : List Effect} {limit : Int64} {id : UInt64} {r : Request × Context}
    {s : Session} {calls : List Entry}
    (hc : Session.check ⟨id, r.1, r.2, none⟩ (.ofList effects) limit = .ok s)
    (h : s.Asks 0 calls) : Carries (.ofList effects) limit r calls := by
  obtain ⟨request, context⟩ := r
  obtain ⟨hp, hk⟩ := Session.check_checked hc
  obtain ⟨hi, hf⟩ := Parameter.bounds_of_check hp
  have hfew := h.few
  refine ⟨hi, hf, fun e he hs => ?_, ?_⟩
  · have ho := h.own e he hs
    cases hk with
    | @time millis hr hm hl =>
      obtain rfl : request = .time millis := hr
      have ht := toNat_toUInt64_of_pos hm
      have hpos := Int64.lt_iff_toInt_lt.mp hm
      have hle := Int64.le_iff_toInt_le.mp hl
      rw [Int64.toInt_zero] at hpos
      rw [← Except.ok.inj ho]
      exact .once ht (by omega) (by omega)
    | @preset effectId count effect hr hm he =>
      obtain rfl : request = .preset effectId count := hr
      obtain ⟨hid, hpos⟩ := Catalog.find?_ofList he
      rw [← Except.ok.inj ho]
      exact .effect he hid (UInt64.lt_iff_toNat_lt.mp hpos)
  · cases hk with
    | @time millis hr =>
      obtain rfl : request = .time millis := hr
      exact Int.ofNat_le.mpr hfew
    | @preset effectId count effect hr hm =>
      obtain rfl : request = .preset effectId count := hr
      have hc := Int32.le_iff_toInt_le.mp hm
      rw [Int32.toInt_one] at hc
      simp only [Session.repetitions] at hfew ⊢
      omega

/-! ## The shares in a log -/

namespace Controller

/-- The request that a job takes on. -/
def takenOn (c : Controller) : Job → List (Request × Context)
  | .start request context =>
    if c.accepts (.start request context) then [(request, context)] else []
  | _ => []

/-- The log consists of the shares of the requests that were taken on; the last one is still open if
its session plays. -/
inductive Shared (effects : List Effect) (limit : Int64) (c : Controller) :
    List (Request × Context) → Prop where
  | quiet {taken : List (Request × Context)} {parts : List (List Entry)} :
      c.slot.playing? = none → c.device.log.toList = parts.flatten →
      List.Forall₂ (Carries (.ofList effects) limit) taken parts → Shared effects limit c taken
  | playing {taken : List (Request × Context)} {parts : List (List Entry)} {r : Request × Context}
      {last : List Entry} {id : UInt64} {p : Playback} :
      c.slot.playing? = some p → c.device.log.toList = parts.flatten ++ last →
      List.Forall₂ (Carries (.ofList effects) limit) taken parts →
      Session.check ⟨id, r.1, r.2, none⟩ (.ofList effects) limit = .ok p.session → p.Repeats →
      p.session.Asks p.left last → Shared effects limit c (taken ++ [r])

namespace Shared
variable {effects : List Effect} {limit : Int64} {c c' : Controller}
  {taken : List (Request × Context)}

theorem congr (h : Shared effects limit c taken) (hs : c'.slot.playing? = c.slot.playing?)
    (hd : c'.device = c.device) : Shared effects limit c' taken := by
  cases h with
  | quiet hn hl hc => exact .quiet (hs.trans hn) (hd ▸ hl) hc
  | playing hp hl hc hk hr ha => exact .playing (hs.trans hp) (hd ▸ hl) hc hk hr ha

/-- What the session in the slot does goes into its own share. -/
theorem settle (h : Shared effects limit c taken) {p : Playback} {how : Ending}
    {r : Progress × Device} (hp : c.slot = .playing p) (hc : p.Course how c.device r)
    (ha : p.Adds p.left c.device r) : Shared effects limit (c.settle p.session r) taken := by
  cases h with
  | quiet hn => simp [hp, Slot.playing?] at hn
  | @playing taken parts request last id q hq hl hf hk hr hasks =>
    obtain rfl : p = q := by simpa [hp, Slot.playing?] using hq
    obtain ⟨more, hlog, hasks⟩ := hasks.adds hr ha
    have hlog' : (c.settle p.session r).device.log.toList = parts.flatten ++ (last ++ more) := by
      rw [settle_device, hlog, hl, List.append_assoc]
    have hslot := settle_playing c p.session r
    cases hplay : r.1.playing? with
    | none =>
      have hend := Carries.of_asks hk (hasks.mono (Nat.zero_le _))
      exact .quiet (hslot.trans hplay) (by rw [hlog']; simp) (List.rel_append hf (.cons hend .nil))
    | some q =>
      have hrq : r.1 = .playing q := by
        cases hr₁ : r.1 <;> simp_all [Progress.playing?]
      obtain ⟨hs, hcall⟩ := hc.playing hrq
      rw [hrq] at hasks
      refine .playing (hslot.trans hplay) hlog' hf (hs.symm ▸ hk) ?_ (hs.symm ▸ hasks)
      unfold Playback.Repeats
      rw [hs, hcall]
      exact hr

theorem wait (h : Shared effects limit c taken) (millis : Nat) :
    Shared effects limit (c.wait millis) taken := by
  cases hs : c.slot with
  | free | spent =>
    rw [wait_of_not_playing (by rw [hs]; rfl)]
    exact h.congr rfl rfl
  | playing p =>
    rw [wait_of_playing hs]
    have hw : Shared effects limit { c with now := c.now + millis } taken := h.congr rfl rfl
    exact hw.settle hs (p.advance_course _ _) (p.run_pace _ _ _ _).adds

theorem teardown (h : Shared effects limit c taken) (signal : Signal) :
    Shared effects limit (c.teardown signal) taken := by
  cases hs : c.slot with
  | free | spent =>
    rw [teardown_of_not_playing (by rw [hs]; rfl)]
    exact h.congr (by simp [hs, Slot.playing?]) rfl
  | playing p =>
    obtain ⟨ha, hn⟩ := p.interrupt_adds c.now signal c.device
    rw [teardown_eq_settle hs]
    refine (h.settle hs (p.interrupt_course _ _ _) ha).congr ?_ rfl
    rw [settle_playing, hn]
    rfl

theorem launch (h : Shared effects limit c taken) (hs : c.slot.playing? = none) {s : Session}
    {r : Request × Context} {id : UInt64}
    (hk : Session.check ⟨id, r.1, r.2, none⟩ (.ofList effects) limit = .ok s) :
    Shared effects limit (c.launch s).2 (taken ++ [r]) := by
  cases h with
  | playing hp =>
    rw [hs] at hp
    cases hp
  | @quiet taken parts _ hl hf =>
    have hfirst : ∀ {call : Call} (outcome : Outcome), s.start = .ok call →
        s.Asks (s.repetitions - 1) [⟨c.now, call, outcome⟩] := fun outcome hs =>
      .first hs (Session.repetitions_pos hk)
    have hclose : ∀ {call : Call} (outcome : Outcome), s.start = .ok call →
        List.Forall₂ (Carries (.ofList effects) limit) (taken ++ [r])
          (parts ++ [[⟨c.now, call, outcome⟩]]) := fun outcome hs =>
      List.rel_append hf (.cons (.of_asks hk ((hfirst outcome hs).mono (Nat.zero_le _))) .nil)
    have hlaunch := c.launch_launched s
    generalize c.launch s = r at hlaunch ⊢
    cases hlaunch with
    | active hs hc =>
      refine .playing rfl ?_ hf hk hs (hfirst .done hs)
      rw [publish_device, Device.perform_log_toList hc, hl]
    | @refused call why d hst hc =>
      refine .quiet hs ?_ (hclose (.refused why) hst)
      rw [publish_device, Device.perform_log_toList hc, hl]
      simp
    | crashed hst hc =>
      refine .quiet hs ?_ (hclose .crashed hst)
      rw [Device.perform_log_toList hc, hl]
      simp
    | unresolved =>
      have hnone : s.Asks 0 [] := ⟨by simp, Nat.zero_le _⟩
      exact .quiet hs (by simp [hl]) (List.rel_append hf (.cons (.of_asks hk hnone) .nil))

theorem stop (h : Shared effects limit c taken) (mode : Option Mode) :
    Shared effects limit (c.stop mode).2 taken := by
  have hs := c.stop_heeded mode
  generalize c.stop mode = r at hs ⊢
  cases hs with
  | denied | ignored => exact h
  | idle => exact h.congr c.release_playing c.release_device
  | stopped => exact h.teardown .stopped

theorem start (h : Shared effects limit c taken) (hcat : c.catalog = .ofList effects)
    (hlim : c.settings.maxDurationMs = limit) (request : Request) (context : Context) :
    Shared effects limit (c.start request context).2
      (taken ++ c.takenOn (.start request context)) := by
  have hs := c.start_dealt request context
  simp only [takenOn, accepts]
  generalize c.start request context = r at hs ⊢
  cases hs with
  | invalid hc => simpa [hc] using h
  | denied hc hg => simpa [hc, hg] using h
  | conflict hc hg ho =>
    have hr : Shared effects limit c.release taken := h.congr c.release_playing c.release_device
    simpa [hc, hg, ho] using hr
  | @launched s hc hg ho =>
    have hk := hc
    rw [candidate, hcat, hlim] at hk
    have ht : Shared effects limit { c.teardown .preempted with nextId := c.nextId + 1 } taken :=
      (h.teardown .preempted).congr rfl rfl
    have hn : (c.teardown .preempted).slot.playing? = none := by
      rw [teardown_slot]
      rfl
    simpa [hc, hg, ho] using ht.launch (r := (request, context)) hn hk

theorem work (h : Shared effects limit c taken) (hcat : c.catalog = .ofList effects)
    (hlim : c.settings.maxDurationMs = limit) (job : Job) :
    Shared effects limit (c.work job) (taken ++ c.takenOn job) := by
  cases job with
  | start request context => exact h.start hcat hlim request context
  | rest => simpa [takenOn, Controller.work] using h
  | wait millis => simpa [takenOn, Controller.work] using h.wait millis
  | finish => simpa [takenOn, Controller.work] using h.teardown .stopped
  | stop mode => simpa [takenOn, Controller.work] using h.stop mode

end Shared

end Controller

/-! ## Runs -/

namespace Mailbox

/-- The requests that a run takes on, in this order. -/
def takenOn (m : Mailbox) : List Event → List (Request × Context)
  | [] => []
  | e :: events => m.controller.takenOn (m.job e) ++ (m.step e).takenOn events

theorem takenOn_append (m : Mailbox) (events events' : List Event) :
    m.takenOn (events ++ events') = m.takenOn events ++ (m.run events).takenOn events' := by
  induction events generalizing m with
  | nil => rfl
  | cons e events ih => rw [List.cons_append, takenOn, takenOn, ih, run_cons, List.append_assoc]

theorem mem_queue_of_post {m : Mailbox} {command : Command} {q : Nat × Command}
    (h : q ∈ (m.post (.ok command)).queue) : q ∈ m.queue ∨ command = q.2 := by
  rw [post_ok] at h
  split at h
  · exact .inl h
  · split at h
    · exact .inl h
    · rcases List.mem_append.mp h with h | h
      · exact .inl h
      · rw [List.mem_singleton.mp h]
        exact .inr rfl

/-- Nothing gets into the queue but by an event. -/
theorem mem_queue_of_step {m : Mailbox} {e : Event} {q : Nat × Command}
    (h : q ∈ (m.step e).queue) : q ∈ m.queue ∨ e.command? = some q.2 := by
  cases hc : e.command? with
  | some command =>
    rw [step_of_command m hc] at h
    exact (mem_queue_of_post h).imp_right (congrArg some)
  | none =>
    refine .inl ?_
    cases e with
    | wait => exact h
    | post command =>
      cases command with
      | ok => cases hc
      | error => exact h
    | line text =>
      have hc : Line.command? text = none := hc
      simpa only [step, submit_eq, hc] using h
    | shutdown =>
      simp only [step, shutdown] at h
      split at h
      · simp at h
      · exact h
    | serve =>
      rcases hq : m.queue with _ | ⟨⟨ticket, command⟩, queue⟩
      · simp [step, serve, hq] at h
      · simp only [step, serve, hq] at h
        refine List.mem_cons_of_mem _ ?_
        cases hr : m.controller.reply? command with
        | some answer =>
          rw [process_of_reply (m := { m with queue }) hr] at h
          exact h
        | none =>
          rw [process_of_crash (m := { m with queue }) hr] at h
          simp at h

/-- A start that is taken on was the first command in the queue. -/
theorem queued_of_takenOn {m : Mailbox} {e : Event} {r : Request × Context}
    (h : r ∈ m.controller.takenOn (m.job e)) : ∃ q ∈ m.queue, q.2 = .start r.1 r.2 := by
  cases e with
  | post | line | wait => cases h
  | shutdown => cases ha : m.alive <;> simp [job, ha, Controller.takenOn] at h
  | serve =>
    rcases hq : m.queue with _ | ⟨⟨ticket, command⟩, queue⟩
    · simp [job, hq, Controller.takenOn] at h
    · cases command with
      | stop => simp [job, hq, Command.job, Controller.takenOn] at h
      | start request context =>
        simp only [job, hq, Command.job, Controller.takenOn, List.head?_cons, Option.map_some,
          Option.getD_some] at h
        split at h
        · rw [List.mem_singleton.mp h]
          exact ⟨_, List.mem_cons_self, rfl⟩
        · cases h

/-- What is taken on was asked for, by a command in the queue or by an event. -/
theorem asked_of_mem_takenOn {m : Mailbox} {events : List Event} {r : Request × Context}
    (h : r ∈ m.takenOn events) :
    (∃ q ∈ m.queue, q.2 = .start r.1 r.2) ∨ ∃ e ∈ events, e.command? = some (.start r.1 r.2) := by
  induction events generalizing m with
  | nil => cases h
  | cons e events ih =>
    rcases List.mem_append.mp h with h | h
    · exact .inl (queued_of_takenOn h)
    · rcases ih h with ⟨q, hq, hc⟩ | ⟨e', he, hc⟩
      · rcases mem_queue_of_step hq with hq | hs
        · exact .inl ⟨q, hq, hc⟩
        · exact .inr ⟨e, List.mem_cons_self, hc ▸ hs⟩
      · exact .inr ⟨e', List.mem_cons_of_mem e he, hc⟩

end Mailbox

namespace Setup

def takenOn (s : Setup) (events : List Event) : List (Request × Context) := s.mailbox.takenOn events

theorem takenOn_snoc (s : Setup) (events : List Event) (e : Event) :
    s.takenOn (events ++ [e]) =
      s.takenOn events ++ (s.after events).takenOn ((s.run events).job e) := by
  have h := s.mailbox.takenOn_append events [e]
  rwa [Mailbox.takenOn, Mailbox.takenOn, List.append_nil] at h

theorem shared (s : Setup) {effects : List Effect} (hcat : s.catalog = .ofList effects)
    (events : List Event) :
    (s.after events).Shared effects s.settings.maxDurationMs (s.takenOn events) := by
  induction events using List.reverseRecOn with
  | nil =>
    have hl : s.mailbox.controller.device.log.toList = ([] : List (List Entry)).flatten := rfl
    exact .quiet rfl hl .nil
  | append_singleton events e ih =>
    have hg := (s.after_moves events).grows
    have hw := ih.work (hg.catalog.trans hcat) (by rw [hg.settings]; rfl) ((s.run events).job e)
    rw [← after_snoc] at hw
    rwa [takenOn_snoc]

end Setup

/-- **Only checked values reach the motor.** After every run the log of the device consists of one
share for each request that was taken on, in their order; each of these was posted, or asked for by a
line. In a share every start carries the values of the request. -/
theorem only_checked_values (s : Setup) (effects : List Effect) (hcat : s.catalog = .ofList effects)
    (events : List Event) :
    (∃ parts : List (List Entry), (s.after events).device.log.toList = parts.flatten ∧
      List.Forall₂ (Carries s.catalog s.settings.maxDurationMs) (s.takenOn events) parts) ∧
    ∀ r ∈ s.takenOn events, ∃ e ∈ events, e.command? = some (.start r.1 r.2) := by
  refine ⟨?_, fun r hr => ?_⟩
  · have h := s.shared hcat events
    rw [hcat]
    generalize s.takenOn events = taken at h ⊢
    cases h with
    | quiet _ hl hf => exact ⟨_, hl, hf⟩
    | @playing taken parts r last id p _ hl hf hk _ ha =>
      have hlast := Carries.of_asks hk (ha.mono (Nat.zero_le _))
      exact ⟨parts ++ [last], by simp [hl], List.rel_append hf (.cons hlast .nil)⟩
  · rcases Mailbox.asked_of_mem_takenOn hr with ⟨q, hq, -⟩ | h
    · cases hq
    · exact h

/-- A plain run, and a preset that has begun its second repetition. -/
theorem only_checked_values_sample :
    Setup.sample.catalog = .ofList [⟨"tick", 50⟩] ∧
      ∃ parts : List (List Entry),
        (Setup.sample.after Setup.sampleEvents).device.log.toList = parts.flatten ∧
        List.Forall₂ (Carries Setup.sample.catalog 1800000)
          [(.time 100, {}), (.preset "tick" 3, { usage := .ring })] parts := by
  have ht : Setup.sample.takenOn Setup.sampleEvents =
      [(.time 100, {}), (.preset "tick" 3, { usage := .ring })] := by decide
  obtain ⟨⟨parts, hl, hf⟩, -⟩ :=
    only_checked_values Setup.sample [⟨"tick", 50⟩] rfl Setup.sampleEvents
  exact ⟨rfl, parts, hl, ht ▸ hf⟩

end Haptics
