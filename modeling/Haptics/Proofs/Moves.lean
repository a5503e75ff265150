import Haptics.Proofs.Run

/-! The smallest changes of a controller. Every job is a sequence of moves of four kinds, so that an
invariant of all runs needs only four cases: time passes, the slot is freed, the session in the slot
plays on or is ended, and a new session is launched. Moves also count the sessions launched. -/

namespace Haptics

/-- The playback in the slot, if it still plays. -/
def Slot.playing? : Slot → Option Playback
  | .playing p => some p
  | _ => none

def Progress.playing? : Progress → Option Playback
  | .playing p => some p
  | _ => none

namespace Controller

/-- The snapshots published so far, oldest first. -/
def history (c : Controller) : List Snapshot := c.published.toList.map Publication.snapshot

/-- The session that a request is taken on as, if it passes the checks. -/
def candidate (c : Controller) (request : Request) (context : Context) : Except Invalid Session :=
  Session.check ⟨c.nextId, request, context, none⟩ c.catalog c.settings.maxDurationMs

/-- Whether a job is a start that passes the checks, is permitted and is let in by the policy. -/
def accepts (c : Controller) : Job → Bool
  | .start request context =>
    match c.candidate request context with
    | .ok s => c.settings.granted && (c.objection? s).isNone
    | .error _ => false
  | _ => false

/-! ## What the operations leave alone -/

@[simp] theorem publish_history (c : Controller) (instant : Nat) (snapshot : Snapshot) :
    (c.publish instant snapshot).history = c.history ++ [snapshot] := by
  simp [publish, history]

@[simp] theorem publish_slot (c : Controller) (instant : Nat) (snapshot : Snapshot) :
    (c.publish instant snapshot).slot = c.slot := rfl

@[simp] theorem publish_device (c : Controller) (instant : Nat) (snapshot : Snapshot) :
    (c.publish instant snapshot).device = c.device := rfl

@[simp] theorem settle_device (c : Controller) (s : Session) (r : Progress × Device) :
    (c.settle s r).device = r.2 := by
  rcases r with ⟨_ | _ | _, d⟩ <;> rfl

@[simp] theorem settle_playing (c : Controller) (s : Session) (r : Progress × Device) :
    (c.settle s r).slot.playing? = r.1.playing? := by
  rcases r with ⟨_ | _ | _, d⟩ <;> rfl

theorem settle_ended_history (c : Controller) (s : Session) (t : Nat) (e : Ending) (d : Device) :
    (c.settle s (.ended t e, d)).history = c.history ++ [s.snapshot e.phase] := publish_history ..

@[simp] theorem settle_nextId (c : Controller) (s : Session) (r : Progress × Device) :
    (c.settle s r).nextId = c.nextId := by
  rcases r with ⟨_ | _ | _, d⟩ <;> rfl

theorem teardown_slot (c : Controller) (signal : Signal) : (c.teardown signal).slot = .free := by
  unfold teardown
  split <;> rfl

theorem teardown_of_not_playing {c : Controller} (h : c.slot.playing? = none) (signal : Signal) :
    c.teardown signal = { c with slot := .free } := by
  unfold teardown
  split
  · rename_i p hp
    rw [hp] at h
    cases h
  · rfl

theorem teardown_eq_settle {c : Controller} {p : Playback} (h : c.slot = .playing p)
    (signal : Signal) : c.teardown signal =
      { c.settle p.session (p.interrupt c.now signal c.device) with slot := .free } := by
  unfold teardown
  simp only [h]

theorem wait_of_playing {c : Controller} {p : Playback} (h : c.slot = .playing p) (millis : Nat) :
    c.wait millis = { c with now := c.now + millis }.settle p.session
      (p.advance (c.now + millis) c.device) := by
  unfold wait
  simp only [h]

theorem wait_of_not_playing {c : Controller} (h : c.slot.playing? = none) (millis : Nat) :
    c.wait millis = { c with now := c.now + millis } := by
  unfold wait
  dsimp only
  split
  · rename_i p hp
    rw [hp] at h
    cases h
  · rfl

theorem settle_set_nextId (c : Controller) (id : UInt64) (s : Session) (r : Progress × Device) :
    { c with nextId := id }.settle s r = { c.settle s r with nextId := id } := by
  rcases r with ⟨_ | _ | _, d⟩ <;> rfl

/-- It makes no difference whether the number is used up before or after the teardown. -/
theorem teardown_set_nextId (c : Controller) (signal : Signal) (id : UInt64) :
    { c with nextId := id }.teardown signal = { c.teardown signal with nextId := id } := by
  unfold teardown
  dsimp only
  split
  · rw [settle_set_nextId]
  · rfl

theorem release_playing (c : Controller) : c.release.slot.playing? = c.slot.playing? := by
  unfold release
  split
  · rename_i h
    rw [h]
    rfl
  · rfl

@[simp] theorem release_nextId (c : Controller) : c.release.nextId = c.nextId := by
  unfold release
  split <;> rfl

@[simp] theorem release_history (c : Controller) : c.release.history = c.history := by
  unfold release
  split <;> rfl

theorem objection?_release (c : Controller) (s : Session) :
    c.release.objection? s = c.objection? s := by
  unfold release
  split
  · rename_i h
    unfold objection?
    rw [h]
  · rfl

theorem release_teardown (c : Controller) (signal : Signal) :
    c.release.teardown signal = c.teardown signal := by
  unfold release
  split
  · rename_i h
    simp only [teardown, h]
  · rfl

theorem policy_of_objection? {c : Controller} {p : Playback} {s : Session}
    (hp : c.slot = .playing p) (ho : c.objection? s = none) :
    c.policy p.session.view s.view = .ok () := by
  unfold objection? at ho
  simp only [hp] at ho
  split at ho
  · assumption
  · cases ho

/-! ## How a session is launched -/

/-- The four ways the launch of a session may go, each with its answer. -/
inductive Launched (c : Controller) (s : Session) : Option Answer × Controller → Prop where
  | active {call : Call} {d : Device} : s.start = .ok call →
      c.device.perform c.now call = (.done, d) →
      Launched c s (some (.ok ()),
        { c with
          slot := .playing ⟨s, call, c.now + s.span, s.repetitions - 1⟩
          device := d }.publish c.now (s.snapshot .active))
  | refused {call : Call} {why : DeviceError} {d : Device} : s.start = .ok call →
      c.device.perform c.now call = (.refused why, d) →
      Launched c s (some (.error (.ofDevice why)),
        { c with device := d }.publish c.now (s.snapshot .failed))
  | unresolved {why : Setback} : s.start = .error why →
      Launched c s (some (.error (.failed (.setback why))),
        c.publish c.now (s.snapshot .failed))
  | crashed {call : Call} {d : Device} : s.start = .ok call →
      c.device.perform c.now call = (.crashed, d) → Launched c s (none, { c with device := d })

theorem launch_launched (c : Controller) (s : Session) : Launched c s (c.launch s) := by
  unfold launch Session.activate
  cases hs : s.start with
  | error why => exact .unresolved hs
  | ok call =>
    dsimp only
    rcases ho : c.device.perform c.now call with ⟨_ | why | _, d⟩
    · exact .active hs ho
    · exact .refused hs ho
    · exact .crashed hs ho

/-! ## How a start is dealt with -/

/-- The four ways a start may go, each with its answer. -/
inductive Dealt (c : Controller) (request : Request) (context : Context) :
    Option Answer × Controller → Prop where
  | invalid {why : Invalid} : c.candidate request context = .error why →
      Dealt c request context (some (.error (.invalid why)), c)
  | denied {s : Session} : c.candidate request context = .ok s → c.settings.granted = false →
      Dealt c request context (some (.error .denied), c)
  | conflict {s : Session} {reason : String} : c.candidate request context = .ok s →
      c.settings.granted = true → c.objection? s = some reason →
      Dealt c request context (some (.error (.failed (.conflict reason))), c.release)
  | launched {s : Session} : c.candidate request context = .ok s → c.settings.granted = true →
      c.objection? s = none →
      Dealt c request context ({ c.teardown .preempted with nextId := c.nextId + 1 }.launch s)

theorem start_dealt (c : Controller) (request : Request) (context : Context) :
    Dealt c request context (c.start request context) := by
  unfold start
  split
  · rename_i why h
    exact .invalid h
  · rename_i s h
    split
    · rename_i hg
      dsimp only
      rw [objection?_release]
      split
      · rename_i reason ho
        exact .conflict h hg ho
      · rename_i ho
        rw [teardown_set_nextId, release_teardown]
        rw [release_nextId]
        exact .launched h hg ho
    · rename_i hg
      exact .denied h (Bool.eq_false_iff.mpr hg)

/-! ## How a stop is dealt with -/

/-- The four ways a stop may go, each with its answer. -/
inductive Heeded (c : Controller) (mode : Option Mode) : Answer × Controller → Prop where
  | denied : c.settings.granted = false → Heeded c mode (.error .denied, c)
  | idle : c.settings.granted = true → c.slot.playing? = none → Heeded c mode (.ok (), c.release)
  | ignored {p : Playback} : c.settings.granted = true → c.slot = .playing p →
      ¬(mode = none ∨ mode = some p.session.mode) → Heeded c mode (.ok (), c)
  | stopped {p : Playback} : c.settings.granted = true → c.slot = .playing p →
      mode = none ∨ mode = some p.session.mode → Heeded c mode (.ok (), c.teardown .stopped)

theorem stop_heeded (c : Controller) (mode : Option Mode) : Heeded c mode (c.stop mode) := by
  unfold stop
  cases hg : c.settings.granted with
  | false => exact .denied hg
  | true =>
    cases hs : c.slot with
    | free | spent =>
      have hi : Heeded c mode (.ok (), c.release) := .idle hg (by rw [hs]; rfl)
      simpa [release, hs] using hi
    | playing p =>
      have hr : c.release = c := by unfold release; rw [hs]
      simp only [hr, hs, if_true]
      split
      · rename_i hm
        exact .stopped hg hs hm
      · rename_i hm
        exact .ignored hg hs hm

/-! ## Moves -/

/-- A smallest change, with the number of sessions that it launches. -/
inductive Move : Controller → Nat → Controller → Prop where
  | pass (c : Controller) (now : Nat) : c.now ≤ now → Move c 0 { c with now }
  | free (c : Controller) : c.slot.playing? = none → Move c 0 { c with slot := .free }
  | settle {c : Controller} {p : Playback} {how : Ending} {r : Progress × Device} :
      c.slot = .playing p → Playback.Course p how c.device r → Move c 0 (c.settle p.session r)
  | launch {c : Controller} {request : Request} {context : Context} {s : Session} :
      c.slot = .free → c.settings.granted = true → c.candidate request context = .ok s →
      Move c 1 ({ c with nextId := c.nextId + 1 }.launch s).2

/-- Any number of moves, with the number of sessions that they launch. -/
inductive Moves (c : Controller) : Nat → Controller → Prop where
  | refl : Moves c 0 c
  | snoc {n k : Nat} {c' c'' : Controller} : Moves c n c' → Move c' k c'' → Moves c (n + k) c''

namespace Moves
variable {c c' c'' : Controller} {n k : Nat}

theorem single (h : Move c k c') : Moves c k c' := Nat.zero_add k ▸ Moves.snoc .refl h

theorem trans (h : Moves c n c') (h' : Moves c' k c'') : Moves c (n + k) c'' := by
  induction h' with
  | refl => exact h
  | snoc _ hm ih => exact Nat.add_assoc .. ▸ ih.snoc hm

theorem invariant {P : Controller → Nat → Prop}
    (keep : ∀ {c n k c'}, Move c k c' → P c n → P c' (n + k)) (h : Moves c k c') (hp : P c n) :
    P c' (n + k) := by
  induction h with
  | refl => exact hp
  | snoc _ hm ih => exact Nat.add_assoc .. ▸ keep hm ih

end Moves

/-! ## What every move leaves alone -/

/-- What no move changes, and the records, to which moves only add. -/
structure Grows (c c' : Controller) : Prop where
  settings : c'.settings = c.settings
  catalog : c'.catalog = c.catalog
  policy : c'.policy = c.policy
  device : c.device.Grows c'.device
  now : c.now ≤ c'.now
  history : c.history <+: c'.history

theorem Grows.refl (c : Controller) : Grows c c :=
  ⟨rfl, rfl, rfl, .refl _, Nat.le_refl _, List.prefix_rfl⟩

theorem Grows.trans {c c' c'' : Controller} (h : Grows c c') (h' : Grows c' c'') : Grows c c'' where
  settings := h'.settings.trans h.settings
  catalog := h'.catalog.trans h.catalog
  policy := h'.policy.trans h.policy
  device := h.device.trans h'.device
  now := Nat.le_trans h.now h'.now
  history := h.history.trans h'.history

theorem settle_grows {c : Controller} {s : Session} {r : Progress × Device}
    (h : c.device.Grows r.2) : c.Grows (c.settle s r) := by
  rcases r with ⟨_ | _ | _, d⟩
  · exact ⟨rfl, rfl, rfl, h, Nat.le_refl _, List.prefix_rfl⟩
  · exact ⟨rfl, rfl, rfl, h, Nat.le_refl _, publish_history .. ▸ List.prefix_append _ _⟩
  · exact ⟨rfl, rfl, rfl, h, Nat.le_refl _, List.prefix_rfl⟩

theorem launch_grows (c : Controller) (s : Session) : c.Grows (c.launch s).2 := by
  have h := c.launch_launched s
  generalize c.launch s = r at h ⊢
  cases h with
  | active _ ho | refused _ ho =>
    exact ⟨rfl, rfl, rfl, Device.perform_grows ho, Nat.le_refl _,
      publish_history .. ▸ List.prefix_append _ _⟩
  | unresolved =>
    exact ⟨rfl, rfl, rfl, .refl _, Nat.le_refl _, publish_history .. ▸ List.prefix_append _ _⟩
  | crashed _ ho =>
    exact ⟨rfl, rfl, rfl, Device.perform_grows ho, Nat.le_refl _, List.prefix_rfl⟩

theorem launch_nextId (c : Controller) (s : Session) : (c.launch s).2.nextId = c.nextId := by
  have h := c.launch_launched s
  generalize c.launch s = r at h ⊢
  cases h <;> rfl

namespace Move
variable {c c' : Controller} {k : Nat}

theorem grows (h : Move c k c') : c.Grows c' := by
  cases h with
  | pass now hn => exact ⟨rfl, rfl, rfl, .refl _, hn, List.prefix_rfl⟩
  | free => exact ⟨rfl, rfl, rfl, .refl _, Nat.le_refl _, List.prefix_rfl⟩
  | settle _ hc => exact settle_grows hc.grows
  | launch =>
    have h := launch_grows { c with nextId := c.nextId + 1 } ‹_›
    exact ⟨h.settings, h.catalog, h.policy, h.device, h.now, h.history⟩

theorem nextId (h : Move c k c') : c'.nextId = c.nextId + .ofNat k := by
  cases h with
  | pass | free => exact (UInt64.add_zero _).symm
  | settle => rw [settle_nextId]; exact (UInt64.add_zero _).symm
  | launch => exact launch_nextId _ _

end Move

namespace Moves
variable {c c' : Controller} {n : Nat}

theorem grows (h : Moves c n c') : c.Grows c' := by
  induction h with
  | refl => exact .refl c
  | snoc _ hm ih => exact ih.trans hm.grows

theorem nextId (h : Moves c n c') : c'.nextId = c.nextId + .ofNat n := by
  induction h with
  | refl => exact (UInt64.add_zero _).symm
  | snoc _ hm ih => rw [hm.nextId, ih, UInt64.ofNat_add, UInt64.add_assoc]

theorem candidate (h : Moves c 0 c') : c'.candidate = c.candidate := by
  have hn : c'.nextId = c.nextId := h.nextId.trans (UInt64.add_zero _)
  funext request context
  simp only [Controller.candidate, h.grows.settings, h.grows.catalog, hn]

end Moves

/-! ## The moves of each operation -/

theorem release_moves (c : Controller) : Moves c 0 c.release := by
  unfold release
  split
  · rename_i h
    exact .single (.free c (by rw [h]; rfl))
  · exact .refl

theorem teardown_moves (c : Controller) (signal : Signal) : Moves c 0 (c.teardown signal) := by
  unfold teardown
  split
  · rename_i p h
    have hc := p.interrupt_course c.now signal c.device
    refine Moves.snoc (.single (.settle h hc)) (.free _ ?_)
    unfold Playback.interrupt
    split <;> rfl
  · rename_i h
    refine .single (.free c ?_)
    cases hs : c.slot with
    | playing p => exact absurd hs (h p)
    | free | spent => rfl

theorem wait_moves (c : Controller) (millis : Nat) : Moves c 0 (c.wait millis) := by
  have hp : Move c 0 { c with now := c.now + millis } := .pass c _ (Nat.le_add_right _ _)
  unfold wait
  dsimp only
  split
  · rename_i p h
    exact (Moves.single hp).snoc (.settle h (p.advance_course _ _))
  · exact .single hp

theorem stop_moves (c : Controller) (mode : Option Mode) : Moves c 0 (c.stop mode).2 := by
  have h := c.stop_heeded mode
  generalize c.stop mode = r at h ⊢
  cases h with
  | denied | ignored => exact .refl
  | idle => exact c.release_moves
  | stopped => exact c.teardown_moves .stopped

theorem start_moves (c : Controller) (request : Request) (context : Context) :
    Moves c (if c.accepts (.start request context) then 1 else 0) (c.start request context).2 := by
  have h := c.start_dealt request context
  generalize c.start request context = r at h ⊢
  unfold accepts
  cases h with
  | invalid hc => simpa [hc] using Moves.refl
  | denied hc hg => simpa [hc, hg] using Moves.refl
  | conflict hc hg ho => simpa [hc, hg, ho] using c.release_moves
  | launched hc hg ho =>
    have ht := c.teardown_moves .preempted
    have hl := Move.launch (teardown_slot c .preempted) (ht.grows.settings ▸ hg)
      (ht.candidate ▸ hc)
    have hn : (c.teardown .preempted).nextId = c.nextId := ht.nextId.trans (UInt64.add_zero _)
    rw [hn] at hl
    simpa [hc, hg, ho] using ht.snoc hl

/-- Every job is a sequence of moves. -/
theorem work_moves (c : Controller) (job : Job) :
    Moves c (if c.accepts job then 1 else 0) (c.work job) := by
  cases job with
  | rest => exact .refl
  | start request context => exact c.start_moves request context
  | stop mode => exact c.stop_moves mode
  | wait millis => exact c.wait_moves millis
  | finish => exact c.teardown_moves .stopped

end Controller

/-! ## Runs as moves -/

/-- How many starts a run accepts. -/
def Mailbox.accepted (m : Mailbox) : List Event → Nat
  | [] => 0
  | e :: events =>
    (if m.controller.accepts (m.job e) then 1 else 0) + (m.step e).accepted events

theorem Mailbox.accepted_append (m : Mailbox) (events events' : List Event) :
    m.accepted (events ++ events') = m.accepted events + (m.run events).accepted events' := by
  induction events generalizing m with
  | nil => exact (Nat.zero_add _).symm
  | cons e events ih => rw [List.cons_append, accepted, accepted, ih, run_cons, Nat.add_assoc]

theorem Mailbox.run_moves (m : Mailbox) (events : List Event) :
    m.controller.Moves (m.accepted events) (m.run events).controller := by
  induction events generalizing m with
  | nil => exact .refl
  | cons e events ih =>
    have h := m.controller.work_moves (m.job e)
    rw [← step_controller] at h
    exact h.trans (ih _)

namespace Setup

def accepted (s : Setup) (events : List Event) : Nat := s.mailbox.accepted events

theorem after_moves (s : Setup) (events : List Event) :
    s.mailbox.controller.Moves (s.accepted events) (s.after events) := s.mailbox.run_moves events

theorem catalog_run (s : Setup) (events : List Event) :
    (s.run events).controller.catalog = s.mailbox.controller.catalog :=
  (s.after_moves events).grows.catalog

end Setup

end Haptics
