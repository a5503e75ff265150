import Haptics.Proofs.Moves

/-! The history of what is published, told in chapters. In a run without crashes every accepted
start has one chapter, and only that of the session that plays is open. A chapter is closed by an
event that had a reason to close it: the last repetition was over or a later one was refused, a stop
or the end of the controller, or a start that was let in. -/

namespace Haptics

/-- What has become of an accepted request. -/
inductive Fate where
  | refused
  | active
  | ended (how : Ending)
  deriving DecidableEq, Repr

/-- All that is published of one session. -/
structure Chapter where
  id : UInt64
  view : View
  fate : Fate
  deriving DecidableEq, Repr

def Chapter.snapshot (ch : Chapter) (phase : Phase) : Snapshot :=
  .session ch.id ch.view.request ch.view.usage phase

def Chapter.snapshots (ch : Chapter) : List Snapshot :=
  match ch.fate with
  | .refused => [ch.snapshot .failed]
  | .active => [ch.snapshot .active]
  | .ended how => [ch.snapshot .active, ch.snapshot how.phase]

def Session.chapter (s : Session) (fate : Fate) : Chapter := ⟨s.id, s.view, fate⟩

@[simp] theorem Session.chapter_id (s : Session) (fate : Fate) : (s.chapter fate).id = s.id := rfl

@[simp] theorem Session.chapter_fate (s : Session) (fate : Fate) : (s.chapter fate).fate = fate :=
  rfl

@[simp] theorem Session.chapter_snapshot (s : Session) (fate : Fate) (phase : Phase) :
    (s.chapter fate).snapshot phase = s.snapshot phase := rfl

/-- The chapter of the session that plays, under a fate that it may have. -/
def Slot.chapters (slot : Slot) (fate : Fate) : List Chapter :=
  (slot.playing?.map fun p => p.session.chapter fate).toList

@[simp] theorem Slot.chapters_free (fate : Fate) : Slot.free.chapters fate = [] := rfl

@[simp] theorem Slot.chapters_playing (p : Playback) (fate : Fate) :
    (Slot.playing p).chapters fate = [p.session.chapter fate] := rfl

theorem Slot.chapters_of_not_playing {slot : Slot} (h : slot.playing? = none) (fate : Fate) :
    slot.chapters fate = [] := by
  rw [Slot.chapters, h]
  rfl

namespace Controller

/-! ## Telling the history -/

/-- The history after `n` accepted starts: the chapters that are closed, and the open one. -/
structure Tells (c : Controller) (n : Nat) (closed : List Chapter) : Prop where
  ended : ∀ ch ∈ closed, ch.fate ≠ .active
  history : c.history = .idle :: (closed ++ c.slot.chapters .active).flatMap Chapter.snapshots
  ids : (closed ++ c.slot.chapters .active).map Chapter.id = (List.range' 1 n).map UInt64.ofNat
  next : c.nextId = .ofNat (n + 1)

namespace Tells
variable {c c' : Controller} {n : Nat} {closed : List Chapter} {p : Playback}

/-- The same is told of a controller with the same publications, number and session. -/
theorem congr (h : c.Tells n closed) (hh : c'.history = c.history) (hn : c'.nextId = c.nextId)
    (hs : c'.slot.chapters .active = c.slot.chapters .active) : c'.Tells n closed :=
  ⟨h.ended, by rw [hh, hs, h.history], by rw [hs, h.ids], hn.trans h.next⟩

/-- The open chapter is closed. -/
theorem close (h : c.Tells n closed) (hp : c.slot = .playing p) {how : Ending}
    (hn : c'.nextId = c.nextId) (hs : c'.slot.playing? = none)
    (hh : c'.history = c.history ++ [p.session.snapshot how.phase]) :
    c'.Tells n (closed ++ [p.session.chapter (.ended how)]) := by
  have hs' := Slot.chapters_of_not_playing hs .active
  have ht := h.history
  have hi := h.ids
  rw [hp, Slot.chapters_playing] at ht hi
  refine ⟨List.forall_mem_append.mpr ⟨h.ended, ?_⟩, ?_, ?_, hn.trans h.next⟩
  · simp
  · rw [hs', hh, ht]
    simp [Chapter.snapshots]
  · rw [hs', ← hi]
    simp

/-- A new chapter is begun under the next number. -/
theorem snoc (h : c.Tells n closed) (hf : c.slot = .free) {closed' : List Chapter} (ch : Chapter)
    (hid : ch.id = c.nextId) (hn : c'.nextId = c.nextId + 1)
    (hh : c'.history = c.history ++ ch.snapshots) (ho : ∀ ch ∈ closed', ch.fate ≠ .active)
    (hc : closed' ++ c'.slot.chapters .active = closed ++ [ch]) : c'.Tells (n + 1) closed' := by
  have ht := h.history
  have hi := h.ids
  rw [hf, Slot.chapters_free, List.append_nil] at ht hi
  refine ⟨ho, ?_, ?_, ?_⟩
  · rw [hc, hh, ht]
    simp
  · rw [hc, List.map_append, hi, List.range'_1_concat, List.map_append, Nat.add_comm 1 n]
    simp [hid, h.next]
  · rw [hn, h.next]
    exact (UInt64.ofNat_add (n + 1) 1).symm

/-- The session that plays is the one that was launched last. -/
theorem id_of_playing (h : c.Tells n closed) (hp : c.slot = .playing p) :
    p.session.id = .ofNat n ∧ c.nextId = p.session.id + 1 := by
  have hi := h.ids
  rw [hp, Slot.chapters_playing] at hi
  cases n with
  | zero => simp at hi
  | succ n =>
    rw [List.range'_1_concat, List.map_append, List.map_append, Nat.add_comm 1 n] at hi
    have hid : p.session.id = .ofNat (n + 1) := List.singleton_inj.mp (List.append_inj' hi rfl).2
    refine ⟨hid, ?_⟩
    rw [h.next, hid]
    exact UInt64.ofNat_add (n + 1) 1

/-! ## Telling what the operations do -/

theorem release (h : c.Tells n closed) : c.release.Tells n closed := by
  refine h.congr c.release_history c.release_nextId ?_
  rw [Slot.chapters, Slot.chapters, release_playing]

end Tells

/-- Where nothing crashes, a teardown publishes how the session has ended. -/
theorem teardown_of_playing {c : Controller} {p : Playback} {signal : Signal}
    (hp : c.slot = .playing p) (hi : (c.teardown signal).device.Intact) :
    ∃ d, c.teardown signal = { c with slot := .free, device := d }.publish c.now
      (p.session.snapshot signal.ending.phase) := by
  have hc := p.interrupt_course c.now signal c.device
  rw [teardown_eq_settle hp] at hi ⊢
  simp only [settle_device] at hi
  unfold Playback.interrupt at hc hi ⊢
  split
  · rename_i d hh
    rw [hh] at hc hi
    exact absurd hi (hc.not_intact rfl)
  · rename_i d hh
    exact ⟨d, rfl⟩

theorem Tells.teardown {c : Controller} {n : Nat} {closed : List Chapter} (h : c.Tells n closed)
    {signal : Signal} (hi : (c.teardown signal).device.Intact) :
    (c.teardown signal).Tells n (closed ++ c.slot.chapters (.ended signal.ending)) := by
  cases hs : c.slot with
  | free | spent =>
    have hn : c.slot.playing? = none := by rw [hs]; rfl
    rw [Slot.chapters_of_not_playing rfl, List.append_nil, teardown_of_not_playing hn]
    exact h.congr rfl rfl (Slot.chapters_of_not_playing hn .active).symm
  | playing p =>
    obtain ⟨d, hd⟩ := teardown_of_playing hs hi
    exact h.close hs (by rw [hd]; rfl) (by rw [hd]; rfl) (by rw [hd]; exact publish_history ..)

/-- A launch that does not crash publishes its session as active or failed. -/
theorem Tells.launch {c : Controller} {n : Nat} {closed : List Chapter} (h : c.Tells n closed)
    (hf : c.slot = .free) {s : Session} (hid : s.id = c.nextId)
    (hi : ({ c with nextId := c.nextId + 1 }.launch s).2.device.Intact) :
    ∃ new phase, ({ c with nextId := c.nextId + 1 }.launch s).2.Tells (n + 1) (closed ++ new) ∧
      (∀ ch ∈ new, ch.fate = .refused) ∧ (phase = .active ∨ phase = .failed) ∧
      ({ c with nextId := c.nextId + 1 }.launch s).2.history = c.history ++ [s.snapshot phase] := by
  have hl := { c with nextId := c.nextId + 1 }.launch_launched s
  generalize { c with nextId := c.nextId + 1 }.launch s = r at hl hi ⊢
  have hover : ∀ ch ∈ closed ++ [s.chapter .refused], ch.fate ≠ .active :=
    List.forall_mem_append.mpr ⟨h.ended, by simp⟩
  cases hl with
  | active =>
    refine ⟨[], .active, ?_, by simp, .inl rfl, publish_history ..⟩
    rw [List.append_nil]
    exact h.snoc hf (s.chapter .active) hid rfl (publish_history ..) h.ended rfl
  | refused | unresolved =>
    refine ⟨[s.chapter .refused], .failed, ?_, by simp, .inr rfl, publish_history ..⟩
    exact h.snoc hf (s.chapter .refused) hid rfl (publish_history ..) hover (by simp [hf])
  | crashed _ hc => exact absurd hi (Device.not_intact_of_crashed hc)

/-! ## Why a session ends -/

/-- Why a job ends the session that plays, how, and what is published right after that. -/
inductive Ends (c : Controller) (p : Playback) : Job → Ending → List Snapshot → Prop where
  | preempted {request : Request} {context : Context} {s : Session} {phase : Phase} :
      c.candidate request context = .ok s → c.settings.granted = true →
      c.policy p.session.view ⟨request, context.usage⟩ = .ok () →
      phase = .active ∨ phase = .failed →
      Ends c p (.start request context) .preempted
        [.session (p.session.id + 1) request context.usage phase]
  | stopped {mode : Option Mode} : c.settings.granted = true →
      mode = none ∨ mode = some p.session.mode → Ends c p (.stop mode) .stopped []
  | finished : Ends c p .finish .stopped []
  | failed {millis t : Nat} {calls : List Entry} {why : DeviceError} :
      (c.wait millis).device.log.toList =
        c.device.log.toList ++ calls ++ [⟨t, p.start, .refused why⟩] →
      Ends c p (.wait millis) (.failed (.device why)) []
  | completed {millis : Nat} : p.horizon ≤ c.now + millis →
      Ends c p (.wait millis) .completed []

/-- Whatever session a job has ended played before, had a reason to end, and its end was the first
thing that the job published. -/
def Accounts (c : Controller) (job : Job) (new : List Chapter) : Prop :=
  ∀ ch ∈ new, ∀ how, ch.fate = .ended how → ∃ p next, c.slot = .playing p ∧
    ch = p.session.chapter (.ended how) ∧ c.Ends p job how next ∧
    (c.work job).history = c.history ++ p.session.snapshot how.phase :: next

namespace Accounts
variable {c : Controller} {job : Job}

theorem nil : c.Accounts job [] := by simp [Accounts]

theorem append {new new' : List Chapter} (h : c.Accounts job new) (h' : c.Accounts job new') :
    c.Accounts job (new ++ new') := List.forall_mem_append.mpr ⟨h, h'⟩

theorem refused {new : List Chapter} (h : ∀ ch ∈ new, ch.fate = .refused) :
    c.Accounts job new := by
  intro ch hm how hf
  rw [h ch hm] at hf
  cases hf

theorem single {p : Playback} {how : Ending} {next : List Snapshot} (hp : c.slot = .playing p)
    (he : c.Ends p job how next)
    (hh : (c.work job).history = c.history ++ p.session.snapshot how.phase :: next) :
    c.Accounts job [p.session.chapter (.ended how)] := by
  intro ch hm e hf
  rw [List.mem_singleton.mp hm] at hf ⊢
  cases hf
  exact ⟨p, next, hp, rfl, he, hh⟩

end Accounts

namespace Tells
variable {c : Controller} {n : Nat} {closed : List Chapter}

theorem wait (h : c.Tells n closed) {millis : Nat} (hi : (c.wait millis).device.Intact) :
    ∃ new, (c.wait millis).Tells n (closed ++ new) ∧ c.Accounts (.wait millis) new := by
  cases hs : c.slot with
  | free | spent =>
    refine ⟨[], ?_, .nil⟩
    rw [List.append_nil, wait_of_not_playing (by rw [hs]; rfl)]
    exact h.congr rfl rfl rfl
  | playing p =>
    have hw := wait_of_playing hs millis
    have hc := p.advance_course (c.now + millis) c.device
    rcases hr : p.advance (c.now + millis) c.device with ⟨q | ⟨t, how⟩ | _, d⟩ <;> rw [hr] at hw hc
    · refine ⟨[], ?_, .nil⟩
      rw [List.append_nil]
      refine h.congr (by rw [hw]; rfl) (by rw [hw]; rfl) ?_
      rw [hw, Slot.chapters, settle_playing, hs]
      exact congrArg (fun s => [Session.chapter s .active]) (hc.playing rfl).1
    · have hh : (c.wait millis).history = c.history ++ [p.session.snapshot how.phase] := by
        rw [hw, settle_ended_history]
        rfl
      refine ⟨[p.session.chapter (.ended how)], ?_, .single hs ?_ hh⟩
      · exact h.close hs (by rw [hw]; rfl) (by rw [hw]; rfl) hh
      · rcases hc.ended rfl with rfl | ⟨why, calls, rfl, hl⟩
        · exact .completed (Playback.horizon_le_of_completed hr)
        · exact .failed (by rw [hw, settle_device]; exact hl)
    · rw [hw, settle_device] at hi
      exact absurd hi (hc.not_intact rfl)

theorem stop (h : c.Tells n closed) {mode : Option Mode} (hi : (c.stop mode).2.device.Intact) :
    ∃ new, (c.stop mode).2.Tells n (closed ++ new) ∧ c.Accounts (.stop mode) new := by
  have hst := c.stop_heeded mode
  have hw : c.work (.stop mode) = (c.stop mode).2 := rfl
  generalize c.stop mode = r at hst hi hw ⊢
  cases hst with
  | denied | ignored => exact ⟨[], by rwa [List.append_nil], .nil⟩
  | idle => exact ⟨[], by rw [List.append_nil]; exact h.release, .nil⟩
  | @stopped p hg hp hm =>
    obtain ⟨d, hd⟩ := teardown_of_playing hp hi
    refine ⟨_, h.teardown hi, ?_⟩
    rw [hp, Slot.chapters_playing]
    refine .single hp (.stopped hg hm) ?_
    rw [hw, hd]
    exact publish_history ..

theorem finish (h : c.Tells n closed) (hi : (c.teardown .stopped).device.Intact) :
    ∃ new, (c.teardown .stopped).Tells n (closed ++ new) ∧ c.Accounts .finish new := by
  refine ⟨_, h.teardown hi, ?_⟩
  cases hs : c.slot with
  | free | spent => exact .nil
  | playing p =>
    obtain ⟨d, hd⟩ := teardown_of_playing hs hi
    refine .single hs .finished ?_
    rw [show c.work .finish = c.teardown .stopped from rfl, hd]
    exact publish_history ..

theorem start (h : c.Tells n closed) {request : Request} {context : Context}
    (hi : (c.start request context).2.device.Intact) :
    ∃ new, (c.start request context).2.Tells
        (n + if c.accepts (.start request context) then 1 else 0) (closed ++ new) ∧
      c.Accounts (.start request context) new := by
  have hst := c.start_dealt request context
  have hw : c.work (.start request context) = (c.start request context).2 := rfl
  unfold accepts
  generalize c.start request context = r at hst hi hw ⊢
  cases hst with
  | invalid hc => exact ⟨[], by simpa [hc] using h, .nil⟩
  | denied hc hg => exact ⟨[], by simpa [hc, hg] using h, .nil⟩
  | conflict hc hg ho => exact ⟨[], by simpa [hc, hg, ho] using h.release, .nil⟩
  | @launched s hc hg ho =>
    obtain ⟨hid, hreq, hctx⟩ := Session.check_ok hc
    have hn : (c.teardown .preempted).nextId = c.nextId :=
      (c.teardown_moves .preempted).nextId.trans (UInt64.add_zero _)
    rw [← hn] at hi hw ⊢
    have hit := hi.of_grows (launch_grows { c.teardown .preempted with
      nextId := (c.teardown .preempted).nextId + 1 } s).device
    obtain ⟨new, phase, hl, href, hph, hh⟩ :=
      (h.teardown hit).launch (teardown_slot _ _) (hid.trans hn.symm) hi
    refine ⟨c.slot.chapters (.ended .preempted) ++ new, ?_, .append ?_ (.refused href)⟩
    · simpa [hc, hg, ho, List.append_assoc, Signal.ending] using hl
    · cases hs : c.slot with
      | free | spent => exact .nil
      | playing p =>
        have hv : s.view = ⟨request, context.usage⟩ := by
          rw [Session.view, Session.usage, hreq, hctx]
        refine .single hs (.preempted hc hg (hv ▸ policy_of_objection? hs ho) hph) ?_
        obtain ⟨d, hd⟩ := teardown_of_playing hs hit
        have hsn : s.snapshot phase =
            .session (p.session.id + 1) request context.usage phase := by
          rw [Session.snapshot, hid, hreq, Session.usage, hctx, ← (h.id_of_playing hs).2]
        rw [hw, hh, hsn, hd, publish_history, List.append_assoc]
        rfl

/-- Every job goes on with the history that was told before it. -/
theorem work (h : c.Tells n closed) {job : Job} (hi : (c.work job).device.Intact) :
    ∃ new, (c.work job).Tells (n + if c.accepts job then 1 else 0) (closed ++ new) ∧
      c.Accounts job new := by
  cases job with
  | rest => exact ⟨[], by rw [List.append_nil]; exact h, .nil⟩
  | start request context => exact h.start hi
  | stop mode => exact h.stop hi
  | wait millis => exact h.wait hi
  | finish => exact h.finish hi

end Tells

end Controller

/-! ## Telling a run -/

namespace Setup

/-- In some event of a run a session ended, for a reason that the event gave, and its end was the
first thing that was published then. -/
def Ended (s : Setup) (events : List Event) (ch : Chapter) (how : Ending) : Prop :=
  ∃ earlier e later p next, events = earlier ++ e :: later ∧ (s.after earlier).slot = .playing p ∧
    ch = p.session.chapter (.ended how) ∧
    (s.after earlier).Ends p ((s.run earlier).job e) how next ∧
    (s.after (earlier ++ [e])).history =
      (s.after earlier).history ++ p.session.snapshot how.phase :: next

theorem Ended.snoc {s : Setup} {events : List Event} {ch : Chapter} {how : Ending}
    (h : s.Ended events ch how) (e : Event) : s.Ended (events ++ [e]) ch how := by
  obtain ⟨earlier, e', later, p, next, rfl, hp, hc, he, hh⟩ := h
  exact ⟨earlier, e', later ++ [e], p, next, by simp, hp, hc, he, hh⟩

theorem accepted_snoc (s : Setup) (events : List Event) (e : Event) :
    s.accepted (events ++ [e]) =
      s.accepted events + if (s.after events).accepts ((s.run events).job e) then 1 else 0 :=
  s.mailbox.accepted_append events [e]

theorem after_snoc_grows (s : Setup) (events : List Event) (e : Event) :
    (s.after events).Grows (s.after (events ++ [e])) := by
  rw [after_snoc]
  exact ((s.after events).work_moves _).grows

/-- The history of a run without crashes, and how each of its sessions came to its end. -/
theorem tells (s : Setup) (events : List Event) (h : (s.after events).device.Intact) :
    ∃ closed, (s.after events).Tells (s.accepted events) closed ∧
      ∀ ch ∈ closed, ∀ how, ch.fate = .ended how → s.Ended events ch how := by
  induction events using List.reverseRecOn with
  | nil => exact ⟨[], ⟨by simp, rfl, rfl, rfl⟩, by simp⟩
  | append_singleton events e ih =>
    obtain ⟨closed, ht, hc⟩ := ih (h.of_grows (s.after_snoc_grows events e).device)
    have hsn := s.after_snoc events e
    rw [hsn] at h
    obtain ⟨new, ht', ha⟩ := ht.work h
    rw [← hsn, ← accepted_snoc] at ht'
    refine ⟨closed ++ new, ht', List.forall_mem_append.mpr ⟨?_, ?_⟩⟩
    · exact fun ch hm how hf => (hc ch hm how hf).snoc e
    · intro ch hm how hf
      obtain ⟨p, next, hp, hch, he, hh⟩ := ha ch hm how hf
      exact ⟨events, e, [], p, next, rfl, hp, hch, he, by rw [hsn, hh]⟩

end Setup

end Haptics
