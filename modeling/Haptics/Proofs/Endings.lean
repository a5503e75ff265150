import Haptics.Proofs.History

/-! Endings and their causes. A session that was published as active and then otherwise has ended in
one event of the run, and that event had the reason that its last snapshot gives. -/

namespace Haptics

/-! ## From a snapshot to its chapter -/

/-- A chapter of which more than the active snapshot is known has come to an end. -/
theorem Chapter.fate_of_mem_snapshots {ch : Chapter} {x y : Snapshot} (hx : x ∈ ch.snapshots)
    (hy : y ∈ ch.snapshots) (ha : x.phase? = some .active) (hp : y.phase? ≠ some .active) :
    ∃ how, ch.fate = .ended how ∧ y = ch.snapshot how.phase := by
  obtain ⟨id, v, _ | _ | how⟩ := ch
  · rw [List.mem_singleton.mp hx] at ha
    cases ha
  · rw [List.mem_singleton.mp hy] at hp
    exact absurd rfl hp
  · rcases List.mem_cons.mp hy with rfl | hy
    · exact absurd rfl hp
    · exact ⟨how, rfl, List.mem_singleton.mp hy⟩

theorem Slot.fate_of_mem_chapters {slot : Slot} {fate : Fate} {ch : Chapter}
    (h : ch ∈ slot.chapters fate) : ch.fate = fate := by
  cases slot with
  | playing p =>
    rw [Slot.chapters_playing, List.mem_singleton] at h
    rw [h]
    rfl
  | free | spent => cases h

namespace Setup
variable {s : Setup} {events : List Event}

/-- A session that was active and is so no more has ended in some event. -/
theorem ended_of_history (h : (s.after events).device.Intact)
    (hn : s.accepted events < UInt64.size - 1) {x y : Snapshot} (hx : x ∈ (s.after events).history)
    (hy : y ∈ (s.after events).history) (he : x.number = y.number)
    (ha : x.phase? = some .active) (hp : y.phase? ≠ some .active) :
    ∃ ch how, s.Ended events ch how ∧ y = ch.snapshot how.phase := by
  obtain ⟨closed, ht, hends⟩ := s.tells events h
  have hnum := ht.numbered hn
  rw [ht.history] at hx hy
  rcases List.mem_cons.mp hx with rfl | hx
  · cases ha
  · rcases List.mem_cons.mp hy with rfl | hy
    · exact absurd he (Nat.ne_of_gt (number_pos_of_numbered hnum hx))
    · obtain ⟨ch, hm, hx, hy⟩ := same_chapter hnum hx hy he
      obtain ⟨how, hf, rfl⟩ := Chapter.fate_of_mem_snapshots hx hy ha hp
      rcases List.mem_append.mp hm with hm | hm
      · exact ⟨ch, how, hends ch hm how hf, rfl⟩
      · rw [Slot.fate_of_mem_chapters hm] at hf
        cases hf

theorem after_policy (s : Setup) (events : List Event) : (s.after events).policy = s.policy :=
  (s.after_moves events).grows.policy

end Setup

/-- Under the usual rules a session of a guarded usage is preempted only by its own usage or by a
repeating preset. -/
theorem Controller.Ends.guarded {c : Controller} {p : Playback} {job : Job} {next : List Snapshot}
    (h : c.Ends p job .preempted next) {a : Arbitration} (ha : c.policy = a.policy)
    (hg : p.session.usage ∈ a.guarded) :
    ∃ request context, job = .start request context ∧ (context.usage = p.session.usage ∨
      a.repeatWins = true ∧ request.isRepeating = true) := by
  cases h with
  | @preempted request context s phase hc hgr hok hph =>
    rw [ha, Arbitration.policy_eq_ok] at hok
    exact ⟨request, context, rfl, Arbitration.verdict_guarded hok hg⟩

/-- **Every ending has its cause.** Take a run without crashes in which the counter does not
overflow, and two snapshots `x` and `y` of one session, the first active and the second not. Then
in some event of the run that session played and was ended as `y` says, the event had a reason for
that, and `y` was the first thing that it published. -/
theorem ending_has_cause (s : Setup) (events : List Event) (h : (s.after events).device.Intact)
    (hn : s.accepted events < UInt64.size - 1) {x y : Snapshot} (hx : x ∈ (s.after events).history)
    (hy : y ∈ (s.after events).history) (he : x.number = y.number)
    (ha : x.phase? = some .active) (hp : y.phase? ≠ some .active) :
    ∃ earlier e later p how next, events = earlier ++ e :: later ∧
      (s.after earlier).slot = .playing p ∧ p.Repeats ∧ y = p.session.snapshot how.phase ∧
      (s.after earlier).Ends p ((s.run earlier).job e) how next ∧
      (s.after (earlier ++ [e])).history = (s.after earlier).history ++ y :: next ∧
      ∀ a : Arbitration, s.policy = a.policy → p.session.usage ∈ a.guarded → how = .preempted →
        ∃ request context, (s.run earlier).job e = .start request context ∧
          (context.usage = p.session.usage ∨
            a.repeatWins = true ∧ request.isRepeating = true) := by
  obtain ⟨ch, how, ⟨earlier, e, later, p, next, hev, hslot, rfl, hends, hh⟩, rfl⟩ :=
    Setup.ended_of_history h hn hx hy he ha hp
  have hr := (s.orderly earlier).repeats p hslot
  refine ⟨earlier, e, later, p, how, next, hev, hslot, hr, rfl, hends, hh, ?_⟩
  intro a hpol hg hpre
  subst hpre
  exact hends.guarded ((s.after_policy earlier).trans hpol) hg

theorem ending_has_cause_sample :
    (Setup.sample.after Setup.sampleEvents).device.Intact ∧
      Setup.sample.accepted Setup.sampleEvents < UInt64.size - 1 ∧
      ∃ earlier e later p next, Setup.sampleEvents = earlier ++ e :: later ∧
        (Setup.sample.after earlier).slot = .playing p ∧
        (Setup.sample.after earlier).Ends p ((Setup.sample.run earlier).job e) .preempted next := by
  have hi : (Setup.sample.after Setup.sampleEvents).device.Intact := by decide
  have hn : Setup.sample.accepted Setup.sampleEvents < UInt64.size - 1 := by decide
  obtain ⟨earlier, e, later, p, how, next, hev, hslot, -, hy, hends, -⟩ :=
    ending_has_cause Setup.sample Setup.sampleEvents hi hn
      (x := .session 1 (.time 100) .unknown .active)
      (y := .session 1 (.time 100) .unknown .preempted) (by decide) (by decide) rfl rfl (by decide)
  have hph : how.phase = .preempted := by
    injection hy with _ _ _ hph
    exact hph.symm
  have hhow : how = .preempted := by
    cases how with
    | preempted => rfl
    | completed | stopped | failed => cases hph
  rw [hhow] at hends
  exact ⟨hi, hn, earlier, e, later, p, next, hev, hslot, hends⟩

end Haptics
