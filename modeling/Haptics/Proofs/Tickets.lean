import Haptics.Proofs.Desk

/-! Tickets. Every ticket that is given out waits, once, or is answered, once. A command that has got
into the queue is answered when it is served, or, if the controller ends before that, is told so. -/

namespace Haptics

namespace Mailbox

theorem answer?_eq (m : Mailbox) (ticket : Nat) :
    m.answer? ticket = (m.resolved.toList.find? fun r => r.1 == ticket).map Prod.snd := by
  rw [answer?, Array.find?_toList]

theorem answer?_eq_none {m : Mailbox} {ticket : Nat} :
    m.answer? ticket = none ↔ ticket ∉ m.resolved.toList.map Prod.fst := by
  rw [answer?_eq, Option.map_eq_none_iff, List.find?_eq_none, List.mem_map, not_exists]
  simp only [beq_iff_eq, not_and]

/-- Where no ticket is answered twice, its answer is the one that is there. -/
theorem answer?_eq_some {m : Mailbox} (h : (m.resolved.toList.map Prod.fst).Nodup) {ticket : Nat}
    {answer : Answer} : m.answer? ticket = some answer ↔ (ticket, answer) ∈ m.resolved.toList := by
  rw [answer?_eq]
  generalize m.resolved.toList = entries at h ⊢
  induction entries with
  | nil => simp
  | cons entry entries ih =>
    obtain ⟨t, a⟩ := entry
    obtain ⟨hn, hd⟩ := List.nodup_cons.mp h
    by_cases ht : t = ticket
    · subst ht
      have hm : ∀ a', (t, a') ∉ entries := fun a' hm =>
        hn (List.mem_map_of_mem (f := Prod.fst) hm : (t, a').1 ∈ _)
      simp [hm, eq_comm]
    · rw [List.find?_cons_of_neg (by simpa using ht), ih hd]
      simp [Ne.symm ht]

end Mailbox

namespace Desk

/-! ## Tickets -/

/-- Every ticket that was given out waits once or is answered once; what waits fits into the queue;
and nothing waits for a controller that has ended. -/
structure Kept (d : Desk) : Prop where
  tickets : (d.pending.map Prod.fst ++ d.box.resolved.toList.map Prod.fst).Perm
    (List.range d.box.posted)
  room : d.box.queue.length ≤ d.box.capacity
  idle : d.box.alive = false → d.pending = []

/-- Those that were first in line are answered. -/
theorem perm_of_served {served waiting answered all : List Nat}
    (h : (served ++ waiting ++ answered).Perm all) : (waiting ++ (answered ++ served)).Perm all := by
  refine .trans ?_ h
  rw [← List.append_assoc, List.append_assoc served]
  exact List.perm_append_comm

namespace Kept
variable {d : Desk}

theorem decline (h : d.Kept) (why : Refusal) : (Desk.mk (d.box.decline why) d.hand).Kept := by
  refine ⟨?_, h.room, h.idle⟩
  have ht := h.tickets.append_right [d.box.posted]
  rw [← List.range_succ, List.append_assoc] at ht
  simpa [pending] using ht

theorem enqueue (h : d.Kept) (command : Command) (ha : d.box.alive = true)
    (hr : d.box.queue.length < d.box.capacity) :
    (Desk.mk (d.box.enqueue command) d.hand).Kept := by
  refine ⟨?_, ?_, ?_⟩
  · have ht := h.tickets.append_right [d.box.posted]
    rw [← List.range_succ, List.append_assoc] at ht
    refine .trans ?_ ht
    have hp : (Desk.mk (d.box.enqueue command) d.hand).pending.map Prod.fst =
        d.pending.map Prod.fst ++ [d.box.posted] := by
      simp [pending]
    rw [hp, List.append_assoc]
    exact List.perm_append_comm.append_left _
  · rw [Mailbox.enqueue_queue, List.length_append]
    exact hr
  · intro hd
    rw [show d.box.alive = false from hd] at ha
    cases ha

theorem step (h : d.Kept) (e : Event) : (d.step e).Kept := by
  have ht := d.step_turn e
  have hcap : ∀ job, (d.box.work job).capacity = d.box.capacity := fun job => by
    rw [Mailbox.capacity, Mailbox.work_controller, Controller.work_settings]
    rfl
  generalize d.step e = d' at ht ⊢
  cases ht with
  | malformed | unserved | full => exact h.decline _
  | queued _ ha hr => exact h.enqueue _ ha hr
  | still => exact h
  | waited => exact ⟨h.tickets, (hcap _).symm ▸ h.room, h.idle⟩
  | @taken q queue hh hq =>
    have hp : d.pending = q :: queue := by simp [pending, hh, hq]
    have ht := h.tickets
    rw [hp] at ht
    refine ⟨ht, ?_, fun hd => ?_⟩
    · have := h.room
      rw [hq, List.length_cons] at this
      exact Nat.le_of_succ_le this
    · rw [h.idle hd] at hp
      cases hp
  | @answered ticket command answer hh hr =>
    have hp : d.pending = [(ticket, command)] ++ d.box.queue := by simp [pending, hh]
    refine ⟨?_, (hcap _).symm ▸ h.room, fun hd => ?_⟩
    · have hk := h.tickets
      rw [hp, List.map_append] at hk
      simpa using perm_of_served hk
    · rw [h.idle hd] at hp
      cases hp
  | @crashed ticket command hh hr =>
    have hp : d.pending = [(ticket, command)] ++ d.box.queue := by simp [pending, hh]
    refine ⟨?_, ?_, fun _ => ?_⟩
    · have hk := h.tickets
      rw [hp, List.map_append, ← List.append_nil (_ ++ _)] at hk
      simpa [Mailbox.abandon, Function.comp_def] using perm_of_served hk
    · simp
    · simp
  | ended hh ha =>
    have hp : d.pending = d.box.queue := by simp [pending, hh]
    refine ⟨?_, ?_, fun _ => ?_⟩
    · have hk := h.tickets
      rw [hp, ← List.append_nil (d.box.queue.map _)] at hk
      simpa [Mailbox.abandon, Function.comp_def] using perm_of_served hk
    · simp
    · simp

theorem run (h : d.Kept) (events : List Event) : (d.run events).Kept := by
  induction events generalizing d with
  | nil => exact h
  | cons e events ih => exact ih (h.step e)

theorem nodup (h : d.Kept) :
    (d.pending.map Prod.fst ++ d.box.resolved.toList.map Prod.fst).Nodup :=
  h.tickets.nodup_iff.mpr List.nodup_range

theorem answer_iff (h : d.Kept) {ticket : Nat} {answer : Answer} :
    d.box.answer? ticket = some answer ↔ (ticket, answer) ∈ d.box.resolved.toList :=
  Mailbox.answer?_eq_some (List.nodup_append.mp h.nodup).2.1

theorem answer_of_pending (h : d.Kept) {ticket : Nat} {command : Command}
    (hp : (ticket, command) ∈ d.pending) : d.box.answer? ticket = none := by
  refine Mailbox.answer?_eq_none.mpr fun hr => ?_
  exact (List.nodup_append.mp h.nodup).2.2 _ (List.mem_map_of_mem (f := Prod.fst) hp) _ hr rfl

end Kept

/-! ## What becomes of a command -/

theorem step_resolved (d : Desk) (e : Event) :
    d.box.resolved.toList <+: (d.step e).box.resolved.toList := by
  have ht := d.step_turn e
  generalize d.step e = d' at ht ⊢
  cases ht with
  | malformed | unserved | full | answered => exact ⟨_, (Mailbox.resolve_toList ..).symm⟩
  | queued | still | waited | taken => exact List.prefix_rfl
  | crashed =>
    rw [Mailbox.close_toList, Mailbox.resolve_toList, List.append_assoc]
    exact List.prefix_append _ _
  | ended =>
    rw [Mailbox.close_toList]
    exact List.prefix_append _ _

theorem run_resolved (d : Desk) (events : List Event) :
    d.box.resolved.toList <+: (d.run events).box.resolved.toList := by
  induction events generalizing d with
  | nil => exact List.prefix_rfl
  | cons e events ih => exact (d.step_resolved e).trans (ih _)

/-- The answer to a command that is served. -/
def verdict (d : Desk) (command : Command) : Answer :=
  (d.box.controller.reply? command).getD (.error (.failed .abandoned))

/-- What becomes of a queued command in a run, with the answer that it has in the end. -/
inductive Handled (d : Desk) (events : List Event) (ticket : Nat) (command : Command) :
    Option Answer → Prop where
  | waits : (ticket, command) ∈ (d.run events).pending → Handled d events ticket command none
  | served {earlier later : List Event} : events = earlier ++ .serve :: later →
      (d.run earlier).hand = some (ticket, command) →
      Handled d events ticket command (some ((d.run earlier).verdict command))
  /-- The controller ended while the command was in the queue. -/
  | lost {earlier later : List Event} {e : Event} : events = earlier ++ e :: later →
      (ticket, command) ∈ (d.run earlier).box.queue → ((d.run earlier).step e).box.alive = false →
      Handled d events ticket command (some (.error (.failed .abandoned)))

theorem Handled.snoc {d : Desk} {events : List Event} {ticket : Nat} {command : Command}
    {answer : Answer} (h : d.Handled events ticket command (some answer)) (e : Event) :
    d.Handled (events ++ [e]) ticket command (some answer) := by
  cases h with
  | @served earlier later hev hh =>
    have hev' : events ++ [e] = earlier ++ .serve :: (later ++ [e]) := by rw [hev]; simp
    exact .served hev' hh
  | @lost earlier later e' hev hq hd =>
    have hev' : events ++ [e] = earlier ++ e' :: (later ++ [e]) := by rw [hev]; simp
    exact .lost hev' hq hd

/-- A command that waits goes on waiting, or is answered as `Handled` says. -/
theorem handled_step {d : Desk} {events : List Event} {ticket : Nat} {command : Command}
    (hp : (ticket, command) ∈ (d.run events).pending) (e : Event) :
    (ticket, command) ∈ (d.run (events ++ [e])).pending ∨
      ∃ answer, (ticket, answer) ∈ (d.run (events ++ [e])).box.resolved.toList ∧
        d.Handled (events ++ [e]) ticket command (some answer) := by
  rw [run_snoc]
  have ht := (d.run events).step_turn e
  generalize hd' : (d.run events).step e = d' at ht ⊢
  have lose : (ticket, command) ∈ (d.run events).box.queue → d'.box.alive = false →
      d.Handled (events ++ [e]) ticket command (some (.error (.failed .abandoned))) :=
    fun hq hdead => .lost rfl hq (hd' ▸ hdead)
  have abandoned : (ticket, command) ∈ (d.run events).box.queue →
      (ticket, (.error (.failed .abandoned) : Answer)) ∈
        (d.run events).box.queue.map Mailbox.abandon :=
    fun hq => List.mem_map.mpr ⟨_, hq, rfl⟩
  cases ht with
  | malformed | unserved | full | still | waited => exact .inl hp
  | queued =>
    rw [pending_mk, Mailbox.enqueue_queue, ← List.append_assoc]
    exact .inl (List.mem_append_left _ hp)
  | taken hh hq => exact .inl (by simpa [pending, hh, hq] using hp)
  | @answered t c answer hh hr =>
    rcases List.mem_append.mp hp with hm | hq
    · rw [hh] at hm
      cases List.mem_singleton.mp hm
      have hv : (d.run events).verdict command = answer := by rw [verdict, hr]; rfl
      exact .inr ⟨answer, by simp, hv ▸ .served rfl hh⟩
    · exact .inl (List.mem_append_right _ hq)
  | @crashed t c hh hr =>
    rw [Mailbox.close_toList, Mailbox.resolve_toList]
    rcases List.mem_append.mp hp with hm | hq
    · rw [hh] at hm
      cases List.mem_singleton.mp hm
      have hv : (d.run events).verdict command = .error (.failed .abandoned) := by
        rw [verdict, hr]; rfl
      exact .inr ⟨.error (.failed .abandoned), by simp, hv ▸ .served rfl hh⟩
    · exact .inr ⟨_, List.mem_append_right _ (abandoned hq), lose hq (by simp [Mailbox.close_eq])⟩
  | ended hh =>
    rw [Mailbox.close_toList]
    have hq : (ticket, command) ∈ (d.run events).box.queue := by simpa [pending, hh] using hp
    exact .inr ⟨_, List.mem_append_right _ (abandoned hq), lose hq (by simp [Mailbox.close_eq])⟩

theorem handled {d : Desk} (h : d.Kept) {ticket : Nat} {command : Command}
    (hp : (ticket, command) ∈ d.pending) (events : List Event) :
    d.Handled events ticket command ((d.run events).box.answer? ticket) := by
  induction events using List.reverseRecOn with
  | nil =>
    rw [run_nil, h.answer_of_pending hp]
    exact .waits hp
  | append_singleton events e ih =>
    have hk := h.run (events ++ [e])
    cases ha : (d.run events).box.answer? ticket with
    | some answer =>
      rw [ha] at ih
      have hm := (h.run events).answer_iff.mp ha
      have hm' : (ticket, answer) ∈ (d.run (events ++ [e])).box.resolved.toList := by
        rw [run_snoc]
        exact (step_resolved _ e).subset hm
      rw [hk.answer_iff.mpr hm']
      exact ih.snoc e
    | none =>
      rw [ha] at ih
      cases ih with
      | waits hp =>
        rcases handled_step hp e with hp | ⟨answer, hm, hh⟩
        · rw [hk.answer_of_pending hp]
          exact .waits hp
        · rw [hk.answer_iff.mpr hm]
          exact hh

theorem Handled.ne {d : Desk} {events : List Event} {ticket : Nat} {command : Command} {why : Failed}
    (h : d.Handled events ticket command (some (.error (.failed why)))) :
    why ≠ .queueFull ∧ why ≠ .notRunning := by
  generalize ha : (some (.error (.failed why)) : Option Answer) = answer at h
  cases h with
  | waits => cases ha
  | @served earlier _ _ hh =>
    have hv := Option.some.inj ha
    unfold verdict at hv
    cases hr : (d.run earlier).box.controller.reply? command with
    | none =>
      rw [hr] at hv
      cases hv
      exact ⟨nofun, nofun⟩
    | some a =>
      rw [hr] at hv
      have hn := Controller.reply?_ne (hr.trans (congrArg some hv.symm))
      exact ⟨hn.1, hn.2.1⟩
  | lost =>
    cases ha
    exact ⟨nofun, nofun⟩

/-- A declined ticket keeps its answer. -/
theorem answer_of_declined {d : Desk} {why : Refusal} (h : (Desk.mk (d.box.decline why) d.hand).Kept)
    (events : List Event) :
    ((Desk.mk (d.box.decline why) d.hand).run events).box.answer? d.box.posted =
      some (.error why) := by
  have hm : (d.box.posted, (.error why : Answer)) ∈
      (Desk.mk (d.box.decline why) d.hand).box.resolved.toList := by simp
  exact (h.run events).answer_iff.mpr ((run_resolved _ events).subset hm)

end Desk

namespace Setup

/-- The desk after a run. -/
def desk (s : Setup) (events : List Event) : Desk := (Desk.mk s.mailbox none).run events

theorem desk_append (s : Setup) (events events' : List Event) :
    s.desk (events ++ events') = (s.desk events).run events' := Desk.run_append ..

theorem desk_kept (s : Setup) (events : List Event) : (s.desk events).Kept := by
  have h : (Desk.mk s.mailbox none).Kept := ⟨.refl _, Nat.zero_le _, nofun⟩
  exact h.run events

/-- A run of the mailbox, taken at the desk. -/
theorem desk_whole (s : Setup) (events : List Event) :
    s.desk (events.flatMap Desk.whole) = ⟨s.run events, none⟩ := Desk.run_box s.mailbox events

theorem run_kept (s : Setup) (events : List Event) : (Desk.mk (s.run events) none).Kept :=
  s.desk_whole events ▸ s.desk_kept _

end Setup

end Haptics
