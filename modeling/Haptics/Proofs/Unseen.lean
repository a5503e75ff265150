import Haptics.Proofs.Alike

/-! Requests that nobody notices. What is refused by a check, for want of permission or by the policy
leaves no trace, nor does a stop that finds nothing to stop, a question, or a line that asks for
nothing: everything goes on as if the request had never been made. -/

namespace Haptics

/-- Refused before anything is done about it: by a check, for want of permission, or by the policy. -/
def Refusal.early : Refusal → Bool
  | .invalid _ | .denied | .failed (.conflict _) => true
  | .failed _ => false

namespace Controller

/-- A command that comes to nothing. -/
inductive Spurns (c : Controller) : Command → Prop where
  | refused {command : Command} {why : Refusal} : c.reply? command = some (.error why) →
      why.early = true → Spurns c command
  | aimless {mode : Option Mode} : c.settings.granted = true →
      (∀ p, c.slot = .playing p → mode ≠ none ∧ mode ≠ some p.session.mode) →
      Spurns c (.stop mode)

namespace Spurns
variable {c : Controller} {command : Command}

theorem launch_early {s : Session} {why : Refusal} (h : (c.launch s).1 = some (.error why)) :
    why.early = false := by
  have hl := c.launch_launched s
  generalize c.launch s = r at hl h
  cases hl with
  | active | crashed => cases h
  | refused | unresolved => cases h; rfl

theorem start_alike {request : Request} {context : Context} {why : Refusal}
    (h : (c.start request context).1 = some (.error why)) (he : why.early = true) :
    (c.start request context).2.Alike c := by
  have hs := c.start_dealt request context
  generalize c.start request context = r at hs h ⊢
  cases hs with
  | invalid | denied => exact .refl c
  | conflict => exact c.release_alike
  | launched =>
    rw [launch_early h] at he
    cases he

theorem stop_alike {mode : Option Mode} (h : (c.stop mode).1 = .error .denied ∨
      ∀ p, c.slot = .playing p → mode ≠ none ∧ mode ≠ some p.session.mode) :
    (c.stop mode).2.Alike c := by
  have hs := c.stop_heeded mode
  generalize c.stop mode = r at hs h ⊢
  cases hs with
  | denied | ignored => exact .refl c
  | idle => exact c.release_alike
  | stopped _ hp hm =>
    rcases h with h | h
    · cases h
    · obtain ⟨hn, hne⟩ := h _ hp
      exact absurd hm (by simp [hn, hne])

/-- A spurned command is answered and leaves the controller as it was. -/
theorem alike (h : c.Spurns command) :
    (c.reply? command).isSome ∧ (c.work command.job).Alike c := by
  cases h with
  | @refused _ why hr he =>
    refine ⟨by rw [hr]; rfl, ?_⟩
    cases command with
    | start request context => exact start_alike hr he
    | stop mode =>
      refine stop_alike (.inl ?_)
      have hs := c.stop_heeded mode
      have hr : (c.stop mode).1 = .error why := Option.some.inj hr
      generalize c.stop mode = r at hs hr ⊢
      cases hs with
      | denied => rfl
      | idle | ignored | stopped => cases hr
  | aimless _ hp => exact ⟨rfl, stop_alike (.inr hp)⟩

end Spurns

end Controller

namespace Mailbox

/-- A request that comes to nothing. -/
inductive Spurns (m : Mailbox) : Event → Prop where
  /-- It is refused before it becomes a command. -/
  | misnamed {why : Refusal} : Spurns m (.post (.error why))
  /-- It is malformed or ill-shaped, or asks for something unknown. -/
  | unparsed {text : String} {why : Line.Fault} : (Line.parse text).2 = .error why →
      Spurns m (.line text)
  | question {text : String} {operation : Line.Operation} :
      (Line.parse text).2 = .ok operation → operation.command? = none → Spurns m (.line text)
  | command {e : Event} {command : Command} : e.command? = some command →
      m.controller.Spurns command → Spurns m e

/-- Everything stands as before, but perhaps for tickets that were given out. -/
structure Resumes (m m' : Mailbox) : Prop where
  controller : m'.controller.Alike m.controller
  alive : m'.alive = m.alive
  queue : m'.queue = m.queue
  posted : m.posted ≤ m'.posted

theorem step_serve_of_empty {m : Mailbox} (h : m.queue = []) : m.step .serve = m := by
  simp only [step, serve, h]

/-- When a spurned request has been dealt with, it has changed nothing. -/
theorem Spurns.resumes {m : Mailbox} {e : Event} (h : m.Spurns e) (hq : m.queue = []) :
    m.Resumes (m.run [e, .serve]) := by
  rw [run_cons, run_cons, run_nil]
  have declined : ∀ {why}, m.step e = m.decline why → m.Resumes ((m.step e).step .serve) :=
    fun {why} hs => by
      have hi : (m.decline why).step .serve = m.decline why := step_serve_of_empty hq
      rw [hs, hi]
      exact ⟨.refl _, rfl, rfl, Nat.le_succ _⟩
  have ignored : m.step e = m → m.Resumes ((m.step e).step .serve) := fun hs => by
    rw [hs, step_serve_of_empty hq]
    exact ⟨.refl _, rfl, rfl, Nat.le_refl _⟩
  cases h with
  | misnamed => exact declined rfl
  | unparsed hp => exact ignored (by simp only [step, submit, hp])
  | question hp ho => exact ignored (by simp only [step, submit, hp, ho])
  | @command _ command hc hs =>
    have hstep := m.step_of_command hc
    cases ha : m.alive with
    | false => exact declined (hstep.trans (post_of_dead ha command))
    | true =>
      rcases Nat.lt_or_ge m.queue.length m.capacity with hr | hf
      · obtain ⟨hreply, halike⟩ := hs.alike
        obtain ⟨answer, hreply⟩ := Option.isSome_iff_exists.mp hreply
        have hserve : (m.enqueue command).step .serve =
            ({ m.enqueue command with queue := [] }.work command.job).resolve m.posted answer := by
          rw [step, serve, enqueue_queue, hq]
          exact process_of_reply (m := { m.enqueue command with queue := [] }) hreply _
        rw [hstep, post_of_room ha hr, hserve]
        exact ⟨halike, rfl, hq.symm, Nat.le_succ _⟩
      · exact declined (hstep.trans (post_of_full ha hf command))

theorem Spurns.shifted {m : Mailbox} {e : Event} (h : m.Spurns e) (hq : m.queue = []) :
    Shifted ((m.run [e, .serve]).posted - m.posted) m.resolved.toList
      (m.run [e, .serve]).resolved.toList m (m.run [e, .serve]) := by
  have hr := h.resumes hq
  have hp := hr.posted
  exact ⟨hr.controller, hr.alive, by rw [hr.queue, hq]; rfl, by omega, [], by simp, by simp⟩

end Mailbox

namespace Setup

/-- Tickets that have been answered were given out before. -/
theorem ticket_lt (s : Setup) (events : List Event) {x : Nat × Answer}
    (h : x ∈ (s.run events).resolved.toList) : x.1 < (s.run events).posted := by
  have hm := List.mem_append_right ((Desk.mk (s.run events) none).pending.map Prod.fst)
    (List.mem_map_of_mem (f := Prod.fst) h)
  exact List.mem_range.mp ((s.run_kept events).tickets.mem_iff.mp hm)

end Setup

/-- **Refused requests are invisible.** Take a controller at rest and a request that it spurns. Once
it has been answered, what is published, the device, the numbers given out and the session that plays
are as before; and however things go on, with or without it, the publications, the device and the
answers are the same. Only the tickets are later by the one that it may have drawn. -/
theorem refused_unseen (s : Setup) (events : List Event) (e : Event)
    (hq : (s.run events).queue = []) (he : (s.run events).Spurns e) :
    let m := s.run events
    let m' := m.run [e, .serve]
    (m'.controller.published = m.controller.published ∧
      m'.controller.device = m.controller.device ∧ m'.controller.nextId = m.controller.nextId ∧
      m'.controller.slot.playing? = m.controller.slot.playing? ∧
      m'.controller.now = m.controller.now) ∧
    ∀ later,
      (m'.run later).controller.published = (m.run later).controller.published ∧
      (m'.run later).controller.device = (m.run later).controller.device ∧
      (m'.run later).alive = (m.run later).alive ∧
      (∃ new, (m.run later).resolved.toList = m.resolved.toList ++ new ∧
        (m'.run later).resolved.toList =
          m'.resolved.toList ++ new.map (reticket (m'.posted - m.posted))) ∧
      (∀ command, ((m'.run later).call command).1 = ((m.run later).call command).1) ∧
      ∀ text, (Line.answer (m'.run later) text).1 = (Line.answer (m.run later) text).1 := by
  intro m m'
  have hs := he.shifted hq
  have hc := hs.controller
  refine ⟨⟨hc.published, hc.device, hc.nextId, hc.playing, hc.now⟩, fun later => ?_⟩
  have hl := hs.run later
  obtain ⟨new, hr, hr'⟩ := hl.resolved
  have hrun : m.run later = s.run (events ++ later) := (s.mailbox.run_append events later).symm
  have hrun' : m'.run later = s.run (events ++ ([e, .serve] ++ later)) := by
    rw [show m' = m.run [e, .serve] from rfl, ← Mailbox.run_append]
    exact (s.mailbox.run_append events _).symm
  have hb : ∀ x ∈ m.resolved.toList, x.1 < (m.run later).posted := fun x hx => by
    have hm : x ∈ (m.run later).resolved.toList := by rw [hr]; exact List.mem_append_left _ hx
    rw [hrun] at hm ⊢
    exact s.ticket_lt _ hm
  have hb' : ∀ x ∈ m'.resolved.toList, x.1 < (m'.run later).posted := fun x hx => by
    have hm : x ∈ (m'.run later).resolved.toList := by rw [hr']; exact List.mem_append_left _ hx
    rw [hrun'] at hm ⊢
    exact s.ticket_lt _ hm
  exact ⟨hl.controller.published, hl.controller.device, hl.alive, ⟨new, hr, hr'⟩,
    fun command => hl.call hb hb' command, fun text => hl.reply hb hb' text⟩

/-- A plain run that the policy does not let in while a preset repeats. -/
theorem refused_unseen_sample :
    let m := Setup.sample.run Setup.sampleEvents
    let e : Event := .post (.ok (.start (.time 10) {}))
    m.queue = [] ∧ m.Spurns e ∧ (m.run [e, .serve]).posted = m.posted + 1 ∧
      ((m.run [e, .serve]).run [.wait 30]).controller.published =
        (m.run [.wait 30]).controller.published := by
  intro m e
  have hq : m.queue = [] := by decide
  have hs : m.Spurns e := .command rfl (@Controller.Spurns.refused _ _ (.failed (.conflict _)) rfl rfl)
  obtain ⟨-, hlater⟩ := refused_unseen Setup.sample Setup.sampleEvents e hq hs
  exact ⟨hq, hs, by decide, (hlater [.wait 30]).1⟩

end Haptics
