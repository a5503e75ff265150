import Haptics.Proofs.Tickets

/-! Delivery. What finds no room in the queue, or nobody to serve it, is answered at once; everything
else is served in the order in which it was posted and gets the answer of its own serving, unless the
controller ends before that. The laws are those of the desk, whose servings take two steps; the
mailbox, which serves a command as a whole, has them from it. -/

namespace Haptics

namespace Desk

/-! ## The order -/

/-- What an event adds to the queue. -/
def gains (d : Desk) (e : Event) : List (Nat × Command) :=
  match e.command? with
  | some command =>
    if d.box.alive ∧ d.box.queue.length < d.box.capacity then [(d.box.posted, command)] else []
  | none => []

/-- What an event takes out of the queue to serve it. -/
def takes (d : Desk) : Event → List (Nat × Command)
  | .serve => if d.hand.isNone then d.box.queue.take 1 else []
  | _ => []

/-- All that a run adds to the queue, in this order. -/
def queued (d : Desk) : List Event → List (Nat × Command)
  | [] => []
  | e :: events => d.gains e ++ (d.step e).queued events

/-- All that a run takes out of the queue to serve it, in this order. -/
def taken (d : Desk) : List Event → List (Nat × Command)
  | [] => []
  | e :: events => d.takes e ++ (d.step e).taken events

theorem takes_of_command (d : Desk) {e : Event} {command : Command}
    (h : e.command? = some command) : d.takes e = [] := by
  cases e with
  | serve => cases h
  | post | line | wait | shutdown => rfl

/-- The queue gives out what it has got, first in first out. -/
theorem queue_step (d : Desk) (e : Event) :
    ∃ rest, d.box.queue ++ d.gains e = d.takes e ++ rest ∧
      ((d.step e).box.alive = true → rest = (d.step e).box.queue) := by
  have ht := d.step_turn e
  generalize d.step e = d' at ht ⊢
  cases ht with
  | malformed => exact ⟨d.box.queue, by simp [gains, takes, Event.command?], fun _ => rfl⟩
  | unserved h ha =>
    exact ⟨d.box.queue, by simp [gains, takes_of_command d h, h, ha], fun _ => rfl⟩
  | full h ha hq =>
    exact ⟨d.box.queue, by simp [gains, takes_of_command d h, h, Nat.not_lt.mpr hq], fun _ => rfl⟩
  | @queued _ command h ha hq =>
    exact ⟨d.box.queue ++ [(d.box.posted, command)],
      by simp [gains, takes_of_command d h, h, ha, hq], fun _ => rfl⟩
  | waited => exact ⟨d.box.queue, by simp [gains, takes, Event.command?], fun _ => rfl⟩
  | still h hp =>
    refine ⟨d.box.queue, ?_, fun _ => rfl⟩
    cases e with
    | serve =>
      obtain ⟨hh, hq⟩ := List.append_eq_nil_iff.mp (hp rfl)
      simp [gains, takes, Event.command?, hq]
    | post | line | wait | shutdown => simp [gains, takes, h]
  | @taken q queue hh hq =>
    exact ⟨queue, by simp [gains, takes, Event.command?, hh, hq], fun _ => rfl⟩
  | answered hh hr =>
    exact ⟨d.box.queue, by simp [gains, takes, Event.command?, hh], fun _ => rfl⟩
  | crashed hh hr =>
    exact ⟨d.box.queue, by simp [gains, takes, Event.command?, hh], by simp⟩
  | ended hh ha =>
    exact ⟨d.box.queue, by simp [gains, takes, Event.command?], by simp⟩

/-- After the end nothing is queued and nothing is served. -/
theorem still_of_dead {d : Desk} (h : d.Kept) (hd : d.box.alive = false) (events : List Event) :
    d.queued events = [] ∧ d.taken events = [] ∧ (d.run events).box.alive = false := by
  induction events generalizing d with
  | nil => exact ⟨rfl, rfl, hd⟩
  | cons e events ih =>
    obtain ⟨hh, hq⟩ := List.append_eq_nil_iff.mp (h.idle hd)
    have hg : d.gains e = [] := by
      unfold gains
      split
      · simp [hd]
      · rfl
    have ht : d.takes e = [] := by
      cases e with
      | serve => simp [takes, hq]
      | post | line | wait | shutdown => rfl
    have ha : (d.step e).box.alive = false := by
      have ht := d.step_turn e
      generalize d.step e = d' at ht ⊢
      cases ht with
      | malformed | unserved | full | queued | still | waited | taken => exact hd
      | answered hs => simp [hs] at hh
      | crashed hs => simp [hs] at hh
      | ended => simp
    obtain ⟨hg', ht', hr⟩ := ih (h.step e) ha
    exact ⟨by rw [queued, hg, hg']; rfl, by rw [taken, ht, ht']; rfl, hr⟩

theorem queue_run {d : Desk} (h : d.Kept) (events : List Event) :
    ∃ rest, d.box.queue ++ d.queued events = d.taken events ++ rest ∧
      ((d.run events).box.alive = true → rest = (d.run events).box.queue) := by
  induction events generalizing d with
  | nil => exact ⟨d.box.queue, by simp [queued, taken], fun _ => rfl⟩
  | cons e events ih =>
    obtain ⟨rest, hs, hr⟩ := d.queue_step e
    rw [queued, taken, ← List.append_assoc, hs, run_cons]
    cases ha : (d.step e).box.alive with
    | true =>
      obtain ⟨rest', hs', hr'⟩ := ih (h.step e)
      rw [hr ha, List.append_assoc, hs', ← List.append_assoc]
      exact ⟨rest', rfl, hr'⟩
    | false =>
      obtain ⟨hg, ht, hd⟩ := still_of_dead (h.step e) ha events
      rw [hg, ht, hd]
      exact ⟨rest, by simp, nofun⟩

/-! ## Serving all that waits -/

/-- How many steps it takes at most until nothing waits. -/
def load (d : Desk) : Nat := d.hand.toList.length + 2 * d.box.queue.length

theorem serve_idle {d : Desk} (h : d.pending = []) (n : Nat) :
    d.run (List.replicate n .serve) = d := by
  obtain ⟨box, hand⟩ := d
  obtain ⟨hh, hq⟩ := List.append_eq_nil_iff.mp h
  cases hand with
  | some q => cases hh
  | none =>
    have hs : (Desk.mk box none).step .serve = ⟨box, none⟩ := by
      simp only [step, show box.queue = [] from hq]
    induction n with
    | zero => rfl
    | succ n ih => rw [List.replicate_succ, run_cons, hs, ih]

end Desk

/-- Does what commands ask for, one after the other; after a crash nothing more is done. -/
def Controller.workAll (c : Controller) : List Command → Controller
  | [] => c
  | command :: commands =>
    if (c.reply? command).isSome then (c.work command.job).workAll commands
    else c.work command.job

namespace Desk

/-- Served are exactly the commands that wait, in their order. -/
theorem serve_all (d : Desk) {n : Nat} (h : d.load ≤ n) :
    (d.run (List.replicate n .serve)).pending = [] ∧
      (d.run (List.replicate n .serve)).box.controller =
        d.box.controller.workAll (d.pending.map Prod.snd) := by
  induction n generalizing d with
  | zero =>
    obtain ⟨hh, hq⟩ := Nat.add_eq_zero_iff.mp (Nat.le_zero.mp h)
    have hq : d.box.queue.length = 0 := by omega
    have hp : d.pending = [] := by
      rw [pending, List.length_eq_zero_iff.mp hh, List.length_eq_zero_iff.mp hq]
      rfl
    exact ⟨hp, by rw [hp]; rfl⟩
  | succ n ih =>
    rw [List.replicate_succ, run_cons]
    have ht := d.step_turn .serve
    generalize d.step .serve = d' at ht ⊢
    cases ht with
    | unserved hc | full hc | queued hc => cases hc
    | still _ hp =>
      rw [serve_idle (hp rfl), hp rfl]
      exact ⟨rfl, rfl⟩
    | @taken q queue hh hq =>
      have hl : (Desk.mk { d.box with queue } (some q)).load ≤ n := by
        simp [load, hh, hq] at h ⊢
        omega
      have hp : d.pending = q :: queue := by simp [pending, hh, hq]
      rw [hp]
      exact ih _ hl
    | @answered ticket command answer hh hr =>
      have hl : (Desk.mk ((d.box.work command.job).resolve ticket answer) none).load ≤ n := by
        simp [load, hh] at h ⊢
        omega
      have hp : d.pending = (ticket, command) :: d.box.queue := by simp [pending, hh]
      rw [hp, List.map_cons, Controller.workAll, hr]
      exact ih _ hl
    | @crashed ticket command hh hr =>
      have hp : d.pending = (ticket, command) :: d.box.queue := by simp [pending, hh]
      rw [hp, List.map_cons, Controller.workAll, hr, serve_idle (by simp)]
      exact ⟨by simp, by simp⟩

/-! ## Bursts -/

theorem step_grows (d : Desk) (e : Event) : d.box.controller.Grows (d.step e).box.controller := by
  have hwork (job : Job) := (d.box.controller.work_moves job).grows
  have ht := d.step_turn e
  generalize d.step e = d' at ht ⊢
  cases ht with
  | malformed | unserved | full | queued | still | taken => exact .refl _
  | waited millis => exact hwork (.wait millis)
  | @answered ticket command => exact hwork command.job
  | @crashed ticket command =>
    rw [Mailbox.close_controller]
    exact hwork command.job
  | ended =>
    rw [Mailbox.close_controller]
    exact hwork .finish

theorem run_grows (d : Desk) (events : List Event) :
    d.box.controller.Grows (d.run events).box.controller := by
  induction events generalizing d with
  | nil => exact .refl _
  | cons e events ih => exact (d.step_grows e).trans (ih _)

theorem run_capacity (d : Desk) (events : List Event) :
    (d.run events).box.capacity = d.box.capacity := by
  rw [Mailbox.capacity, (d.run_grows events).settings]
  rfl

theorem run_commands (d : Desk) {burst : List Event} {commands : List Command}
    (h : burst.map Event.command? = commands.map some) :
    d.run burst = ⟨commands.foldl (fun m command => m.post (.ok command)) d.box, d.hand⟩ := by
  induction burst generalizing d commands with
  | nil =>
    rw [List.map_eq_nil_iff.mp h.symm]
    rfl
  | cons e burst ih =>
    cases commands with
    | nil => cases h
    | cons command commands =>
      simp only [List.map_cons, List.cons.injEq] at h
      rw [run_cons, d.step_of_command h.1, ih _ h.2]
      rfl

end Desk

/-- Commands with the tickets that they get one after the other. -/
def ticketed (first : Nat) (commands : List Command) : List (Nat × Command) :=
  (commands.zipIdx first).map Prod.swap

theorem ticketed_cons (first : Nat) (command : Command) (commands : List Command) :
    ticketed first (command :: commands) = (first, command) :: ticketed (first + 1) commands := rfl

theorem ticketed_snd (first : Nat) (commands : List Command) :
    (ticketed first commands).map Prod.snd = commands := by
  rw [ticketed, List.map_map]
  exact List.zipIdx_map_fst first commands

namespace Mailbox

/-- A mailbox after a burst: the commands for which there is room are queued, and the others are
told that there is none. -/
def afterBurst (m : Mailbox) (commands : List Command) : Mailbox :=
  let entries := ticketed m.posted commands
  let room := m.capacity - m.queue.length
  { m with
    queue := m.queue ++ entries.take room
    posted := m.posted + commands.length
    resolved := m.resolved ++
      ((entries.drop room).map fun entry => (entry.1, .error (.failed .queueFull))).toArray }

theorem afterBurst_enqueue {m : Mailbox} (h : m.queue.length < m.capacity) (command : Command)
    (commands : List Command) :
    (m.enqueue command).afterBurst commands = m.afterBurst (command :: commands) := by
  have hn : m.capacity - m.queue.length = m.capacity - (m.queue.length + 1) + 1 := by omega
  simp [afterBurst, ticketed_cons, hn, Nat.add_assoc, Nat.add_comm 1]

theorem afterBurst_decline {m : Mailbox} (h : m.capacity ≤ m.queue.length) (command : Command)
    (commands : List Command) :
    (m.decline (.failed .queueFull)).afterBurst commands = m.afterBurst (command :: commands) := by
  have hn : m.capacity - m.queue.length = 0 := by omega
  simp [afterBurst, ticketed_cons, hn, Nat.add_assoc, Nat.add_comm 1]

theorem post_all {m : Mailbox} (h : m.alive = true) (commands : List Command) :
    commands.foldl (fun m command => m.post (.ok command)) m = m.afterBurst commands := by
  induction commands generalizing m with
  | nil => simp [afterBurst, ticketed]
  | cons command commands ih =>
    rw [List.foldl_cons]
    rcases Nat.lt_or_ge m.queue.length m.capacity with hr | hf
    · rw [post_of_room h hr, ih (m := m.enqueue command) h, afterBurst_enqueue hr]
    · rw [post_of_full h hf, ih (m := m.decline _) h, afterBurst_decline hf]

end Mailbox

/-! ## Runs from the start -/

namespace Setup

theorem desk_capacity (s : Setup) (events : List Event) :
    (s.desk events).box.capacity = s.settings.commandBuffer.toNat := Desk.run_capacity _ events

/-- What becomes of a command that is posted in a run: where there is nobody to serve it or no room
for it, and only there, it is told so at once, and that changes nothing else. -/
theorem posted_fate (s : Setup) {earlier later : List Event} {e : Event} {command : Command}
    (h : e.command? = some command) :
    let d := s.desk earlier
    let answer := (s.desk (earlier ++ e :: later)).box.answer? d.box.posted
    (answer = some (.error (.failed .notRunning)) ↔ d.box.alive = false) ∧
    (answer = some (.error (.failed .queueFull)) ↔
      d.box.alive = true ∧ d.box.queue.length = s.settings.commandBuffer.toNat) ∧
    (d.box.alive = true ∧ d.box.queue.length ≠ s.settings.commandBuffer.toNat →
      (s.desk (earlier ++ [e])).Handled later d.box.posted command answer) ∧
    (d.box.alive = false ∨ d.box.queue.length = s.settings.commandBuffer.toNat →
      ∃ why, s.desk (earlier ++ [e]) = ⟨d.box.decline why, d.hand⟩) := by
  intro d answer
  have hroom := (s.desk_kept earlier).room
  rw [← s.desk_capacity earlier]
  have hstep : s.desk (earlier ++ [e]) = d.step e := s.desk_append earlier [e]
  have hrun : s.desk (earlier ++ e :: later) = (d.step e).run later := s.desk_append earlier _
  have hkept : (d.step e).Kept := hstep ▸ s.desk_kept _
  have ha : answer = ((d.step e).run later).box.answer? d.box.posted := by rw [← hrun]
  rw [hstep]
  have ht := d.post_turn h
  generalize d.step e = d' at ha hkept ht ⊢
  rw [ha]
  cases ht with
  | unserved _ hl =>
    rw [Desk.answer_of_declined hkept]
    exact ⟨by simp [hl], by simp [hl], by simp [hl], fun _ => ⟨_, rfl⟩⟩
  | full _ hl hq =>
    have hlen := Nat.le_antisymm hroom hq
    rw [Desk.answer_of_declined hkept]
    exact ⟨by simp [hl], by simp [hl, hlen, d], by simp [hlen, d], fun _ => ⟨_, rfl⟩⟩
  | @queued _ command' hc hl hq =>
    cases Option.some.inj (h.symm.trans hc)
    have hlen := Nat.ne_of_lt hq
    have hp : (d.box.posted, command) ∈ (Desk.mk (d.box.enqueue command) d.hand).pending := by simp
    have hh := Desk.handled hkept hp later
    refine ⟨⟨fun hn => ?_, by simp [hl]⟩, ⟨fun hf => ?_, fun hf => absurd hf.2 hlen⟩, fun _ => hh,
      fun hd => absurd (hd.resolve_left (by simp [hl])) hlen⟩
    · rw [hn] at hh
      exact absurd rfl hh.ne.2
    · rw [hf] at hh
      exact absurd rfl hh.ne.1
  | still hn =>
    rw [hn] at h
    cases h
  | malformed | waited | taken | answered | crashed | ended => cases h

theorem desk_burst (s : Setup) (events : List Event) {burst : List Event} {commands : List Command}
    (h : burst.map Event.command? = commands.map some) (hl : (s.desk events).box.alive = true) :
    s.desk (events ++ burst) = ⟨(s.desk events).box.afterBurst commands, (s.desk events).hand⟩ := by
  rw [desk_append, Desk.run_commands _ h, Mailbox.post_all hl]

/-- A burst comes to the same as the commands of it for which there was room, in their order. -/
theorem serve_burst (s : Setup) (events : List Event) {burst : List Event} {commands : List Command}
    (h : burst.map Event.command? = commands.map some) (hl : (s.desk events).box.alive = true)
    {n : Nat} (hn : (s.desk (events ++ burst)).load ≤ n) :
    ((s.desk (events ++ burst)).run (List.replicate n .serve)).box.controller =
      (s.desk events).box.controller.workAll ((s.desk events).pending.map Prod.snd ++
        commands.take (s.settings.commandBuffer.toNat - (s.desk events).box.queue.length)) := by
  rw [(Desk.serve_all _ hn).2, s.desk_burst events h hl, Desk.pending_mk, ← s.desk_capacity events,
    Mailbox.afterBurst]
  simp only [← List.append_assoc, List.map_append, List.map_take, ticketed_snd, Desk.pending]

end Setup

/-- **Delivery.** After every run each ticket that was given out either waits, once, or has been
answered, once; what waits is served after at most `load` steps; and commands are served in the order
in which they came to the queue. A posted command is declined exactly if the controller has ended or
the queue is full, which changes nothing else, and is otherwise queued and handled on its own. Of a
burst exactly those commands are queued for which there is room, and the controller gets to where
these lead. -/
theorem delivered_once_in_order (s : Setup) (events : List Event) :
    let d := s.desk events
    let buffer := s.settings.commandBuffer.toNat
    (d.pending.map Prod.fst ++ d.box.resolved.toList.map Prod.fst).Perm
      (List.range d.box.posted) ∧
    (∀ n, d.load ≤ n → (d.run (List.replicate n .serve)).pending = []) ∧
    (∃ rest, (s.desk []).queued events = (s.desk []).taken events ++ rest ∧
      (d.box.alive = true → rest = d.box.queue)) ∧
    (∀ earlier e later command, events = earlier ++ e :: later → e.command? = some command →
      let d₀ := s.desk earlier
      let answer := d.box.answer? d₀.box.posted
      (answer = some (.error (.failed .notRunning)) ↔ d₀.box.alive = false) ∧
      (answer = some (.error (.failed .queueFull)) ↔
        d₀.box.alive = true ∧ d₀.box.queue.length = buffer) ∧
      (d₀.box.alive = true ∧ d₀.box.queue.length ≠ buffer →
        (s.desk (earlier ++ [e])).Handled later d₀.box.posted command answer) ∧
      (d₀.box.alive = false ∨ d₀.box.queue.length = buffer →
        ∃ why, s.desk (earlier ++ [e]) = ⟨d₀.box.decline why, d₀.hand⟩)) ∧
    (∀ burst commands, burst.map Event.command? = commands.map some → d.box.alive = true →
      s.desk (events ++ burst) = ⟨d.box.afterBurst commands, d.hand⟩ ∧
      ∀ n, (s.desk (events ++ burst)).load ≤ n →
        ((s.desk (events ++ burst)).run (List.replicate n .serve)).box.controller =
          d.box.controller.workAll (d.pending.map Prod.snd ++
            commands.take (buffer - d.box.queue.length))) := by
  intro d buffer
  refine ⟨(s.desk_kept events).tickets, fun n hn => (Desk.serve_all d hn).1,
    Desk.queue_run (s.desk_kept []) events, ?_, ?_⟩
  · rintro earlier e later command rfl hc
    exact s.posted_fate hc
  · exact fun burst commands hb hl =>
      ⟨s.desk_burst events hb hl, fun n hn => s.serve_burst events hb hl hn⟩

/-- With room for one command, a stop that is posted behind another is declined, until the first has
been taken out of the queue. -/
theorem delivered_once_in_order_sample :
    let s := { Setup.sample with settings := { commandBuffer := 1 } }
    let events : List Event := [.post (.ok (.stop none)), .post (.ok (.stop none)), .serve, .serve]
    (s.desk [.post (.ok (.stop none))]).box.alive = true ∧
      (s.desk events).box.answer? 1 = some (.error (.failed .queueFull)) ∧
      ((s.desk events).box.alive = true ∧
        (s.desk (events ++ [.post (.ok (.stop none)), .post (.ok (.stop none))])).box.queue =
          [(2, .stop none)]) := by
  intro s events
  have hl : (s.desk [.post (.ok (.stop none))]).box.alive = true := by decide
  have hl' : (s.desk events).box.alive = true := by decide
  obtain ⟨-, -, -, hposted, hburst⟩ := delivered_once_in_order s events
  obtain ⟨-, hfull, -⟩ := hposted [.post (.ok (.stop none))] _ [.serve, .serve] _ rfl rfl
  obtain ⟨hb, -⟩ := hburst [.post (.ok (.stop none)), .post (.ok (.stop none))]
    [.stop none, .stop none] rfl hl'
  refine ⟨hl, hfull.mpr ⟨hl, by decide⟩, hl', ?_⟩
  rw [hb]
  decide

/-! ## Delivery by the mailbox -/

namespace Desk

/-- Taking a command at a desk with nothing in hand. -/
theorem step_take (m : Mailbox) :
    (Desk.mk m none).step .serve = ⟨{ m with queue := m.queue.tail }, m.queue.head?⟩ := by
  rcases m with ⟨controller, alive, _ | ⟨q, queue⟩, posted, resolved⟩ <;> rfl

theorem queued_append (d : Desk) (events events' : List Event) :
    d.queued (events ++ events') = d.queued events ++ (d.run events).queued events' := by
  induction events generalizing d with
  | nil => rfl
  | cons e events ih => rw [List.cons_append, queued, queued, ih, run_cons, List.append_assoc]

theorem taken_append (d : Desk) (events events' : List Event) :
    d.taken (events ++ events') = d.taken events ++ (d.run events).taken events' := by
  induction events generalizing d with
  | nil => rfl
  | cons e events ih => rw [List.cons_append, taken, taken, ih, run_cons, List.append_assoc]

theorem whole_of_command {e : Event} {command : Command} (h : e.command? = some command) :
    whole e = [e] := by
  cases e with
  | serve => cases h
  | post | line | wait | shutdown => rfl

theorem whole_of_commands {burst : List Event} {commands : List Command}
    (h : burst.map Event.command? = commands.map some) : burst.flatMap whole = burst := by
  induction burst generalizing commands with
  | nil => rfl
  | cons e burst ih =>
    cases commands with
    | nil => cases h
    | cons command commands =>
      obtain ⟨he, hrest⟩ := List.cons.inj h
      rw [List.flatMap_cons, whole_of_command he, ih hrest]
      rfl

theorem queued_whole (m : Mailbox) (e : Event) :
    (Desk.mk m none).queued (whole e) = (Desk.mk m none).gains e := by
  cases e with
  | serve => rfl
  | post | line | wait | shutdown => exact List.append_nil _

theorem taken_whole (m : Mailbox) (e : Event) :
    (Desk.mk m none).taken (whole e) = (Desk.mk m none).takes e := by
  cases e with
  | serve =>
    -- The second step of a serving finds a command in hand, or still nothing in the queue.
    have hsecond : ((Desk.mk m none).step .serve).takes .serve = [] := by
      rw [step_take]
      cases m.queue <;> simp [takes]
    rw [whole, taken, taken, taken, hsecond, List.append_nil, List.append_nil]
  | post | line | wait | shutdown => rfl

/-- What comes before a step that is at first or later: nothing, the taking of the command that is
answered in the step, or a whole event and more. -/
theorem cut_cons {e' e : Event} {rest earlier later : List Event}
    (h : whole e' ++ rest = earlier ++ e :: later) :
    e' = e ∧ (earlier = [] ∨ e = .serve ∧ earlier = [.serve]) ∨
      ∃ earlier', earlier = whole e' ++ earlier' ∧ rest = earlier' ++ e :: later := by
  cases e' with
  | serve =>
    rcases List.cons_eq_append_iff.mp h with ⟨rfl, he⟩ | ⟨earlier, rfl, hsecond⟩
    · exact .inl ⟨(List.cons.inj he).1.symm, .inl rfl⟩
    · rcases List.cons_eq_append_iff.mp hsecond with ⟨rfl, he⟩ | ⟨earlier, rfl, hrest⟩
      · have he := (List.cons.inj he).1
        exact .inl ⟨he.symm, .inr ⟨he, rfl⟩⟩
      · exact .inr ⟨earlier, rfl, hrest⟩
  | post | line | wait | shutdown =>
    rcases List.cons_eq_append_iff.mp h with ⟨rfl, he⟩ | ⟨earlier, rfl, hrest⟩
    · exact .inl ⟨(List.cons.inj he).1.symm, .inl rfl⟩
    · exact .inr ⟨earlier, rfl, hrest⟩

/-- The steps of a mailbox's run are cut before an event, or within a serving. -/
theorem cut_whole {events earlier later : List Event} {e : Event}
    (h : events.flatMap whole = earlier ++ e :: later) :
    ∃ before after, events = before ++ e :: after ∧
      (earlier = before.flatMap whole ∨ e = .serve ∧ earlier = before.flatMap whole ++ [.serve]) := by
  induction events generalizing earlier with
  | nil => simp at h
  | cons e' events ih =>
    rw [List.flatMap_cons] at h
    rcases cut_cons h with ⟨rfl, hcut⟩ | ⟨earlier, rfl, hrest⟩
    · exact ⟨[], events, rfl, hcut⟩
    · obtain ⟨before, after, rfl, hcut⟩ := ih hrest
      refine ⟨e' :: before, after, rfl, ?_⟩
      simpa [List.append_assoc] using hcut

/-- Twice as many steps as there are commands serve them all. -/
theorem run_drain (m : Mailbox) :
    (Desk.mk m none).run (List.replicate (2 * m.queue.length) .serve) = ⟨m.drain, none⟩ := by
  have hwhole : List.replicate (2 * m.queue.length) .serve =
      (List.replicate m.queue.length .serve).flatMap whole := by
    rw [List.flatMap_replicate, Nat.mul_comm]
    exact List.flatten_replicate_replicate.symm
  rw [hwhole, run_box, Mailbox.run_serve]
  rfl

end Desk

namespace Mailbox

/-- All that a run adds to the queue, in this order. -/
def queued (m : Mailbox) : List Event → List (Nat × Command)
  | [] => []
  | e :: events => (Desk.mk m none).gains e ++ (m.step e).queued events

/-- All that a run serves, in this order. -/
def served (m : Mailbox) : List Event → List (Nat × Command)
  | [] => []
  | e :: events => (Desk.mk m none).takes e ++ (m.step e).served events

theorem queued_eq (m : Mailbox) (events : List Event) :
    m.queued events = (Desk.mk m none).queued (events.flatMap Desk.whole) := by
  induction events generalizing m with
  | nil => rfl
  | cons e events ih =>
    rw [List.flatMap_cons, Desk.queued_append, Desk.queued_whole, Desk.run_whole, queued, ih]

theorem served_eq (m : Mailbox) (events : List Event) :
    m.served events = (Desk.mk m none).taken (events.flatMap Desk.whole) := by
  induction events generalizing m with
  | nil => rfl
  | cons e events ih =>
    rw [List.flatMap_cons, Desk.taken_append, Desk.taken_whole, Desk.run_whole, served, ih]

/-- What becomes of a queued command in a run, with the answer that it has in the end. -/
inductive Handled (m : Mailbox) (events : List Event) (ticket : Nat) (command : Command) :
    Option Answer → Prop where
  | waits : (ticket, command) ∈ (m.run events).queue → Handled m events ticket command none
  | served {earlier later : List Event} : events = earlier ++ .serve :: later →
      (m.run earlier).queue.head? = some (ticket, command) →
      Handled m events ticket command
        (some (((m.run earlier).controller.reply? command).getD (.error (.failed .abandoned))))
  /-- The controller ended while the command was in the queue. -/
  | lost {earlier later : List Event} {e : Event} : events = earlier ++ e :: later →
      (ticket, command) ∈ (m.run earlier).queue → ((m.run earlier).step e).alive = false →
      Handled m events ticket command (some (.error (.failed .abandoned)))

theorem handled_of_desk {m : Mailbox} (hm : ∀ earlier, (Desk.mk (m.run earlier) none).Kept)
    {events : List Event} {ticket : Nat} {command : Command} {answer : Option Answer}
    (h : (Desk.mk m none).Handled (events.flatMap Desk.whole) ticket command answer) :
    m.Handled events ticket command answer := by
  cases h with
  | waits hp =>
    rw [Desk.run_box] at hp
    exact .waits hp
  | served hcut hhand =>
    obtain ⟨earlier, later, hev, rfl | ⟨-, rfl⟩⟩ := Desk.cut_whole hcut
    · rw [Desk.run_box] at hhand
      cases hhand
    · rw [Desk.run_snoc, Desk.run_box, Desk.step_take] at hhand ⊢
      exact .served hev hhand
  | @lost _ _ e hcut hq hd =>
    obtain ⟨earlier, later, hev, rfl | ⟨rfl, rfl⟩⟩ := Desk.cut_whole hcut
    · rw [Desk.run_box] at hq hd
      refine .lost hev hq ?_
      cases e with
      | serve =>
        -- Taking a command does not end the controller, and it was not over while one waited.
        rw [Desk.step_take] at hd
        have hidle : (m.run earlier).queue = [] := (hm earlier).idle hd
        rw [hidle] at hq
        cases hq
      | post | line | wait | shutdown => exact hd
    · rw [Desk.run_snoc, Desk.run_box] at hq hd
      refine .lost hev ?_ ?_
      · rw [Desk.step_take] at hq
        exact List.mem_of_mem_tail hq
      · have hserve := Desk.run_whole (m.run earlier) .serve
        rw [← congrArg (fun d => d.box.alive) hserve]
        exact hd

end Mailbox

/-- **Delivery by the mailbox.** In a run of the mailbox a command is served as a whole, so that it is
answered as soon as it has been taken. All that holds of the desk then holds of the mailbox: each
ticket waits once or is answered once, in the order of the queue; draining serves all that waits; a
command is declined exactly if the controller has ended or the queue is full; and a burst comes to
the same as the commands of it for which there is room. -/
theorem served_as_posted (s : Setup) (events : List Event) :
    let m := s.run events
    let buffer := s.settings.commandBuffer.toNat
    (m.queue.map Prod.fst ++ m.resolved.toList.map Prod.fst).Perm (List.range m.posted) ∧
    m.drain.queue = [] ∧
    (∃ rest, s.mailbox.queued events = s.mailbox.served events ++ rest ∧
      (m.alive = true → rest = m.queue)) ∧
    (∀ earlier e later command, events = earlier ++ e :: later → e.command? = some command →
      let m₀ := s.run earlier
      let answer := m.answer? m₀.posted
      (answer = some (.error (.failed .notRunning)) ↔ m₀.alive = false) ∧
      (answer = some (.error (.failed .queueFull)) ↔
        m₀.alive = true ∧ m₀.queue.length = buffer) ∧
      (m₀.alive = true ∧ m₀.queue.length ≠ buffer →
        (s.run (earlier ++ [e])).Handled later m₀.posted command answer) ∧
      (m₀.alive = false ∨ m₀.queue.length = buffer →
        ∃ why, s.run (earlier ++ [e]) = m₀.decline why)) ∧
    (∀ burst commands, burst.map Event.command? = commands.map some → m.alive = true →
      s.run (events ++ burst) = m.afterBurst commands ∧
      (s.run (events ++ burst)).drain.controller =
        m.controller.workAll (m.queue.map Prod.snd ++
          commands.take (buffer - m.queue.length))) := by
  intro m buffer
  refine ⟨(s.run_kept events).tickets, ?_, ?_, ?_, ?_⟩
  · have hdrain := (Desk.serve_all ⟨m, none⟩ (n := 2 * m.queue.length) (by simp [Desk.load])).1
    rwa [Desk.run_drain] at hdrain
  · have hqueue := Desk.queue_run (s.desk_kept []) (events.flatMap Desk.whole)
    rw [← Setup.desk_append, List.nil_append, s.desk_whole] at hqueue
    rw [Mailbox.queued_eq, Mailbox.served_eq]
    exact hqueue
  · rintro earlier e later command rfl hc
    have hwhole : Desk.whole e = [e] := Desk.whole_of_command hc
    have hposted : s.desk (earlier.flatMap Desk.whole ++ [e]) = ⟨s.run (earlier ++ [e]), none⟩ := by
      rw [← s.desk_whole, List.flatMap_append, List.flatMap_singleton, hwhole]
    have hend : s.desk (earlier.flatMap Desk.whole ++ e :: later.flatMap Desk.whole) = ⟨m, none⟩ := by
      rw [← s.desk_whole, List.flatMap_append, List.flatMap_cons, hwhole]
      rfl
    have hfate := @Setup.posted_fate s (earlier.flatMap Desk.whole) (later.flatMap Desk.whole) _ _ hc
    rw [hposted, hend, s.desk_whole] at hfate
    obtain ⟨hdead, hfull, hhandled, hdeclined⟩ := hfate
    refine ⟨hdead, hfull, fun hroom => ?_, fun hnone => ?_⟩
    · refine Mailbox.handled_of_desk (fun next => ?_) (hhandled hroom)
      rw [Setup.run, ← Mailbox.run_append]
      exact s.run_kept (earlier ++ [e] ++ next)
    · obtain ⟨why, hwhy⟩ := hdeclined hnone
      exact ⟨why, congrArg Desk.box hwhy⟩
  · intro burst commands hb hl
    have hposted : s.desk (events.flatMap Desk.whole ++ burst) = ⟨s.run (events ++ burst), none⟩ := by
      rw [← s.desk_whole, List.flatMap_append, Desk.whole_of_commands hb]
    have hdesk := s.desk_whole events
    have hburst := s.desk_burst (events.flatMap Desk.whole) hb (hdesk ▸ hl)
    have hserved := s.serve_burst (events.flatMap Desk.whole) hb (hdesk ▸ hl)
      (n := 2 * (s.run (events ++ burst)).queue.length) (by simp [hposted, Desk.load])
    rw [hposted, hdesk] at hburst hserved
    rw [Desk.run_drain] at hserved
    exact ⟨congrArg Desk.box hburst, hserved⟩

end Haptics
