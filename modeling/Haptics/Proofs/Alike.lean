import Haptics.Proofs.Tickets

/-! What nobody can tell apart. A session that has ended keeps the slot until a command looks at it;
controllers that differ in nothing else answer alike, and stay alike whatever they are made to do. So
do mailboxes with alike controllers, whose tickets may differ by a constant. -/

namespace Haptics

namespace Controller

/-! ## Controllers -/

section Release
variable (c : Controller)

@[simp] theorem release_settings : c.release.settings = c.settings := by
  unfold release; split <;> rfl

@[simp] theorem release_catalog : c.release.catalog = c.catalog := by
  unfold release; split <;> rfl

@[simp] theorem release_device : c.release.device = c.device := by
  unfold release; split <;> rfl

@[simp] theorem release_now : c.release.now = c.now := by
  unfold release; split <;> rfl

@[simp] theorem release_published : c.release.published = c.published := by
  unfold release; split <;> rfl

variable {c} in
theorem release_of_spent {s : Session} (h : c.slot = .spent s) :
    c.release = { c with slot := .free } := by
  unfold release
  rw [h]

variable {c} in
theorem release_eq_self (h : ∀ s, c.slot ≠ .spent s) : c.release = c := by
  unfold release
  split
  · rename_i s hs
    exact absurd hs (h s)
  · rfl

@[simp] theorem release_release : c.release.release = c.release := by
  refine release_eq_self fun s hs => ?_
  cases hc : c.slot with
  | free | playing =>
    rw [release_eq_self (by simp [hc]), hc] at hs
    cases hs
  | spent s' =>
    rw [release_of_spent hc] at hs
    cases hs

end Release

/-- Controllers are alike if they are the same once an ended session has left the slot. -/
def Alike (c c' : Controller) : Prop := c.release = c'.release

theorem release_alike (c : Controller) : c.release.Alike c := c.release_release

namespace Alike
variable {c c' c'' : Controller}

theorem refl (c : Controller) : c.Alike c := rfl

theorem symm (h : c.Alike c') : c'.Alike c := Eq.symm h

theorem trans (h : c.Alike c') (h' : c'.Alike c'') : c.Alike c'' := Eq.trans h h'

/-- What can be read off a controller does not depend on an ended session. -/
theorem congr {α : Sort*} (f : Controller → α) (hf : ∀ c : Controller, f c.release = f c)
    (h : c.Alike c') : f c = f c' := by
  rw [← hf c, show c.release = c'.release from h, hf c']

theorem settings (h : c.Alike c') : c.settings = c'.settings := h.congr _ release_settings

theorem catalog (h : c.Alike c') : c.catalog = c'.catalog := h.congr _ release_catalog

theorem device (h : c.Alike c') : c.device = c'.device := h.congr _ release_device

theorem now (h : c.Alike c') : c.now = c'.now := h.congr _ release_now

theorem nextId (h : c.Alike c') : c.nextId = c'.nextId := h.congr _ release_nextId

theorem published (h : c.Alike c') : c.published = c'.published := h.congr _ release_published

theorem playing (h : c.Alike c') : c.slot.playing? = c'.slot.playing? :=
  h.congr (fun c => c.slot.playing?) release_playing

end Alike

theorem start_release (c : Controller) (request : Request) (context : Context) :
    (c.release.start request context).1 = (c.start request context).1 ∧
      (c.release.start request context).2.Alike (c.start request context).2 := by
  unfold start
  simp only [release_nextId, release_catalog, release_settings, release_release]
  split
  · exact ⟨rfl, c.release_alike⟩
  · split
    · exact ⟨rfl, .refl _⟩
    · exact ⟨rfl, c.release_alike⟩

theorem stop_release (c : Controller) (mode : Option Mode) :
    (c.release.stop mode).1 = (c.stop mode).1 ∧
      (c.release.stop mode).2.Alike (c.stop mode).2 := by
  unfold stop
  simp only [release_settings, release_release]
  split
  · exact ⟨rfl, .refl _⟩
  · exact ⟨rfl, c.release_alike⟩

theorem wait_release (c : Controller) (millis : Nat) :
    (c.release.wait millis).Alike (c.wait millis) := by
  cases hs : c.slot with
  | free | playing =>
    rw [release_eq_self (by simp [hs])]
    exact .refl _
  | spent s =>
    rw [release_of_spent hs, wait_of_not_playing (c := c) (by rw [hs]; rfl)]
    simp [Alike, release, wait, hs]

theorem work_release (c : Controller) (job : Job) : (c.release.work job).Alike (c.work job) := by
  cases job with
  | rest => exact c.release_alike
  | start request context => exact (c.start_release request context).2
  | stop mode => exact (c.stop_release mode).2
  | wait millis => exact c.wait_release millis
  | finish => exact congrArg release (c.release_teardown .stopped)

theorem reply?_release (c : Controller) (command : Command) :
    c.release.reply? command = c.reply? command := by
  cases command with
  | start request context => exact (c.start_release request context).1
  | stop mode => exact congrArg some (c.stop_release mode).1

namespace Alike
variable {c c' : Controller}

theorem work (h : c.Alike c') (job : Job) : (c.work job).Alike (c'.work job) := by
  have hc := c.work_release job
  rw [show c.release = c'.release from h] at hc
  exact hc.symm.trans (c'.work_release job)

theorem reply (h : c.Alike c') (command : Command) : c.reply? command = c'.reply? command :=
  h.congr (fun c => c.reply? command) fun c => c.reply?_release command

end Alike

end Controller

/-! ## Mailboxes -/

theorem Line.answer_fst (m : Mailbox) (text : String) :
    (Line.answer m text).1 = match Line.parse text with
      | (id, .error why) => .failure id why.shape
      | (id, .ok operation) =>
        match (Line.execute m operation).1 with
        | .ok result => .success id result
        | .error why => .failure id why.shape := by
  unfold Line.answer
  rcases Line.parse text with ⟨id, why | operation⟩
  · rfl
  · rcases hx : Line.execute m operation with ⟨_ | _, n⟩ <;> simp only [hx]

/-- The same under a ticket that is higher by `k`. -/
def reticket {α : Type} (k : Nat) (entry : Nat × α) : Nat × α := (entry.1 + k, entry.2)

/-- The second mailbox stands as the first does, with tickets higher by `k`, and since they had
answered `base` and `base'` they have given the same answers. -/
structure Mailbox.Shifted (k : Nat) (base base' : List (Nat × Answer)) (m m' : Mailbox) : Prop where
  controller : m'.controller.Alike m.controller
  alive : m'.alive = m.alive
  queue : m'.queue = m.queue.map (reticket k)
  posted : m'.posted = m.posted + k
  resolved : ∃ new, m.resolved.toList = base ++ new ∧ m'.resolved.toList = base' ++ new.map (reticket k)

namespace Mailbox.Shifted
variable {k : Nat} {base base' : List (Nat × Answer)} {m m' : Mailbox}

theorem capacity (h : Shifted k base base' m m') : m'.capacity = m.capacity := by
  rw [Mailbox.capacity, Mailbox.capacity, h.controller.settings]

theorem length (h : Shifted k base base' m m') : m'.queue.length = m.queue.length := by
  rw [h.queue, List.length_map]

theorem work (h : Shifted k base base' m m') (job : Job) :
    Shifted k base base' (m.work job) (m'.work job) :=
  ⟨h.controller.work job, h.alive, h.queue, h.posted, h.resolved⟩

theorem resolve (h : Shifted k base base' m m') (ticket : Nat) (answer : Answer) :
    Shifted k base base' (m.resolve ticket answer) (m'.resolve (ticket + k) answer) := by
  obtain ⟨new, hm, hm'⟩ := h.resolved
  refine ⟨h.controller, h.alive, h.queue, h.posted, new ++ [(ticket, answer)], ?_, ?_⟩
  · rw [resolve_toList, hm, List.append_assoc]
  · rw [resolve_toList, hm', List.map_append, List.append_assoc]
    rfl

theorem decline (h : Shifted k base base' m m') (why : Refusal) :
    Shifted k base base' (m.decline why) (m'.decline why) := by
  have hp : Shifted k base base' { m with posted := m.posted + 1 }
      { m' with posted := m'.posted + 1 } :=
    ⟨h.controller, h.alive, h.queue, by simp only [h.posted]; omega, h.resolved⟩
  have hr := hp.resolve m.posted (.error why)
  rwa [← h.posted] at hr

theorem enqueue (h : Shifted k base base' m m') (command : Command) :
    Shifted k base base' (m.enqueue command) (m'.enqueue command) := by
  refine ⟨h.controller, h.alive, ?_, ?_, h.resolved⟩
  · rw [enqueue_queue, enqueue_queue, h.queue, h.posted, List.map_append]
    rfl
  · rw [enqueue_posted, enqueue_posted, h.posted]
    omega

theorem post (h : Shifted k base base' m m') (command : Except Refusal Command) :
    Shifted k base base' (m.post command) (m'.post command) := by
  cases command with
  | error why => exact h.decline why
  | ok command =>
    rw [post_ok, post_ok, h.alive, h.capacity, h.length]
    split
    · exact h.decline _
    · split
      · exact h.decline _
      · exact h.enqueue command

theorem close (h : Shifted k base base' m m') : Shifted k base base' m.close m'.close := by
  obtain ⟨new, hm, hm'⟩ := h.resolved
  refine ⟨?_, ?_, ?_, ?_, new ++ m.queue.map abandon, ?_, ?_⟩
  · simpa using h.controller
  · simp
  · simp
  · simpa using h.posted
  · rw [close_toList, hm, List.append_assoc]
  · rw [close_toList, hm', h.queue, List.map_append, List.append_assoc, List.map_map, List.map_map]
    rfl

theorem process (h : Shifted k base base' m m') (ticket : Nat) (command : Command) :
    Shifted k base base' (m.process ticket command) (m'.process (ticket + k) command) := by
  have hr := h.controller.reply command
  cases ha : m.controller.reply? command with
  | some answer =>
    rw [process_of_reply ha, process_of_reply (hr.trans ha)]
    exact (h.work _).resolve ticket answer
  | none =>
    rw [process_of_crash ha, process_of_crash (hr.trans ha)]
    exact ((h.work _).resolve ticket _).close

theorem serve (h : Shifted k base base' m m') : Shifted k base base' m.serve m'.serve := by
  rcases hq : m.queue with _ | ⟨⟨ticket, command⟩, queue⟩
  · have hq' : m'.queue = [] := by rw [h.queue, hq]; rfl
    rw [Mailbox.serve, Mailbox.serve, hq, hq']
    exact h
  · have hq' : m'.queue = (ticket + k, command) :: queue.map (reticket k) := by rw [h.queue, hq]; rfl
    rw [Mailbox.serve, Mailbox.serve, hq, hq']
    have hs : Shifted k base base' { m with queue } { m' with queue := queue.map (reticket k) } :=
      ⟨h.controller, h.alive, rfl, h.posted, h.resolved⟩
    exact hs.process ticket command

theorem step (h : Shifted k base base' m m') (e : Event) :
    Shifted k base base' (m.step e) (m'.step e) := by
  cases e with
  | post command => exact h.post command
  | line text =>
    simp only [Mailbox.step, submit_eq]
    split
    · exact h.post _
    · exact h
  | serve => exact h.serve
  | wait millis => exact h.work (.wait millis)
  | shutdown =>
    simp only [Mailbox.step, shutdown, h.alive]
    split
    · exact (h.work .finish).close
    · exact h

theorem run (h : Shifted k base base' m m') (events : List Event) :
    Shifted k base base' (m.run events) (m'.run events) := by
  induction events generalizing m m' with
  | nil => exact h
  | cons e events ih => exact ih (h.step e)

/-! ## Callers that wait for their answer -/

theorem answer (h : Shifted k base base' m m') {ticket : Nat} (hb : ∀ x ∈ base, x.1 ≠ ticket)
    (hb' : ∀ x ∈ base', x.1 ≠ ticket + k) : m'.answer? (ticket + k) = m.answer? ticket := by
  obtain ⟨new, hm, hm'⟩ := h.resolved
  have skip : ∀ {l : List (Nat × Answer)} {t : Nat}, (∀ x ∈ l, x.1 ≠ t) → ∀ l',
      (l ++ l').find? (fun r => r.1 == t) = l'.find? fun r => r.1 == t := by
    intro l t hl l'
    rw [List.find?_append, List.find?_eq_none.mpr (by simpa using hl), Option.none_or]
  rw [answer?_eq, answer?_eq, hm, hm', skip hb, skip hb', List.find?_map, Option.map_map]
  have hf : (fun r : Nat × Answer => r.1 == ticket + k) ∘ reticket k = fun r => r.1 == ticket := by
    funext r
    simp [reticket]
  rw [hf]
  rfl

theorem call (h : Shifted k base base' m m') (hb : ∀ x ∈ base, x.1 < m.posted)
    (hb' : ∀ x ∈ base', x.1 < m'.posted) (command : Except Refusal Command) :
    (m'.call command).1 = (m.call command).1 := by
  have hd : Shifted k base base' (m.post command).drain (m'.post command).drain := by
    rw [drain, drain, ← run_serve, ← run_serve, (h.post command).length]
    exact (h.post command).run _
  have hne : ∀ x ∈ base, x.1 ≠ m.posted := fun x hx => Nat.ne_of_lt (hb x hx)
  have hne' : ∀ x ∈ base', x.1 ≠ m.posted + k := fun x hx => Nat.ne_of_lt (h.posted ▸ hb' x hx)
  have ha := hd.answer hne hne'
  rw [← h.posted] at ha
  simp only [Mailbox.call, ha]

theorem execute (h : Shifted k base base' m m') (hb : ∀ x ∈ base, x.1 < m.posted)
    (hb' : ∀ x ∈ base', x.1 < m'.posted) (operation : Line.Operation) :
    (Line.execute m' operation).1 = (Line.execute m operation).1 := by
  have command : ∀ c, (Line.execute.command m' c).1 = (Line.execute.command m c).1 := fun c => by
    simp only [Line.execute.command, h.call hb hb' (.ok c)]
  cases operation with
  | vibrate | startVibration | stop => exact command _
  | isSupportEffect => simp only [Line.execute, supports, h.controller.catalog]
  | supportedEffects => simp only [Line.execute, effects, h.controller.catalog]

theorem reply (h : Shifted k base base' m m') (hb : ∀ x ∈ base, x.1 < m.posted)
    (hb' : ∀ x ∈ base', x.1 < m'.posted) (text : String) :
    (Line.answer m' text).1 = (Line.answer m text).1 := by
  rw [Line.answer_fst, Line.answer_fst]
  split
  · rfl
  · rw [h.execute hb hb']

end Mailbox.Shifted

end Haptics
