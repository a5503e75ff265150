import Haptics.Proofs.Delivery
import Haptics.Proofs.Encoding
import Haptics.Proofs.Replies
import Haptics.Proofs.Starting
import Haptics.Proofs.Unseen

/-! Two ways to learn whether an effect is known: to ask for it, which the catalog answers and no
controller sees, and to start it, which goes through the queue and all checks. -/

namespace Haptics

/-- The kind of the refusal, if an answer is one. -/
def Answer.kind? : Answer → Option Kind
  | .ok () => none
  | .error why => some why.kind

/-! ## The effects of a list -/

namespace Catalog

theorem mem_ids_place (e : Effect) (xs : List Effect) (id : String) :
    id ∈ (place e xs).map Effect.id ↔ e.id = id ∨ id ∈ xs.map Effect.id := by
  induction xs with
  | nil => simp [place, eq_comm]
  | cons x xs ih =>
    unfold place
    split
    · simp [eq_comm]
    · split
      · rename_i heq
        simp [heq, eq_comm]
      · rw [List.map_cons, List.mem_cons, ih, List.map_cons, List.mem_cons, or_left_comm]

theorem mem_ids_insert (c : Catalog) (e : Effect) (id : String) :
    id ∈ (c.insert e).ids ↔ (e.usable ∧ e.id = id) ∨ id ∈ c.ids := by
  unfold insert
  split
  · rename_i hu
    simp [ids, mem_ids_place, hu]
  · rename_i hu
    simp [hu]

/-- A catalog has the ids of the usable entries that it was built from, and no others. -/
theorem mem_ids_ofList {entries : List Effect} {id : String} :
    id ∈ (ofList entries).ids ↔ ∃ e ∈ entries, e.usable ∧ e.id = id := by
  have hf : ∀ (entries : List Effect) (c : Catalog), id ∈ (entries.foldl insert c).ids ↔
      id ∈ c.ids ∨ ∃ e ∈ entries, e.usable ∧ e.id = id := by
    intro entries
    induction entries with
    | nil => simp
    | cons e entries ih =>
      intro c
      rw [List.foldl_cons, ih, mem_ids_insert, or_assoc, or_left_comm]
      simp only [List.mem_cons, exists_eq_or_imp]
  exact (hf entries {}).trans (or_iff_right nofun)

theorem contains_eq_false_iff (c : Catalog) (id : String) : c.contains id = false ↔ id ∉ c.ids := by
  rw [← c.contains_iff, Bool.not_eq_true]

/-- No effect of a list is registered without an id. -/
theorem contains_empty (entries : List Effect) : (ofList entries).contains "" = false := by
  rw [contains_eq_false_iff, mem_ids_ofList]
  rintro ⟨e, -, hu, he⟩
  simp [Effect.usable, he] at hu

end Catalog

/-! ## The answer to the start of a preset -/

section Verdict
variable {entries : List Effect} {id : String} {count : Int32} {context : Context}

/-- A preset with valid numbers has no fault but not to be registered. -/
theorem Flaw.preset_iff {limit : Int64} (hc : 1 ≤ count) (hp : context.parameter.check = .ok ()) :
    (∃ why, Flaw (.ofList entries) limit (.preset id count) context why) ↔
      (Catalog.ofList entries).contains id = false := by
  obtain ⟨hintensity, hfrequency⟩ := Parameter.bounds_of_check hp
  constructor
  · rintro ⟨why, hn | hn | ⟨hr, -⟩ | hr | ⟨hr, hlt⟩ | ⟨hr, hu⟩⟩
    · exact absurd hintensity hn
    · exact absurd hfrequency hn
    · cases hr
    · cases hr
      exact Catalog.contains_empty entries
    · cases hr
      exact absurd hc (Int32.not_le.mpr hlt)
    · cases hr
      exact hu
  · exact fun hu => ⟨_, .unregistered rfl hu⟩

/-- What the device makes of a start is not the fault of the request. -/
theorem Controller.kind?_launch (c : Controller) (s : Session) :
    ((c.launch s).1.getD (.error (.failed .abandoned))).kind? ≠ some .invalidParameter := by
  have h := c.launch_launched s
  generalize c.launch s = r at h
  cases h <;> nofun

/-- The verdict on a preset blames the request exactly if the effect is unknown, also if the device
crashes before it is spoken. -/
theorem Desk.verdict_preset {d : Desk} (h : d.box.controller.catalog = .ofList entries)
    (hc : 1 ≤ count) (hp : context.parameter.check = .ok ()) :
    (d.verdict (.start (.preset id count) context)).kind? = some .invalidParameter ↔
      (Catalog.ofList entries).contains id = false := by
  have hd := d.box.controller.start_dealt (.preset id count) context
  have hv : d.verdict (.start (.preset id count) context) =
      (d.box.controller.start (.preset id count) context).1.getD (.error (.failed .abandoned)) := rfl
  rw [hv]
  generalize d.box.controller.start (.preset id count) context = r at hd
  have known {s : Session} (hs : d.box.controller.candidate (.preset id count) context = .ok s) :
      (Catalog.ofList entries).contains id ≠ false := fun hu =>
    Flaw.not_of_check hs _ (.unregistered rfl (h ▸ hu))
  cases hd with
  | invalid hs => exact iff_of_true rfl ((Flaw.preset_iff hc hp).mp ⟨_, h ▸ Flaw.of_check hs⟩)
  | denied hs | conflict hs => exact iff_of_false (by simp [Answer.kind?, Refusal.kind]) (known hs)
  | launched hs => exact iff_of_false (Controller.kind?_launch _ _) (known hs)

end Verdict

/-! ## Commands that are served -/

namespace Desk

/-- The command in hand is answered with its verdict. -/
theorem answer_of_served {d : Desk} {ticket : Nat} {command : Command} (hk : d.Kept)
    (hh : d.hand = some (ticket, command)) :
    (d.step .serve).box.answer? ticket = some (d.verdict command) := by
  refine (hk.step .serve).answer_iff.mpr ?_
  have ht := d.step_turn .serve
  generalize d.step .serve = d' at ht ⊢
  cases ht with
  | unserved hc | full hc | queued hc => cases hc
  | still _ hp =>
    have hn := hp rfl
    rw [pending, hh] at hn
    cases hn
  | taken hn => rw [hh] at hn; cases hn
  | answered hh' hr | crashed hh' hr =>
    cases hh.symm.trans hh'
    simp [verdict, hr]

/-- As long as the controller lives, what got into its queue waits or has been answered with the
verdict of the time when it was served. -/
theorem handled_of_alive {d : Desk} (hk : d.Kept) {events : List Event} {ticket : Nat}
    {command : Command} {answer : Option Answer} (h : d.Handled events ticket command answer)
    (ha : (d.run events).box.alive = true) :
    (ticket, command) ∈ (d.run events).pending ∨
      ∃ earlier, answer = some ((d.run earlier).verdict command) := by
  cases h with
  | waits hp => exact .inl hp
  | @served earlier _ _ _ => exact .inr ⟨earlier, rfl⟩
  | @lost earlier later e he _ hd =>
    have hl := (still_of_dead ((hk.run earlier).step e) hd later).2.2
    rw [he, run_append, run_cons, hl] at ha
    cases ha

end Desk

/-! ## Calls -/

namespace Mailbox
variable {m : Mailbox}

/-- A serving that leaves the controller alive is one in which the command is answered. -/
theorem serve_of_alive {ticket : Nat} {command : Command} {queue : List (Nat × Command)}
    (hq : m.queue = (ticket, command) :: queue) (ha : m.serve.alive = true) :
    ∃ answer, m.controller.reply? command = some answer ∧
      m.serve = ({ m with queue }.work command.job).resolve ticket answer := by
  have hs : m.serve = { m with queue }.process ticket command := by rw [serve, hq]
  cases hr : m.controller.reply? command with
  | some answer =>
    exact ⟨answer, rfl, hs.trans (process_of_reply (m := { m with queue }) hr ticket)⟩
  | none =>
    rw [hs, process_of_crash (m := { m with queue }) hr, close_alive] at ha
    cases ha

theorem alive_of_serve (ha : m.serve.alive = true) : m.alive = true := by
  rcases hq : m.queue with _ | ⟨⟨ticket, command⟩, queue⟩
  · rwa [serve, hq] at ha
  · obtain ⟨answer, -, hs⟩ := serve_of_alive hq ha
    rwa [hs] at ha

theorem serve_enqueue {ticket : Nat} {command : Command} {queue : List (Nat × Command)}
    (hq : m.queue = (ticket, command) :: queue) (ha : m.serve.alive = true) (last : Command) :
    (m.enqueue last).serve = m.serve.enqueue last := by
  obtain ⟨answer, hr, hs⟩ := serve_of_alive hq ha
  rw [hs, serve, enqueue_queue, hq]
  exact process_of_reply (m := { m.enqueue last with queue := queue ++ [(m.posted, last)] }) hr ticket

/-- What is posted behind the queue waits while the queue is served. -/
structure Follows (n : Nat) (m : Mailbox) (command : Command) : Prop where
  alive : m.alive = true
  posted : (n.repeat serve m).posted = m.posted
  queue : (n.repeat serve m).queue = m.queue.drop n
  behind : n.repeat serve (m.enqueue command) = (n.repeat serve m).enqueue command

theorem follows {n : Nat} (hn : n ≤ m.queue.length) (ha : (n.repeat serve m).alive = true)
    (command : Command) : Follows n m command := by
  -- As there are `n` commands in the queue, every serving finds one and answers it.
  induction n with
  | zero => exact ⟨ha, rfl, rfl, rfl⟩
  | succ n ih =>
    have hf := ih (Nat.le_of_succ_le hn) (alive_of_serve ha)
    have hq := hf.queue
    rw [List.drop_eq_getElem_cons hn] at hq
    obtain ⟨answer, hr, hs⟩ := serve_of_alive hq ha
    refine ⟨hf.alive, ?_, ?_, ?_⟩
    · rw [Nat.repeat, hs]
      exact hf.posted
    · rw [Nat.repeat, hs]
      rfl
    · rw [Nat.repeat, hf.behind]
      exact serve_enqueue hq ha command

/-- A command that finds the queue empty is the next to be served. -/
theorem answer_of_alone (hk : (Desk.mk m none).Kept) (ha : m.alive = true) (hq : m.queue = [])
    (hroom : 0 < m.capacity) (command : Command) :
    (m.enqueue command).serve.answer? m.posted = some ((Desk.mk m none).verdict command) := by
  have hk' := (hk.enqueue command ha (hq ▸ hroom)).step .serve
  have hhand : ((Desk.mk (m.enqueue command) none).step .serve).hand = some (m.posted, command) := by
    simp [Desk.step, hq]
  have hserved : ((Desk.mk (m.enqueue command) none).step .serve).step .serve =
      ⟨(m.enqueue command).serve, none⟩ := Desk.run_whole _ .serve
  have hanswer := Desk.answer_of_served hk' hhand
  rw [hserved] at hanswer
  rw [hanswer]
  simp [Desk.step, hq, Desk.verdict]

end Mailbox

namespace Setup

theorem run_capacity (s : Setup) (events : List Event) :
    (s.run events).capacity = s.settings.commandBuffer.toNat :=
  congrArg (fun settings => settings.commandBuffer.toNat) (s.after_moves events).grows.settings

theorem run_drain (s : Setup) (events : List Event) :
    (s.run events).drain = s.run (events ++ List.replicate (s.run events).queue.length .serve) := by
  rw [run_append, Mailbox.run_serve]
  rfl

/-- A call is answered with the verdict of the time when all that waited before it has been served,
if the controller still lives then. -/
theorem call_verdict (s : Setup) (events : List Event) (command : Command)
    (hroom : (s.run events).queue.length < (s.run events).capacity)
    (ha : (s.run events).drain.alive = true) :
    ((s.run events).call (.ok command)).1 =
      (Desk.mk (s.run events).drain none).verdict command := by
  have hkept : (Desk.mk (s.run events).drain none).Kept := s.run_drain events ▸ s.run_kept _
  have hcapacity : (s.run events).drain.capacity = (s.run events).capacity := by
    rw [run_drain, run_capacity, run_capacity]
  generalize s.run events = m at hroom ha hkept hcapacity ⊢
  -- Serving all that waited leaves the command alone in the queue, with the ticket that it was given.
  have hf : Mailbox.Follows m.queue.length m command := Mailbox.follows (Nat.le_refl _) ha command
  have hq : m.drain.queue = [] := hf.queue.trans List.drop_length
  have hposted : m.drain.posted = m.posted := hf.posted
  have hdrain : (m.post (.ok command)).drain = (m.drain.enqueue command).serve := by
    rw [Mailbox.post_of_room hf.alive hroom, Mailbox.drain, Mailbox.enqueue_queue, List.length_append]
    exact congrArg Mailbox.serve hf.behind
  have hanswer := Mailbox.answer_of_alone hkept ha hq (hcapacity ▸ Nat.zero_lt_of_lt hroom) command
  rw [hposted] at hanswer
  rw [Mailbox.call, hdrain]
  simp only [hanswer]
  rfl

theorem run_supports (s : Setup) (events : List Event) (id : String) :
    (s.run events).supports id = s.mailbox.supports id :=
  congrArg (Catalog.contains · id) (s.catalog_run events)

theorem desk_catalog (s : Setup) (events : List Event) :
    (s.desk events).box.controller.catalog = s.catalog := (Desk.run_grows _ events).catalog

end Setup

/-! ## Asking and starting -/

section Preset
variable {s : Setup} {entries : List Effect} {id : String} {count : Int32} {context : Context}

theorem Setup.supports_eq (hs : s.catalog = .ofList entries) :
    s.mailbox.supports id = (Catalog.ofList entries).contains id :=
  congrArg (Catalog.contains · id) hs

/-- Whatever a controller has been through, its verdict on a preset is what it was brought up with. -/
theorem Setup.verdict_preset (hs : s.catalog = .ofList entries) (hc : 1 ≤ count)
    (hp : context.parameter.check = .ok ()) {d : Desk} (hd : d.box.controller.catalog = s.catalog) :
    (d.verdict (.start (.preset id count) context)).kind? = some .invalidParameter ↔
      s.mailbox.supports id = false := by
  rw [supports_eq hs]
  exact Desk.verdict_preset (hd.trans hs) hc hp

/-- As long as the controller lives, the start of a preset for which there was room waits or has been
answered so. -/
theorem Setup.posted_preset (hs : s.catalog = .ofList entries) (hc : 1 ≤ count)
    (hp : context.parameter.check = .ok ()) {earlier later : List Event} {e : Event}
    (he : e.command? = some (.start (.preset id count) context))
    (hl : (s.desk earlier).box.alive = true)
    (hroom : (s.desk earlier).box.queue.length < (s.desk earlier).box.capacity)
    (ha : (s.desk (earlier ++ e :: later)).box.alive = true) :
    let d := s.desk (earlier ++ e :: later)
    let ticket := (s.desk earlier).box.posted
    (ticket, .start (.preset id count) context) ∈ d.pending ∨
      ∃ answer, d.box.answer? ticket = some answer ∧
        (answer.kind? = some .invalidParameter ↔ s.mailbox.supports id = false) := by
  intro d ticket
  have hfull : (s.desk earlier).box.queue.length ≠ s.settings.commandBuffer.toNat :=
    Nat.ne_of_lt (s.desk_capacity earlier ▸ hroom)
  have hfate : (s.desk (earlier ++ [e])).Handled later ticket (.start (.preset id count) context)
      (d.box.answer? ticket) := (s.posted_fate he).2.2.1 ⟨hl, hfull⟩
  have hd : (s.desk (earlier ++ [e])).run later = d := by
    rw [← s.desk_append, ← List.append_cons]
  rcases Desk.handled_of_alive (s.desk_kept _) hfate (hd ▸ ha) with hwaits | ⟨served, hanswer⟩
  · exact .inl (hd ▸ hwaits)
  · refine .inr ⟨_, hanswer, verdict_preset hs hc hp ?_⟩
    rw [(Desk.run_grows _ served).catalog, s.desk_catalog]

theorem Setup.call_preset (hs : s.catalog = .ofList entries) (hc : 1 ≤ count)
    (hp : context.parameter.check = .ok ()) {events : List Event}
    (hroom : (s.run events).queue.length < (s.run events).capacity)
    (ha : (s.run events).drain.alive = true) :
    ((s.run events).call (.ok (.start (.preset id count) context))).1.kind? =
        some .invalidParameter ↔ s.mailbox.supports id = false := by
  rw [s.call_verdict events _ hroom ha]
  refine verdict_preset hs hc hp ?_
  rw [s.run_drain]
  exact s.catalog_run _

end Preset

namespace Line
variable {text id : String} {number : Option UInt64} {args : List Json}

/-- Lines with a bare string for an argument can be written down, whatever the string is. -/
theorem ofText?_bare (number : Option UInt64) (op id : String) :
    let message : Message := ⟨number, op, [.str id]⟩
    Wire.ofText? Message (Wire.text message) = some message := by
  intro message
  have hfree : ∀ j ∈ message.args, j.FloatFree := by
    intro j hj
    rw [List.mem_singleton.mp hj]
    exact ⟨rfl, rfl⟩
  have hdepth : (Wire.encode message).depth ≤ Json.deepest := by
    cases number <;> exact Nat.le_of_ble_eq_true rfl
  exact Wire.ofText?_text (Message.encode_whole hfree) (Message.decode hfree hdepth)

theorem asked_vibrate (h : Wire.ofText? Message text = some ⟨number, "vibrate", .str id :: args⟩) :
    asked text = .ok (.vibrate (.preset id 1)) := by
  rw [asked, h]
  rfl

theorem asked_isSupportEffect
    (h : Wire.ofText? Message text = some ⟨number, "isSupportEffect", .str id :: args⟩) :
    asked text = .ok (.isSupportEffect id) := by
  rw [asked, h]
  rfl

/-- Of the shapes that an error can have, only one is that of an invalid parameter. -/
theorem kind_of_shape {kind : Kind} :
    kind.shape = Kind.invalidParameter.shape ↔ kind = .invalidParameter := by
  cases kind <;> simp [Kind.shape, Kind.code]

/-- A line that asks for a command has an error as the answer to that command has. -/
theorem error_eq_iff {m : Mailbox} {operation : Operation} {command : Command}
    (ho : asked text = .ok operation) (hc : operation.command? = some command) :
    (answer m text).1.error = some Kind.invalidParameter.shape ↔
      (m.call (.ok command)).1.kind? = some .invalidParameter := by
  have h := (answer_answered m text).of_operation ho
  rw [hc] at h
  rw [h.2]
  cases (m.call (.ok command)).1 with
  | ok => simp [Answer.kind?]
  | error why => simp [Answer.kind?, kind_of_shape]

theorem result_of_isSupportEffect (m : Mailbox) (ho : asked text = .ok (.isSupportEffect id)) :
    (answer m text).1.result = some (.bool (m.supports id)) :=
  ((answer_answered m text).result_iff _).mpr ⟨_, ho, rfl⟩

end Line

open Line in
/-- **Asking for an effect tells whether its start is refused as invalid.** Let a catalog be built
from a list, and the numbers of the start be valid. The effects that are known are those of the usable
entries, and they stay the same whatever happens. From every state, a start that is served is refused
as invalid exactly if its effect is unknown, even if the device crashes; and as long as the controller
lives, a start for which there was room is served, or waits for that. So it is for calls, and for
lines: `vibrate` with the name of an effect fails as invalid exactly if `isSupportEffect` says that
there is none of that name, whenever it is asked. -/
theorem preset_refused_iff_unsupported (s : Setup) (entries : List Effect)
    (hs : s.catalog = .ofList entries) (id : String) (count : Int32) (hc : 1 ≤ count)
    (context : Context) (hp : context.parameter.check = .ok ()) :
    let m₀ := s.mailbox
    let start := Command.start (.preset id count) context
    (m₀.supports id = false ↔ id ∉ m₀.effects) ∧
    (m₀.supports id = true ↔ ∃ e ∈ entries, e.usable ∧ e.id = id) ∧
    (∀ events, (s.desk events).box.supports id = m₀.supports id ∧
      (s.desk events).box.effects = m₀.effects) ∧
    (∀ events ticket, (s.desk events).hand = some (ticket, start) →
      ∃ answer, (s.desk (events ++ [.serve])).box.answer? ticket = some answer ∧
        (answer.kind? = some .invalidParameter ↔ m₀.supports id = false)) ∧
    (∀ earlier e later, e.command? = some start → (s.desk earlier).box.alive = true →
      (s.desk earlier).box.queue.length < (s.desk earlier).box.capacity →
      (s.desk (earlier ++ e :: later)).box.alive = true →
      let d := s.desk (earlier ++ e :: later)
      let ticket := (s.desk earlier).box.posted
      (ticket, start) ∈ d.pending ∨ ∃ answer, d.box.answer? ticket = some answer ∧
        (answer.kind? = some .invalidParameter ↔ m₀.supports id = false)) ∧
    (∀ events, (s.run events).queue.length < (s.run events).capacity →
      (s.run events).drain.alive = true →
      (((s.run events).call (.ok start)).1.kind? = some .invalidParameter ↔
        m₀.supports id = false)) ∧
    ∀ events events' text text' number number' args args',
      (s.run events).queue.length < (s.run events).capacity → (s.run events).drain.alive = true →
      Wire.ofText? Message text = some ⟨number, "vibrate", .str id :: args⟩ →
      Wire.ofText? Message text' = some ⟨number', "isSupportEffect", .str id :: args'⟩ →
      ((answer (s.run events) text).1.error = some Kind.invalidParameter.shape ↔
        (answer (s.run events') text').1.result = some (.bool false)) := by
  intro m₀ start
  refine ⟨m₀.controller.catalog.contains_eq_false_iff id, ?_, fun events => ?_,
    fun events ticket hh => ?_, fun earlier e later => Setup.posted_preset hs hc hp,
    fun events => Setup.call_preset hs hc hp, ?_⟩
  · rw [Setup.supports_eq hs, Catalog.contains_iff, Catalog.mem_ids_ofList]
  · exact ⟨congrArg (Catalog.contains · id) (s.desk_catalog events),
      congrArg Catalog.ids (s.desk_catalog events)⟩
  · rw [s.desk_append]
    exact ⟨_, Desk.answer_of_served (s.desk_kept events) hh,
      Setup.verdict_preset hs hc hp (s.desk_catalog events)⟩
  · intro events events' text text' number number' args args' hroom ha hm hm'
    have hone : (1 : Int32) ≤ 1 := by decide
    have hcall : ((s.run events).call (.ok (.start (.preset id 1) {}))).1.kind? =
        some .invalidParameter ↔ m₀.supports id = false := Setup.call_preset hs hone rfl hroom ha
    rw [error_eq_iff (asked_vibrate hm) rfl, hcall,
      result_of_isSupportEffect _ (asked_isSupportEffect hm'), s.run_supports,
      Option.some.injEq, Json.bool.injEq]

open Line in
/-- Entries without a name or a length, one of them named like a mode, and a name three times. While
the one known effect plays, the one named like a mode is started, by a call and by a line. -/
theorem preset_refused_iff_unsupported_sample :
    let entries : List Effect := [⟨"", 5⟩, ⟨"time", 0⟩, ⟨"tick", 7⟩, ⟨"tick", 0⟩, ⟨"tick", 50⟩]
    let s : Setup := { Setup.sample with catalog := .ofList entries }
    let start := Command.start (.preset "time" 2) { usage := .alarm, parameter := ⟨0, -100⟩ }
    let vibrate : Message := ⟨some 7, "vibrate", [.str "time"]⟩
    let query : Message := ⟨some 8, "isSupportEffect", [.str "time"]⟩
    (1 : Int32) ≤ 2 ∧ (⟨0, -100⟩ : Parameter).check = .ok () ∧
      (s.run Setup.sampleEvents).queue.length < (s.run Setup.sampleEvents).capacity ∧
      (s.run Setup.sampleEvents).drain.alive = true ∧ s.mailbox.supports "time" = false ∧
      ((s.run Setup.sampleEvents).call (.ok start)).1.kind? = some .invalidParameter ∧
      (answer (s.run []) (Wire.text query)).1.result = some (.bool false) ∧
      (answer (s.run Setup.sampleEvents) (Wire.text vibrate)).1.error =
        some Kind.invalidParameter.shape := by
  intro entries s start vibrate query
  have hc : (1 : Int32) ≤ 2 := by decide
  have hp : (⟨0, -100⟩ : Parameter).check = .ok () := by decide
  have hroom : (s.run Setup.sampleEvents).queue.length < (s.run Setup.sampleEvents).capacity := by
    decide
  have ha : (s.run Setup.sampleEvents).drain.alive = true := by decide
  have hvibrate : Wire.ofText? Message (Wire.text vibrate) = some vibrate := ofText?_bare ..
  have hquery : Wire.ofText? Message (Wire.text query) = some query := ofText?_bare ..
  obtain ⟨-, hknown, -, -, -, hcalls, hlines⟩ := preset_refused_iff_unsupported s entries rfl
    "time" 2 hc { usage := .alarm, parameter := ⟨0, -100⟩ } hp
  have hunknown : s.mailbox.supports "time" = false := by
    rw [← Bool.not_eq_true, hknown]
    simp [entries, Effect.usable]
  have hasked : (answer (s.run []) (Wire.text query)).1.result = some (.bool false) := by
    rw [result_of_isSupportEffect _ (asked_isSupportEffect hquery), s.run_supports, hunknown]
  exact ⟨hc, hp, hroom, ha, hunknown, (hcalls _ hroom ha).mpr hunknown, hasked,
    (hlines _ _ _ _ _ _ _ _ hroom ha hvibrate hquery).mpr hasked⟩

end Haptics
