import Haptics.Proofs.Endings
import Haptics.Proofs.Halting
import Haptics.Proofs.Rounds

/-! What a start is answered with. A request may be at fault on its face, it may lack permission, the
policy may be against it, and the device may not take it; the first of these that applies gives the
answer. Only the last of them leaves a trace: by then the session that played has been ended. -/

namespace Haptics

/-! ## Requests at fault -/

/-- The faults that a request can have on its face, as the error that reports each of them. -/
inductive Flaw (catalog : Catalog) (limit : Int64) (request : Request) (context : Context) :
    Invalid → Prop where
  | intensity : ¬ (0 ≤ context.parameter.intensity ∧ context.parameter.intensity ≤ 100) →
      Flaw catalog limit request context (.intensity context.parameter.intensity)
  | frequency : ¬ (-100 ≤ context.parameter.frequency ∧ context.parameter.frequency ≤ 100) →
      Flaw catalog limit request context (.frequency context.parameter.frequency)
  | duration {millis : Int64} : request = .time millis → ¬ (1 ≤ millis ∧ millis ≤ limit) →
      Flaw catalog limit request context (.duration millis limit)
  | emptyId {count : Int32} : request = .preset "" count →
      Flaw catalog limit request context .emptyEffectId
  | count {effectId : String} {count : Int32} : request = .preset effectId count → count < 1 →
      Flaw catalog limit request context (.count count)
  | unregistered {effectId : String} {count : Int32} : request = .preset effectId count →
      catalog.contains effectId = false →
      Flaw catalog limit request context (.unregistered effectId)

section Check
variable {id : UInt64} {catalog : Catalog} {limit : Int64} {request : Request} {context : Context}

theorem outside_iff {millis : Int64} :
    (millis ≤ 0 ∨ limit < millis) ↔ ¬ (1 ≤ millis ∧ millis ≤ limit) := by
  simp only [Int64.le_iff_toInt_le, Int64.lt_iff_toInt_lt, Int64.toInt_zero, Int64.toInt_one]
  omega

theorem Parameter.flaw_of_check {why : Invalid} (h : context.parameter.check = .error why) :
    Flaw catalog limit request context why := by
  unfold check at h
  split at h
  · rename_i hi
    cases h
    rw [← Int32.not_le, ← Int32.not_le, ← not_and_or] at hi
    exact .intensity hi
  · split at h
    · rename_i hf
      cases h
      rw [← Int32.not_le, ← Int32.not_le, ← not_and_or] at hf
      exact .frequency hf
    · cases h

/-- A check reports a fault that the request has. -/
theorem Flaw.of_check {why : Invalid}
    (h : Session.check ⟨id, request, context, none⟩ catalog limit = .error why) :
    Flaw catalog limit request context why := by
  unfold Session.check at h
  dsimp only at h
  split at h
  · rename_i hp
    cases h
    exact Parameter.flaw_of_check hp
  · split at h
    · rename_i millis
      split at h
      · rename_i hm
        cases h
        exact .duration rfl (outside_iff.mp hm)
      · cases h
    · rename_i effectId count
      split at h
      · rename_i he
        cases h
        subst he
        exact .emptyId rfl
      · split at h
        · rename_i hc
          cases h
          exact .count rfl hc
        · split at h
          · cases h
          · rename_i hn
            cases h
            exact .unregistered rfl (by rw [Catalog.contains, hn]; rfl)

/-- A request that passes the check has none of the faults. -/
theorem Flaw.not_of_check {s : Session}
    (h : Session.check ⟨id, request, context, none⟩ catalog limit = .ok s) (why : Invalid) :
    ¬ Flaw catalog limit request context why := by
  have hp := (Session.check_checked h).1
  obtain ⟨hi, hf⟩ := Parameter.bounds_of_check hp
  unfold Session.check at h
  dsimp only at h
  rw [hp] at h
  rintro (hn | hn | ⟨rfl, hn⟩ | rfl | ⟨rfl, hn⟩ | ⟨rfl, hn⟩) <;> dsimp only at h
  · exact hn hi
  · exact hn hf
  · rw [if_pos (outside_iff.mpr hn)] at h
    cases h
  · rw [if_pos rfl] at h
    cases h
  · rw [if_pos hn] at h
    split at h <;> cases h
  · rename_i effectId count
    have hfind : catalog.find? effectId = none := by simpa [Catalog.contains] using hn
    simp only [hfind] at h
    repeat' split at h
    all_goals cases h

end Check

/-- The policy gets to see the request and its usage. -/
theorem Session.view_of_check {id : UInt64} {catalog : Catalog} {limit : Int64} {request : Request}
    {context : Context} {s : Session}
    (h : Session.check ⟨id, request, context, none⟩ catalog limit = .ok s) :
    s.view = ⟨request, context.usage⟩ := by
  obtain ⟨-, hrequest, hcontext⟩ := Session.check_ok h
  rw [view, usage, hrequest, hcontext]

/-! ## The traces of a start -/

namespace Controller

/-- The calls that end the session in the slot, if it still plays. -/
inductive Farewell (c : Controller) : List Entry → Prop where
  | nothing : c.slot.playing? = none → Farewell c []
  | stop {p : Playback} (outcome : Outcome) : c.slot = .playing p →
      Farewell c [⟨c.now, .stop p.session.mode, outcome⟩]

/-- What a start leaves behind that has been let in: the session that played has been told to stop and
is published as preempted. Then the device has been asked once to carry out the new request, which is
published under a number that no session had before. -/
structure Replaces (c c' : Controller) (request : Request) (context : Context) (call : Call)
    (outcome : Outcome) (phase : Phase) : Prop where
  calls : ∃ farewell, c.Farewell farewell ∧ c'.device.log.toList =
    c.device.log.toList ++ farewell ++ [⟨c.now, call, outcome⟩]
  history : c'.history = c.history ++
    (c.slot.playing?.map fun p => p.session.snapshot .preempted).toList ++
    [.session c.nextId request context.usage phase]
  fresh : ∀ x ∈ c.history, x.number < c.nextId.toNat
  next : c'.nextId = c.nextId + 1

section Teardown
variable {c : Controller} {signal : Signal}

theorem teardown_log (h : c.Orderly) (signal : Signal) : ∃ farewell, c.Farewell farewell ∧
    (c.teardown signal).device.log.toList = c.device.log.toList ++ farewell := by
  cases hs : c.slot with
  | free | spent =>
    have hp : c.slot.playing? = none := by rw [hs]; rfl
    exact ⟨[], .nothing hp, by rw [teardown_of_not_playing hp, List.append_nil]⟩
  | playing p =>
    obtain ⟨outcome, hl, -⟩ := teardown_halts h hs signal
    exact ⟨_, .stop outcome hs, hl⟩

theorem teardown_now (c : Controller) (signal : Signal) : (c.teardown signal).now = c.now := by
  cases hs : c.slot with
  | free | spent => rw [teardown_of_not_playing (by rw [hs]; rfl)]
  | playing p =>
    rw [teardown_eq_settle hs]
    rcases p.interrupt c.now signal c.device with ⟨_ | _ | _, d⟩ <;> rfl

theorem teardown_history (hi : (c.teardown signal).device.Intact) :
    (c.teardown signal).history = c.history ++
      (c.slot.playing?.map fun p => p.session.snapshot signal.ending.phase).toList := by
  cases hs : c.slot with
  | free | spent =>
    rw [teardown_of_not_playing (by rw [hs]; rfl)]
    exact (List.append_nil _).symm
  | playing p =>
    obtain ⟨d, hd⟩ := teardown_of_playing hs hi
    rw [hd]
    exact publish_history ..

end Teardown

theorem Tells.fresh {c : Controller} {n : Nat} {closed : List Chapter} (h : c.Tells n closed)
    (hn : n < UInt64.size - 1) {x : Snapshot} (hx : x ∈ c.history) : x.number < c.nextId.toNat := by
  have hnext : c.nextId.toNat = n + 1 := by
    rw [h.next]
    exact UInt64.toNat_ofNat_of_lt' (by omega)
  rw [hnext]
  rw [h.history] at hx
  rcases List.mem_cons.mp hx with rfl | hx
  · exact Nat.succ_pos n
  · obtain ⟨ch, hm, hx⟩ := List.mem_flatMap.mp hx
    have hr : ch.id.toNat ∈ List.range' 1 n := h.numbered hn ▸ List.mem_map_of_mem hm
    have hc := List.mem_range'_1.mp hr
    rw [(Chapter.of_mem_snapshots hx).1]
    omega

/-- An objection is what the policy says against the session that plays. -/
theorem policy_of_objection?_some {c : Controller} {s : Session} {reason : String}
    (ho : c.objection? s = some reason) :
    ∃ p, c.slot = .playing p ∧ c.policy p.session.view s.view = .error reason := by
  unfold objection? at ho
  split at ho
  · rename_i p hp
    split at ho
    · cases ho
    · rename_i hr
      cases ho
      exact ⟨p, hp, hr⟩
  · cases ho

/-- Whether a launch is taken or refused, it replaces what played. -/
theorem replaces_of_launch {c c' : Controller} {n : Nat} {closed : List Chapter}
    (h : c.Tells n closed) (hn : n < UInt64.size - 1) (ho : c.Orderly) {request : Request}
    {context : Context} {s : Session} (hs : c.candidate request context = .ok s) {call : Call}
    {outcome : Outcome} {phase : Phase} (hi : (c.teardown .preempted).device.Intact)
    (hp : (c.teardown .preempted).device.perform c.now call = (outcome, c'.device))
    (hh : c'.history = (c.teardown .preempted).history ++ [s.snapshot phase])
    (hnext : c'.nextId = c.nextId + 1) : c.Replaces c' request context call outcome phase := by
  obtain ⟨hid, hrequest, hcontext⟩ := Session.check_ok hs
  obtain ⟨farewell, hf, hl⟩ := c.teardown_log ho .preempted
  refine ⟨⟨farewell, hf, ?_⟩, ?_, fun x hx => h.fresh hn hx, hnext⟩
  · rw [Device.perform_log_toList hp, hl]
  · rw [hh, teardown_history hi, Session.snapshot, Session.usage, hid, hrequest, hcontext]
    rfl

/-! ## Whom the policy is asked about -/

section SetPolicy
variable (c : Controller) (policy : Policy)

theorem settle_set_policy (s : Session) (r : Progress × Device) :
    { c with policy }.settle s r = { c.settle s r with policy } := by
  rcases r with ⟨_ | _ | _, d⟩ <;> rfl

theorem teardown_set_policy (signal : Signal) :
    { c with policy }.teardown signal = { c.teardown signal with policy } := by
  unfold teardown
  dsimp only
  split
  · rw [settle_set_policy]
  · rfl

theorem release_set_policy : { c with policy }.release = { c.release with policy } := by
  unfold release
  dsimp only
  split <;> rfl

theorem launch_set_policy (s : Session) :
    { c with policy }.launch s = ((c.launch s).1, { (c.launch s).2 with policy }) := by
  unfold launch
  dsimp only
  split <;> rfl

variable {c policy} {request : Request} {context : Context}

theorem objection?_set_policy {s : Session} (h : ∀ p, c.slot = .playing p →
    policy p.session.view s.view = c.policy p.session.view s.view) :
    { c with policy }.objection? s = c.objection? s := by
  unfold objection?
  dsimp only
  split
  · rename_i p hp
    rw [h p hp]
  · rfl

/-- A policy that says the same about the session that plays does the same to a start, whatever it
says about others. Where no session plays every policy does. -/
theorem start_set_policy (h : ∀ p, c.slot = .playing p →
    policy p.session.view ⟨request, context.usage⟩ =
      c.policy p.session.view ⟨request, context.usage⟩) :
    { c with policy }.start request context =
      ((c.start request context).1, { (c.start request context).2 with policy }) := by
  unfold start
  dsimp only
  split
  · rfl
  · rename_i s hs
    have ho : { c with policy }.objection? s = c.objection? s :=
      objection?_set_policy (Session.view_of_check hs ▸ h)
    rw [objection?_release, ho, objection?_release]
    split
    · split
      · rw [release_set_policy]
      · let c₁ : Controller := { c.release with nextId := c.release.nextId + 1 }
        have hl := (c₁.teardown .preempted).launch_set_policy policy s
        rw [← c₁.teardown_set_policy policy .preempted] at hl
        rw [release_set_policy]
        exact hl
    · rfl

end SetPolicy

end Controller

/-! ## The answer to a start -/

namespace Setup

/-- Nothing is against the request before the device is asked. -/
structure Admits (s : Setup) (c : Controller) (request : Request) (context : Context) : Prop where
  flawless : ∀ why, ¬ Flaw s.catalog s.settings.maxDurationMs request context why
  granted : s.settings.granted = true
  unopposed : ∀ p, c.slot = .playing p →
    s.policy p.session.view ⟨request, context.usage⟩ = .ok ()

/-- The answers to a start, each with the controller that it leaves behind. None applies unless those
before it do not. -/
inductive Verdict (s : Setup) (c : Controller) (request : Request) (context : Context) :
    Answer → Controller → Prop where
  | invalid {why : Invalid} : Flaw s.catalog s.settings.maxDurationMs request context why →
      Verdict s c request context (.error (.invalid why)) c
  | denied : (∀ why, ¬ Flaw s.catalog s.settings.maxDurationMs request context why) →
      s.settings.granted = false → Verdict s c request context (.error .denied) c
  | conflict {p : Playback} {reason : String} :
      (∀ why, ¬ Flaw s.catalog s.settings.maxDurationMs request context why) →
      s.settings.granted = true → c.slot = .playing p →
      s.policy p.session.view ⟨request, context.usage⟩ = .error reason →
      Verdict s c request context (.error (.failed (.conflict reason))) c
  | refused {plan : Plan} {why : DeviceError} {c' : Controller} : s.Admits c request context →
      request.plan? context s.catalog = some plan →
      c.Replaces c' request context plan.start (.refused why) .failed → c'.slot = .free →
      Verdict s c request context (.error (.ofDevice why)) c'
  | started {plan : Plan} {session : Session} {c' : Controller} : s.Admits c request context →
      request.plan? context s.catalog = some plan →
      c.Replaces c' request context plan.start .done .active →
      c'.slot = .playing ⟨session, plan.start, c.now + plan.span, plan.times - 1⟩ →
      session.id = c.nextId → session.request = request → session.context = context →
      Verdict s c request context (.ok ()) c'

/-- What a launch comes to, if it does not crash. -/
theorem verdict_of_launch {s : Setup} {c : Controller} {n : Nat} {closed : List Chapter}
    (h : c.Tells n closed) (hn : n < UInt64.size - 1) (ho : c.Orderly) {request : Request}
    {context : Context} (ha : s.Admits c request context) (hc : c.catalog = s.catalog)
    {session : Session} (hs : c.candidate request context = .ok session)
    (hi : ({ c.teardown .preempted with nextId := c.nextId + 1 }.launch session).2.device.Intact) :
    ∃ answer, ({ c.teardown .preempted with nextId := c.nextId + 1 }.launch session).1 =
        some answer ∧
      s.Verdict c request context answer
        ({ c.teardown .preempted with nextId := c.nextId + 1 }.launch session).2 := by
  obtain ⟨hid, hrequest, hcontext⟩ := Session.check_ok hs
  obtain ⟨start, hstart, hplan⟩ := Session.plan_of_check hs
  rw [hc] at hplan
  have hit : (c.teardown .preempted).device.Intact :=
    hi.of_grows (Controller.launch_grows { c.teardown .preempted with
      nextId := c.nextId + 1 } session).device
  have hl := { c.teardown .preempted with nextId := c.nextId + 1 }.launch_launched session
  generalize { c.teardown .preempted with nextId := c.nextId + 1 }.launch session = r at hl hi ⊢
  have hnow := c.teardown_now .preempted
  cases hl with
  | active hcall hp =>
    rw [hstart] at hcall
    cases hcall
    rw [show ({ c.teardown .preempted with nextId := c.nextId + 1 } : Controller).now = c.now from
      hnow] at hp ⊢
    exact ⟨_, rfl, .started ha hplan (Controller.replaces_of_launch h hn ho hs hit hp
      (Controller.publish_history ..) rfl) rfl hid hrequest hcontext⟩
  | refused hcall hp =>
    rw [hstart] at hcall
    cases hcall
    rw [show ({ c.teardown .preempted with nextId := c.nextId + 1 } : Controller).now = c.now from
      hnow] at hp ⊢
    exact ⟨_, rfl, .refused ha hplan (Controller.replaces_of_launch h hn ho hs hit hp
      (Controller.publish_history ..) rfl) (c.teardown_slot .preempted)⟩
  | unresolved hcall =>
    rw [hstart] at hcall
    cases hcall
  | crashed _ hp => exact absurd hi (Device.not_intact_of_crashed hp)

theorem verdict_of_start {s : Setup} {c : Controller} {n : Nat} {closed : List Chapter}
    (h : c.Tells n closed) (hn : n < UInt64.size - 1) (ho : c.Orderly)
    (hsettings : c.settings = s.settings) (hcatalog : c.catalog = s.catalog)
    (hpolicy : c.policy = s.policy) {request : Request} {context : Context}
    (hi : (c.start request context).2.device.Intact) :
    ∃ answer, (c.start request context).1 = some answer ∧
      s.Verdict c request context answer (c.start request context).2 := by
  have hd := c.start_dealt request context
  generalize c.start request context = r at hd hi ⊢
  have hflaw : ∀ {session}, c.candidate request context = .ok session →
      ∀ why, ¬ Flaw s.catalog s.settings.maxDurationMs request context why := fun hs => by
    rw [← hcatalog, ← hsettings]
    exact Flaw.not_of_check hs
  cases hd with
  | invalid hs =>
    refine ⟨_, rfl, .invalid ?_⟩
    rw [← hcatalog, ← hsettings]
    exact Flaw.of_check hs
  | denied hs hg => exact ⟨_, rfl, .denied (hflaw hs) (hsettings ▸ hg)⟩
  | @conflict session reason hs hg hob =>
    obtain ⟨p, hp, hpol⟩ := Controller.policy_of_objection?_some hob
    rw [Controller.release_eq_self (by simp [hp])]
    rw [hpolicy, Session.view_of_check hs] at hpol
    exact ⟨_, rfl, .conflict (hflaw hs) (hsettings ▸ hg) hp hpol⟩
  | @launched session hs hg hob =>
    refine verdict_of_launch h hn ho ⟨hflaw hs, hsettings ▸ hg, fun p hp => ?_⟩ hcatalog hs hi
    rw [← hpolicy, ← Session.view_of_check hs]
    exact Controller.policy_of_objection? hp hob

end Setup

/-- **The answer to a start.** In a run without crashes a start that is served is answered by the
first of these that applies: a fault that the request has on its face, want of permission, what the
policy says against the session that plays, the error of the device. Up to then nothing changes. When
the device is asked, the session that played has been ended as preempted, and the request has been
given a number that no session had before; it is published as failed and leaves the slot free, or it
is published as active and plays. The policy is asked about the session that plays and no other:
where it would say the same of that one, another policy comes to the same. -/
theorem start_answered (s : Setup) (events : List Event) {ticket : Nat} {request : Request}
    {context : Context} {rest : List (Nat × Command)}
    (hq : (s.run events).queue = (ticket, .start request context) :: rest)
    (hn : s.accepted events < UInt64.size - 1)
    (hi : (s.after (events ++ [.serve])).device.Intact) :
    let c := s.after events
    let c' := s.after (events ++ [.serve])
    ∃ answer, (s.run (events ++ [.serve])).answer? ticket = some answer ∧
      s.Verdict c request context answer c' ∧
      c.start request context = (some answer, c') ∧
      ∀ policy : Policy, (∀ p, c.slot = .playing p →
          policy p.session.view ⟨request, context.usage⟩ =
            s.policy p.session.view ⟨request, context.usage⟩) →
        { c with policy }.start request context = (some answer, { c' with policy }) := by
  intro c c'
  have hg := (s.after_moves events).grows
  have hwork : c' = (c.start request context).2 := by
    have hjob : (s.run events).job .serve = .start request context := by
      rw [Mailbox.job, hq]
      rfl
    have hs := s.after_snoc events .serve
    rwa [hjob] at hs
  have hi : (c.start request context).2.device.Intact := hwork ▸ hi
  have hic : c.device.Intact :=
    hi.of_grows (c.start_moves request context).grows.device
  obtain ⟨closed, ht, -⟩ := s.tells events hic
  obtain ⟨answer, hanswer, hverdict⟩ := Setup.verdict_of_start ht hn (s.orderly events)
    hg.settings hg.catalog hg.policy hi
  have hstart : c.start request context = (some answer, c') :=
    Prod.ext hanswer hwork.symm
  refine ⟨answer, (s.answer_of_serve events hq hanswer).1, hwork ▸ hverdict, hstart,
    fun policy hp => ?_⟩
  have hpolicy : c.policy = s.policy := s.after_policy events
  have hset := Controller.start_set_policy (c := c) (hpolicy ▸ hp)
  rwa [hstart] at hset

/-- The device does not take the repeating preset that has just replaced a plain run. -/
theorem start_answered_sample :
    let s : Setup := { Setup.sample with
      faults := fun n => if n = 3 then some (.error (.unavailable "stuck")) else none }
    let events : List Event := [.post (.ok (.start (.time 100) {})), .serve, .wait 30,
      .post (.ok (.start (.preset "tick" 3) { usage := .ring }))]
    (s.run events).queue = [(1, .start (.preset "tick" 3) { usage := .ring })] ∧
      s.accepted events < UInt64.size - 1 ∧ (s.after (events ++ [.serve])).device.Intact ∧
      (s.run (events ++ [.serve])).answer? 1 =
        some (.error (.ofDevice (.unavailable "stuck"))) ∧
      (s.after (events ++ [.serve])).slot = .free ∧
      (s.after (events ++ [.serve])).history = [.idle, .session 1 (.time 100) .unknown .active,
        .session 1 (.time 100) .unknown .preempted,
        .session 2 (.preset "tick" 3) .ring .failed] := by
  intro s events
  have hq : (s.run events).queue = [(1, .start (.preset "tick" 3) { usage := .ring })] := by decide
  have hn : s.accepted events < UInt64.size - 1 := by
    rw [show s.accepted events = 1 by decide]
    decide
  have hi : (s.after (events ++ [.serve])).device.Intact := by decide
  obtain ⟨answer, ha, hv, -⟩ := start_answered s events hq hn hi
  have hstuck : (s.run (events ++ [.serve])).answer? 1 =
      some (.error (.ofDevice (.unavailable "stuck"))) := by decide
  rw [hstuck] at ha
  cases ha
  generalize s.after (events ++ [.serve]) = c' at hv hi ⊢
  cases hv with
  | refused _ _ hr hfree =>
    refine ⟨hq, hn, hi, hstuck, hfree, hr.history.trans ?_⟩
    decide

end Haptics
