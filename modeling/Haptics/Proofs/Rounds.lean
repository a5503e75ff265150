import Haptics.Proofs.Checked
import Haptics.Proofs.Clock

/-! The closed form of a playback. A session that is played alone makes its calls in rounds, a start
and the stop that ends it, one every `span` milliseconds. When it ends, how, and after how many rounds
follows from the first start that is refused and from the instant of the signal. -/

namespace Haptics

/-! ## Calls to come -/

namespace Device

/-- What comes of the call after the next `n`, if the motor does not refuse it. -/
def prospect (d : Device) (n : Nat) : Outcome :=
  match d.faults (d.log.size + 1 + n) with
  | none => .done
  | some (.error why) => .refused why
  | some .crash => .crashed

/-- No call ever crashes. -/
def Sturdy (d : Device) : Prop := ∀ number, d.faults number ≠ some .crash

theorem Sturdy.prospect {d : Device} (h : d.Sturdy) (n : Nat) : d.prospect n ≠ .crashed := by
  have hf := h (d.log.size + 1 + n)
  unfold Device.prospect
  split
  · nofun
  · nofun
  · contradiction

theorem sturdy_scripted {outcomes : List Outcome} (h : .crashed ∉ outcomes) :
    (scripted outcomes).Sturdy := by
  intro number hf
  obtain ⟨outcome, ho, hc⟩ := Option.bind_eq_some_iff.mp hf
  cases outcome with
  | crashed => exact h (List.mem_of_getElem? ho)
  | done | refused => cases hc

namespace Plays
variable {d e : Device} {calls : List Entry} {call : Call}

theorem grows (h : d.Plays calls e) : d.Grows e := by
  induction h with
  | nil => exact .refl _
  | cons hp _ ih => exact (perform_grows hp).trans ih

/-- The call after some that were played comes to what could be foreseen before them. -/
theorem next (h : d.Plays calls e) (hr : d.motor.refusal? call = none) (now : Nat) :
    ∃ e', e.perform now call = (d.prospect calls.length, e') ∧
      d.Plays (calls ++ [⟨now, call, d.prospect calls.length⟩]) e' := by
  have hsize : e.log.size = d.log.size + calls.length := by
    rw [← Array.length_toList, h.log, List.length_append, Array.length_toList]
  have hfault : e.faults (e.log.size + 1) = d.faults (d.log.size + 1 + calls.length) := by
    rw [h.grows.faults, hsize, Nat.add_right_comm]
  have hrefusal : e.motor.refusal? call = none := by
    cases call with
    | startEffect => simpa only [Motor.refusal?, h.grows.rejected] using hr
    | startOnce | stop => rfl
  have hout : (e.perform now call).1 = d.prospect calls.length := by
    unfold perform prospect
    rw [hfault]
    cases d.faults (d.log.size + 1 + calls.length) with
    | some fault => cases fault <;> rfl
    | none => simp only [Motor.accept, hrefusal]
  rcases hp : e.perform now call with ⟨outcome, e'⟩
  rw [hp] at hout
  subst hout
  exact ⟨e', rfl, h.append (.cons hp (.nil e'))⟩

end Plays

/-- A start that was carried out once is not refused by the motor later on. -/
theorem refusal?_of_done {d d' : Device} {now : Nat} {call : Call}
    (h : d.perform now call = (.done, d')) : d.motor.refusal? call = none := by
  have ha := perform_done h
  unfold Motor.accept at ha
  split at ha
  · cases ha
  · assumption

end Device

/-! ## Plans -/

/-- What a playback is to do: so many repetitions of `span` milliseconds, each from a call `start` to
a call `stop`. -/
structure Plan where
  times : Nat
  span : Nat
  start : Call
  stop : Call
  deriving DecidableEq, Repr

/-- A run of the motor is played once for its duration. A preset is played as often as it says, each
time for the duration of its effect. The wait for a repetition is cut short at `longestSpan`. -/
def Request.plan? (r : Request) (c : Context) (catalog : Catalog) : Option Plan :=
  match r with
  | .time millis => some ⟨1, min millis.toInt.toNat Session.longestSpan,
      .startOnce millis.toUInt64 c.usage c.parameter, .stop .time⟩
  | .preset effectId count => (catalog.find? effectId).map fun effect =>
      ⟨count.toInt.toNat, min effect.durationMs.toNat Session.longestSpan,
        .startEffect effect c.usage c.parameter, .stop .preset⟩

/-- A session that has passed its check plays as its request says. -/
theorem Session.plan_of_check {s s' : Session} {catalog : Catalog} {limit : Int64}
    (h : s.check catalog limit = .ok s') :
    ∃ start, s'.start = .ok start ∧
      s.request.plan? s.context catalog = some ⟨s'.repetitions, s'.span, start, .stop s'.mode⟩ := by
  cases (check_checked h).2 with
  | @time millis hr hm =>
    have hw : s.wanted = millis.toInt.toNat := by
      have ht := toNat_toUInt64_of_pos hm
      simp only [wanted, hr]
      omega
    exact ⟨.startOnce millis.toUInt64 s.usage s.context.parameter, by simp only [start, hr],
      by simp only [Request.plan?, repetitions, span, mode, hw, hr]; rfl⟩
  | @preset effectId count effect hr _ he =>
    exact ⟨.startEffect effect s.usage s.context.parameter, by simp only [start, hr]; rfl,
      by simp only [Request.plan?, repetitions, span, wanted, mode, hr, he, Option.map_some]; rfl⟩

namespace Plan
variable {plan : Plan} {d e : Device} {i r : Nat}

/-- The calls of the first `k` repetitions on a device that has yet to get the first of them. -/
def rounds (plan : Plan) (d : Device) (k : Nat) : List Entry :=
  (List.range k).flatMap fun i =>
    [⟨i * plan.span, plan.start, .done⟩,
      ⟨(i + 1) * plan.span, plan.stop, d.prospect (2 * i + 1)⟩]

/-- `r` repetitions are played to the end if no signal comes: either these are all, or the start of
the next one is the first that is refused. -/
structure Lasts (plan : Plan) (d : Device) (r : Nat) : Prop where
  pos : 1 ≤ r
  le : r ≤ plan.times
  started : ∀ k, 1 ≤ k → k < r → d.prospect (2 * k) = .done
  refused : r < plan.times → d.prospect (2 * r) ≠ .done

theorem rounds_succ (plan : Plan) (d : Device) (k : Nat) :
    plan.rounds d (k + 1) = plan.rounds d k ++ [⟨k * plan.span, plan.start, .done⟩] ++
      [⟨(k + 1) * plan.span, plan.stop, d.prospect (2 * k + 1)⟩] := by
  simp [rounds, List.range_succ, List.flatMap_append]

theorem length_rounds (plan : Plan) (d : Device) (k : Nat) : (plan.rounds d k).length = 2 * k := by
  induction k with
  | zero => rfl
  | succ k ih =>
    rw [rounds_succ, List.length_append, List.length_append, ih]
    rfl

/-- There always is such a number: with one repetition more it is the same, or one more. -/
theorem exists_lasts (plan : Plan) (d : Device) (h : 1 ≤ plan.times) : ∃ r, plan.Lasts d r := by
  obtain ⟨_ | n, span, start, stop⟩ := plan
  · exact absurd h (by simp)
  clear h
  induction n with
  | zero => exact ⟨1, Nat.le_refl 1, Nat.le_refl 1, fun k hk hlt => by omega, nofun⟩
  | succ n ih =>
    obtain ⟨r, hpos, hle, hs, hr⟩ := ih
    rcases Nat.lt_or_eq_of_le hle with hlt | rfl
    · exact ⟨r, hpos, Nat.le_succ_of_le hle, hs, fun _ => hr hlt⟩
    · by_cases hd : d.prospect (2 * (n + 1)) = .done
      · refine ⟨n + 2, by omega, Nat.le_refl _, fun k hk hlt => ?_, fun h => absurd h (by simp)⟩
        rcases Nat.lt_or_eq_of_le (Nat.le_of_lt_succ hlt) with hkn | rfl
        · exact hs k hk hkn
        · exact hd
      · exact ⟨n + 1, hpos, Nat.le_succ _, hs, fun _ => hd⟩

/-- Repetition `i` has been started, after `i` whole rounds. -/
def Begun (plan : Plan) (d : Device) (i : Nat) (e : Device) : Prop :=
  d.Plays (plan.rounds d i ++ [⟨i * plan.span, plan.start, .done⟩]) e

/-- The stop of a repetition, at whatever instant it comes. -/
theorem Begun.stops (h : plan.Begun d i e) {mode : Mode} (hm : plan.stop = .stop mode) (now : Nat) :
    ∃ e', e.perform now plan.stop = (d.prospect (2 * i + 1), e') ∧
      d.Plays (plan.rounds d i ++ [⟨i * plan.span, plan.start, .done⟩] ++
        [⟨now, plan.stop, d.prospect (2 * i + 1)⟩]) e' := by
  have hlen : (plan.rounds d i ++ [(⟨i * plan.span, plan.start, .done⟩ : Entry)]).length =
      2 * i + 1 := by
    rw [List.length_append, length_rounds]
    rfl
  have hr : d.motor.refusal? plan.stop = none := by
    rw [hm]
    rfl
  obtain ⟨e', hp, h'⟩ := h.next hr now
  rw [hlen] at hp h'
  exact ⟨e', hp, h'⟩

/-- The start of the next repetition, after `i` whole rounds. -/
theorem restarts (h : d.Plays (plan.rounds d i) e) (hr : d.motor.refusal? plan.start = none)
    (now : Nat) : ∃ e', e.perform now plan.start = (d.prospect (2 * i), e') ∧
      d.Plays (plan.rounds d i ++ [⟨now, plan.start, d.prospect (2 * i)⟩]) e' := by
  obtain ⟨e', hp, h'⟩ := h.next hr now
  rw [length_rounds] at hp h'
  exact ⟨e', hp, h'⟩

/-! ## Playing a plan -/

/-- The playback carries out the plan. -/
structure Fits (plan : Plan) (p : Playback) : Prop where
  span : p.session.span = plan.span
  start : p.start = plan.start
  stop : plan.stop = .stop p.session.mode

/-- How the playing of `r` repetitions ends, and what the device has been called for. -/
inductive Whole (plan : Plan) (d : Device) (r : Nat) : Progress × Device → Prop where
  | completed {e : Device} : r = plan.times → d.Plays (plan.rounds d r) e →
      Whole plan d r (.ended (r * plan.span) .completed, e)
  | failed {why : DeviceError} {e : Device} : r < plan.times →
      d.prospect (2 * r) = .refused why →
      d.Plays (plan.rounds d r ++ [⟨r * plan.span, plan.start, .refused why⟩]) e →
      Whole plan d r (.ended (r * plan.span) (.failed (.device why)), e)

variable {p : Playback} {t left : Nat}

theorem Fits.halt (hp : plan.Fits p) (hd : d.Sturdy) (h : plan.Begun d i e) (now : Nat) :
    ∃ e', p.halt now e = (true, e') ∧
      d.Plays (plan.rounds d i ++ [⟨i * plan.span, plan.start, .done⟩] ++
        [⟨now, plan.stop, d.prospect (2 * i + 1)⟩]) e' := by
  obtain ⟨e', ho, h'⟩ := h.stops hp.stop now
  rw [hp.stop] at ho
  refine ⟨e', ?_, h'⟩
  rw [Playback.halt_of_perform ho, decide_eq_true (hd.prospect _)]

/-- One round: when the time of a repetition is up it is stopped, and the next start comes to what
could be foreseen. -/
theorem Fits.round (hp : plan.Fits p) (hd : d.Sturdy) (hr : d.motor.refusal? plan.start = none)
    (h : plan.Begun d i e) :
    ∃ e' e'', p.halt ((i + 1) * plan.span) e = (true, e') ∧
      d.Plays (plan.rounds d (i + 1)) e' ∧
      e'.perform ((i + 1) * plan.span) plan.start = (d.prospect (2 * (i + 1)), e'') ∧
      d.Plays (plan.rounds d (i + 1) ++
        [⟨(i + 1) * plan.span, plan.start, d.prospect (2 * (i + 1))⟩]) e'' := by
  obtain ⟨e', hh, hplays⟩ := hp.halt hd h ((i + 1) * plan.span)
  rw [← rounds_succ] at hplays
  obtain ⟨e'', hs, hnext⟩ := restarts hplays hr ((i + 1) * plan.span)
  exact ⟨e', e'', hh, hplays, hs, hnext⟩

/-- Up to an instant at which its repetitions are not over, a playback has gone through those whose
time is up. -/
theorem Fits.run_before (hp : plan.Fits p) (hd : d.Sturdy)
    (hr : d.motor.refusal? plan.start = none) (hl : plan.Lasts d r)
    (h : plan.Begun d i e) (hn : i + 1 + left = plan.times) (hi : i < r)
    (hit : i * plan.span ≤ t) (ht : t < r * plan.span) :
    ∃ q e', p.run t ((i + 1) * plan.span) e left = (.playing q, e') ∧ plan.Fits q ∧
      plan.Begun d (t / plan.span) e' := by
  induction left generalizing i e with
  | zero =>
    have hri : r = i + 1 := by have := hl.le; omega
    subst hri
    refine ⟨{ p with due := (i + 1) * plan.span, left := 0 }, e, by rw [Playback.run, if_pos ht],
      ⟨hp.span, hp.start, hp.stop⟩, ?_⟩
    rwa [Nat.div_eq_of_lt_le hit ht]
  | succ left ih =>
    rw [Playback.run]
    by_cases hdue : t < (i + 1) * plan.span
    · refine ⟨{ p with due := (i + 1) * plan.span, left := left + 1 }, e, by rw [if_pos hdue],
        ⟨hp.span, hp.start, hp.stop⟩, ?_⟩
      rwa [Nat.div_eq_of_lt_le hit hdue]
    · have hir : i + 1 < r := by
        rcases Nat.lt_or_ge (i + 1) r with hlt | hge
        · exact hlt
        · exact absurd (Nat.lt_of_lt_of_le ht (Nat.mul_le_mul_right _ hge)) hdue
      obtain ⟨e', e'', hh, -, hs, hbegun⟩ := hp.round hd hr h
      rw [hl.started (i + 1) (by omega) hir] at hs hbegun
      obtain ⟨q, e₃, hrun, hrest⟩ := ih hbegun (by omega) hir (Nat.le_of_not_lt hdue)
      refine ⟨q, e₃, ?_, hrest⟩
      rw [if_neg hdue, hh, hp.start]
      simp only [hs]
      rw [hp.span, ← Nat.succ_mul]
      exact hrun

/-- When its repetitions are over a playback has ended. -/
theorem Fits.run_whole (hp : plan.Fits p) (hd : d.Sturdy)
    (hr : d.motor.refusal? plan.start = none) (hl : plan.Lasts d r)
    (h : plan.Begun d i e) (hn : i + 1 + left = plan.times) (hi : i < r)
    (ht : r * plan.span ≤ t) : plan.Whole d r (p.run t ((i + 1) * plan.span) e left) := by
  have hdue : ¬ t < (i + 1) * plan.span :=
    Nat.not_lt.mpr (Nat.le_trans (Nat.mul_le_mul_right _ hi) ht)
  induction left generalizing i e with
  | zero =>
    have hri : r = i + 1 := by have := hl.le; omega
    obtain ⟨e', -, hh, hplays, -⟩ := hp.round hd hr h
    rw [Playback.run, if_neg hdue, hh, ← hri]
    exact .completed (by omega) (hri ▸ hplays)
  | succ left ih =>
    obtain ⟨e', e'', hh, -, hs, hnext⟩ := hp.round hd hr h
    rw [Playback.run, if_neg hdue, hh, hp.start]
    rcases Nat.lt_or_eq_of_le hi with hir | rfl
    · have hir : i + 1 < r := hir
      rw [hl.started (i + 1) (by omega) hir] at hs hnext
      simp only [hs]
      rw [hp.span, ← Nat.succ_mul]
      exact ih hnext (by omega) hir
        (Nat.not_lt.mpr (Nat.le_trans (Nat.mul_le_mul_right _ hir) ht))
    · have hlt : i + 1 < plan.times := by omega
      cases hout : d.prospect (2 * (i + 1)) with
      | done => exact absurd hout (hl.refused hlt)
      | crashed => exact absurd hout (hd.prospect _)
      | refused why =>
        rw [hout] at hs hnext
        simp only [hs]
        exact .failed hlt hout hnext

/-- The playback is about to carry out the whole plan: its first repetition has just begun. -/
structure Opens (plan : Plan) (d : Device) (p : Playback) (e : Device) : Prop where
  fits : plan.Fits p
  begun : plan.Begun d 0 e
  taken : d.motor.refusal? plan.start = none
  due : p.due = plan.span
  left : 0 + 1 + p.left = plan.times

/-- What an activation at the instant 0 leaves behind is about to carry out the plan of the request. -/
theorem opens_of_activate {s s' : Session} {catalog : Catalog} {limit : Int64}
    (hc : s.check catalog limit = .ok s') (ha : s'.activate 0 d = (.active p, e)) :
    ∃ plan, s.request.plan? s.context catalog = some plan ∧ plan.Opens d p e := by
  obtain ⟨start, hstart, hplan⟩ := Session.plan_of_check hc
  have htimes := Session.repetitions_pos hc
  refine ⟨_, hplan, ?_⟩
  unfold Session.activate at ha
  rw [hstart] at ha
  dsimp only at ha
  split at ha <;> cases ha
  rename_i hp
  rw [Nat.zero_add]
  refine ⟨⟨rfl, rfl, rfl⟩, .cons ?_ (.nil _), Device.refusal?_of_done hp, rfl, ?_⟩
  · rwa [Nat.zero_mul]
  · show 0 + 1 + (s'.repetitions - 1) = s'.repetitions
    omega

/-- The calls for a signal at `t`, during a repetition: whole rounds, and one that is cut short. -/
def upTo (plan : Plan) (d : Device) (t : Nat) : List Entry :=
  plan.rounds d (t / plan.span) ++ [⟨t / plan.span * plan.span, plan.start, .done⟩] ++
    [⟨t, plan.stop, d.prospect (2 * (t / plan.span) + 1)⟩]

theorem Opens.play_before (h : plan.Opens d p e) (hd : d.Sturdy) (hl : plan.Lasts d r)
    (ht : t < r * plan.span) (signal : Signal) :
    ∃ d', p.play (some (t, signal)) e = (.ended t signal.ending, d') ∧
      d.Plays (plan.upTo d t) d' := by
  obtain ⟨q, e', hrun, hq, hbegun⟩ :=
    h.fits.run_before hd h.taken hl h.begun h.left hl.pos (by omega) ht
  obtain ⟨d', hh, hplays⟩ := hq.halt hd hbegun t
  rw [Nat.zero_add, Nat.one_mul, ← h.due] at hrun
  refine ⟨d', ?_, hplays⟩
  rw [Playback.play, Playback.advance, hrun]
  simp only [Playback.interrupt, hh]

theorem Opens.play_whole (h : plan.Opens d p e) (hd : d.Sturdy) (hl : plan.Lasts d r)
    {sent : Option (Nat × Signal)} (hs : ∀ x ∈ sent, r * plan.span ≤ x.1) :
    plan.Whole d r (p.play sent e) := by
  have hw : ∀ t, r * plan.span ≤ t → plan.Whole d r (p.advance t e) := fun t ht => by
    have hrun := h.fits.run_whole hd h.taken hl h.begun h.left hl.pos ht
    rwa [Nat.zero_add, Nat.one_mul, ← h.due] at hrun
  cases sent with
  | none =>
    have hz : p.horizon = plan.times * plan.span := by
      rw [Playback.horizon, h.due, h.fits.span, ← h.left, Nat.add_mul, Nat.zero_add, Nat.one_mul]
    exact hw _ (hz ▸ Nat.mul_le_mul_right _ hl.le)
  | some x =>
    obtain ⟨t, signal⟩ := x
    have ht := hw t (hs _ rfl)
    rw [Playback.play]
    rcases hR : p.advance t e with ⟨progress, e'⟩
    rw [hR] at ht
    cases ht with
    | completed hrt hplays => exact .completed hrt hplays
    | failed hlt hout hplays => exact .failed hlt hout hplays

end Plan

/-! ## The closed form -/

/-- **Playback in rounds.** A session that has passed its check and is activated at the instant 0
carries out the plan of its request. Let `r` be the number of repetitions before the first start that
is refused, or of all if none is. A signal before `r` repetitions are over ends the session there and
then, after the whole rounds so far and the one that the signal cuts short. Otherwise it ends when
they are over, after exactly `r` rounds: completed if these are all, and failed with the error of the
refused start, its last call, if they are not. -/
theorem plays_in_rounds {s s' : Session} {catalog : Catalog} {limit : Int64} {d d₁ : Device}
    {p : Playback} (hc : s.check catalog limit = .ok s') (ha : s'.activate 0 d = (.active p, d₁))
    (hd : d.Sturdy) (sent : Option (Nat × Option Signal)) :
    ∃ plan r, s.request.plan? s.context catalog = some plan ∧ plan.Lasts d r ∧
      ∃ progress d', p.play (sent.map fun x => (x.1, .received x.2)) d₁ = (progress, d') ∧
        (∀ t signal, sent = some (t, signal) → t < r * plan.span →
          progress = .ended t (Signal.received signal).ending ∧
          d'.log.toList = d.log.toList ++ plan.upTo d t) ∧
        ((∀ x ∈ sent, r * plan.span ≤ x.1) →
          (r = plan.times → progress = .ended (r * plan.span) .completed ∧
            d'.log.toList = d.log.toList ++ plan.rounds d r) ∧
          (r < plan.times → ∃ why, d.prospect (2 * r) = .refused why ∧
            progress = .ended (r * plan.span) (.failed (.device why)) ∧
            d'.log.toList = d.log.toList ++
              (plan.rounds d r ++ [⟨r * plan.span, plan.start, .refused why⟩]))) := by
  obtain ⟨plan, hplan, hopens⟩ := Plan.opens_of_activate hc ha
  obtain ⟨r, hl⟩ := plan.exists_lasts d (by have := hopens.left; omega)
  rcases hR : p.play (sent.map fun x => (x.1, .received x.2)) d₁ with ⟨progress, d'⟩
  refine ⟨plan, r, hplan, hl, progress, d', hR, fun t signal hsent hlt => ?_, fun hle => ?_⟩
  · obtain ⟨e, hplay, hplays⟩ := hopens.play_before hd hl hlt (.received signal)
    rw [hsent, Option.map_some, hplay] at hR
    cases hR
    exact ⟨rfl, hplays.log⟩
  · have hs : ∀ x ∈ sent.map fun x => (x.1, Signal.received x.2), r * plan.span ≤ x.1 := by
      rintro _ hx
      obtain ⟨x, hsent, rfl⟩ := Option.map_eq_some_iff.mp hx
      exact hle x hsent
    have hw := hopens.play_whole hd hl hs
    rw [hR] at hw
    cases hw with
    | completed hr hplays => exact ⟨fun _ => ⟨rfl, hplays.log⟩, fun hlt => by omega⟩
    | failed hlt hout hplays => exact ⟨fun hr => by omega, fun _ => ⟨_, hout, rfl, hplays.log⟩⟩

/-- A preset of three repetitions of 50 milliseconds on a device that refuses its fourth call (a stop)
and its fifth (the third start). A sender that is dropped at 70 cuts the second repetition short;
without a signal the session fails at 100. -/
theorem plays_in_rounds_sample :
    let s : Session := ⟨1, .preset "tick" 3, {}, none⟩
    let s' : Session := ⟨1, .preset "tick" 3, {}, some ⟨"tick", 50⟩⟩
    let start : Call := .startEffect ⟨"tick", 50⟩ .unknown {}
    let stuck : Outcome := .refused (.unavailable "stuck")
    let d := Device.scripted [.done, .done, .done, stuck, stuck]
    s.check (.ofList [⟨"tick", 50⟩]) 1000 = .ok s' ∧ d.Sturdy ∧
      ∃ p d₁, s'.activate 0 d = (.active p, d₁) ∧
        (∃ d', p.play (some (70, .received none)) d₁ = (.ended 70 .stopped, d') ∧
          d'.log.toList = [⟨0, start, .done⟩, ⟨50, .stop .preset, .done⟩, ⟨50, start, .done⟩,
            ⟨70, .stop .preset, stuck⟩]) ∧
        ∃ d', p.play none d₁ = (.ended 100 (.failed (.device (.unavailable "stuck"))), d') ∧
          d'.log.toList = [⟨0, start, .done⟩, ⟨50, .stop .preset, .done⟩, ⟨50, start, .done⟩,
            ⟨100, .stop .preset, stuck⟩, ⟨100, start, stuck⟩] := by
  intro s s' start stuck d
  have hc : s.check (.ofList [⟨"tick", 50⟩]) 1000 = .ok s' := rfl
  have hd : d.Sturdy := Device.sturdy_scripted (by decide)
  have hlasts : ∀ {plan r}, s.request.plan? s.context (.ofList [⟨"tick", 50⟩]) = some plan →
      plan.Lasts d r → plan = ⟨3, 50, start, .stop .preset⟩ ∧ r = 2 := by
    intro plan r hplan hl
    cases hplan
    refine ⟨rfl, ?_⟩
    have hr1 : r ≠ 1 := fun h => hl.refused (by rw [h]; decide) (by rw [h]; rfl)
    have hr2 : ¬ 2 < r := fun h => absurd (hl.started 2 (by decide) h) (by decide)
    have := hl.pos
    omega
  refine ⟨hc, hd, _, _, rfl, ?_, ?_⟩
  · obtain ⟨plan, r, hplan, hl, _, d', hplay, hcut, -⟩ :=
      plays_in_rounds hc rfl hd (some (70, none))
    obtain ⟨rfl, rfl⟩ := hlasts hplan hl
    obtain ⟨rfl, hlog⟩ := hcut 70 none rfl (by decide)
    exact ⟨d', hplay, hlog.trans (by decide)⟩
  · obtain ⟨plan, r, hplan, hl, _, d', hplay, -, hwhole⟩ := plays_in_rounds hc rfl hd none
    obtain ⟨rfl, rfl⟩ := hlasts hplan hl
    obtain ⟨why, hwhy, rfl, hlog⟩ := (hwhole nofun).2 (by decide)
    cases hwhy
    exact ⟨d', hplay, hlog⟩

/-- **A wait is cut short.** It is not so that a run of the motor always completes after its whole
duration: one millisecond more than the longest wait makes no difference to it. -/
theorem long_run_cut_short : ¬ ∀ (s : Session) (millis : Int64) (limit : Int64) (d d₁ : Device)
    (p : Playback), s.request = .time millis → s.check {} limit = .ok s →
    s.activate 0 d = (.active p, d₁) → d.Sturdy →
    (p.play none d₁).1 = .ended millis.toInt.toNat .completed := by
  intro h
  have hcut := h ⟨1, .time 946080000001, ⟨.ring, {}⟩, none⟩ 946080000001 9223372036854775807 {} _ _
    rfl rfl rfl (fun _ => nofun)
  revert hcut
  decide

end Haptics
