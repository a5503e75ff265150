import Haptics.Proofs.Course

/-! Playing and the clock. A playback comes to the same whether the clock is moved in one step or in
many, and whether it starts early or late: all that counts is how long it has played, and what its
calls have come to. -/

namespace Haptics

namespace Playback

/-! ## Waiting in steps -/

/-- `run` does not look at what the playback itself says of its repetitions. -/
theorem run_set (p : Playback) (due' left' t due : Nat) (d : Device) (left : Nat) :
    ({ p with due := due', left := left' } : Playback).run t due d left = p.run t due d left := by
  induction left generalizing due d with
  | zero => rfl
  | succ left ih =>
    rw [run, run]
    simp only [ih]
    rfl

variable {p q : Playback} {t due left instant : Nat} {how : Ending} {d d' : Device}

namespace Pace
variable {r : Progress × Device}

/-- What still plays at `t` has not got to the end of its repetition, will play as long as before,
and gets in two steps to where it gets at once. -/
theorem playing (h : Pace p t due left d r) (hq : r.1 = .playing q) :
    t < q.due ∧ q.horizon = due + left * p.session.span ∧
      ∀ u, t ≤ u → p.run u due d left = q.advance u r.2 := by
  induction h with
  | @pause due left d ht =>
    cases hq
    exact ⟨ht, rfl, fun u _ => (p.run_set due left u due d left).symm⟩
  | again hd hh hs _ ih =>
    obtain ⟨hlt, hz, hu⟩ := ih hq
    refine ⟨hlt, by rw [hz, Nat.succ_mul]; omega, fun u hle => ?_⟩
    rw [run, if_neg (by omega), hh]
    simp only [hs]
    exact hu u hle
  | last | refused | haltCrashed | startCrashed => cases hq

/-- When a playback has ended nothing more comes of it. -/
theorem ended (h : Pace p t due left d r) (he : r.1 = .ended instant how) :
    due ≤ instant ∧ instant ≤ due + left * p.session.span ∧
      ∀ u, instant ≤ u → p.run u due d left = r := by
  induction h with
  | last _ hh =>
    cases he
    refine ⟨Nat.le_refl _, Nat.le_add_right _ _, fun u hu => ?_⟩
    rw [run, if_neg (Nat.not_lt.mpr hu), hh]
  | again _ hh hs _ ih =>
    obtain ⟨hle, hge, hu⟩ := ih he
    refine ⟨by omega, by rw [Nat.succ_mul]; omega, fun u hi => ?_⟩
    rw [run, if_neg (by omega), hh]
    simp only [hs]
    exact hu u hi
  | refused _ hh hs =>
    cases he
    refine ⟨Nat.le_refl _, Nat.le_add_right _ _, fun u hu => ?_⟩
    rw [run, if_neg (Nat.not_lt.mpr hu), hh]
    simp only [hs]
  | pause | haltCrashed | startCrashed => cases he

/-- What does not play any more at `t` does not change after it. -/
theorem settled (h : Pace p t due left d r) (hr : ∀ q, r.1 ≠ .playing q) :
    ∀ u, t ≤ u → p.run u due d left = r := by
  induction h with
  | pause => exact absurd rfl (hr _)
  | last _ hh =>
    intro u hu
    rw [run, if_neg (by omega), hh]
  | again _ hh hs _ ih =>
    intro u hu
    rw [run, if_neg (by omega), hh]
    simp only [hs]
    exact ih hr u hu
  | refused _ hh hs | startCrashed _ hh hs =>
    intro u hu
    rw [run, if_neg (by omega), hh]
    simp only [hs]
  | @haltCrashed due left _ _ _ hh =>
    intro u hu
    cases left <;> rw [run, if_neg (by omega), hh]

end Pace

theorem advance_of_lt (h : t < p.due) (d : Device) : p.advance t d = (.playing p, d) := by
  unfold advance
  cases hl : p.left with
  | zero => rw [run, if_pos h, ← hl]
  | succ left => rw [run, if_pos h, ← hl]

theorem lt_due_of_advance (h : p.advance t d = (.playing q, d')) : t < q.due :=
  ((p.run_pace t p.due d p.left).playing (congrArg Prod.fst h)).1

/-- What comes of a playback can be found out in two steps, if no signal comes during the first. -/
theorem play_of_playing (h : p.advance t d = (.playing q, d')) {signal : Option (Nat × Signal)}
    (hs : ∀ x ∈ signal, t ≤ x.1) : p.play signal d = q.play signal d' := by
  obtain ⟨hlt, hz, hu⟩ := (p.run_pace t p.due d p.left).playing (congrArg Prod.fst h)
  have hd : (p.run t p.due d p.left).2 = d' := congrArg Prod.snd h
  rw [hd] at hu
  cases signal with
  | none =>
    have hle : q.due ≤ q.horizon := Nat.le_add_right _ _
    rw [play, play, show p.horizon = q.horizon from hz.symm]
    exact hu _ (by omega)
  | some x =>
    obtain ⟨u, σ⟩ := x
    have hr : p.advance u d = q.advance u d' := hu u (hs _ rfl)
    rw [play, play, hr]

theorem play_of_ended (h : p.advance t d = (.ended instant how, d')) :
    p.play none d = (.ended instant how, d') := by
  obtain ⟨-, hle, hu⟩ := (p.run_pace t p.due d p.left).ended (congrArg Prod.fst h)
  exact (hu _ hle).trans h

end Playback

/-! ## Starting later -/

/-- The same `T` milliseconds later. -/
def Entry.delay (T : Nat) (e : Entry) : Entry := { e with instant := T + e.instant }

def Playback.delay (T : Nat) (p : Playback) : Playback := { p with due := T + p.due }

def Progress.delay (T : Nat) : Progress → Progress
  | .playing p => .playing (p.delay T)
  | .ended instant how => .ended (T + instant) how
  | .crashed => .crashed

def Signal.delay (T : Nat) (sent : Nat × Signal) : Nat × Signal := (T + sent.1, sent.2)

theorem Signal.exists_delay {T : Nat} {sent : Option (Nat × Signal)} (h : ∀ x ∈ sent, T ≤ x.1) :
    ∃ early : Option (Nat × Signal), sent = early.map (delay T) := by
  cases sent with
  | none => exact ⟨none, rfl⟩
  | some x =>
    have hx : T + (x.1 - T) = x.1 := Nat.add_sub_cancel' (h x rfl)
    exact ⟨some (x.1 - T, x.2), by rw [Option.map_some, delay, hx]⟩

theorem Progress.ended_of_delay {T instant : Nat} {how : Ending} {r : Progress}
    (h : r.delay T = .ended instant how) : ∃ t, r = .ended t how ∧ instant = T + t := by
  cases r with
  | ended t how' => cases h; exact ⟨t, rfl, rfl⟩
  | playing | crashed => cases h

/-- The device gets calls at these instants, with these outcomes, and is then `d'`. -/
inductive Device.Plays : Device → List Entry → Device → Prop where
  | nil (d : Device) : Plays d [] d
  | cons {d d' d'' : Device} {e : Entry} {calls : List Entry} :
      d.perform e.instant e.call = (e.outcome, d') → Plays d' calls d'' → Plays d (e :: calls) d''

namespace Device.Plays
variable {d d' d'' : Device} {calls calls' : List Entry}

theorem append (h : d.Plays calls d') (h' : d'.Plays calls' d'') : d.Plays (calls ++ calls') d'' := by
  induction h with
  | nil => exact h'
  | cons hp _ ih => exact .cons hp (ih h')

theorem of_append (h : d.Plays (calls ++ calls') d'') :
    ∃ d', d.Plays calls d' ∧ d'.Plays calls' d'' := by
  induction calls generalizing d with
  | nil => exact ⟨d, .nil d, h⟩
  | cons e calls ih =>
    cases h with
    | cons hp h =>
      obtain ⟨d', hc, hc'⟩ := ih h
      exact ⟨d', .cons hp hc, hc'⟩

theorem log (h : d.Plays calls d') : d'.log.toList = d.log.toList ++ calls := by
  induction h with
  | nil => exact (List.append_nil _).symm
  | cons hp _ ih => rw [ih, perform_log_toList hp, List.append_assoc]; rfl

end Device.Plays

/-- What has come of the device `D` comes `T` milliseconds earlier, by way of `play`, of every device
on which the same calls have the same outcomes. -/
def Later (T : Nat) (D : Device) (R : Progress × Device) (play : Device → Progress × Device) : Prop :=
  ∃ calls r, D.Plays (calls.map (Entry.delay T)) R.2 ∧ R.1 = Progress.delay T r ∧
    ∀ d d', d.Plays calls d' → play d = (r, d')

namespace Later
variable {T : Nat} {D D' : Device} {R : Progress × Device} {r : Progress}
  {play play' : Device → Progress × Device} {calls : List Entry}

theorem done (h : ∀ d, play d = (r, d)) : Later T D (r.delay T, D) play := by
  refine ⟨[], r, .nil D, rfl, fun d d' hd => ?_⟩
  cases hd
  exact h d

/-- Some calls come before the rest. -/
theorem after (hc : D.Plays (calls.map (Entry.delay T)) D') (h : Later T D' R play')
    (hp : ∀ d d', d.Plays calls d' → play d = play' d') : Later T D R play := by
  obtain ⟨calls', r, hD, hr, hd⟩ := h
  refine ⟨calls ++ calls', r, by rw [List.map_append]; exact hc.append hD, hr, fun d d'' h => ?_⟩
  obtain ⟨d', h, h'⟩ := h.of_append
  rw [hp d d' h]
  exact hd d' d'' h'

/-- Some calls and nothing more. -/
theorem only (hc : D.Plays (calls.map (Entry.delay T)) D')
    (hp : ∀ d d', d.Plays calls d' → play d = (r, d')) : Later T D (r.delay T, D') play :=
  ⟨calls, r, hc, rfl, hp⟩

end Later

namespace Playback
variable {T : Nat} {p : Playback}

theorem halt_of_perform {now : Nat} {d d' : Device} {outcome : Outcome}
    (h : d.perform now (.stop p.session.mode) = (outcome, d')) :
    p.halt now d = (decide (outcome ≠ .crashed), d') := by
  rw [halt, h]
  cases outcome <;> rfl

theorem plays_of_halt {now : Nat} {D D' : Device} {done : Bool}
    (h : (p.delay T).halt (T + now) D = (done, D')) :
    ∃ e : Entry, D.Plays ([e].map (Entry.delay T)) D' ∧
      ∀ d d', d.Plays [e] d' → p.halt now d = (done, d') := by
  obtain ⟨outcome, hc, ho⟩ := perform_of_halt h
  refine ⟨⟨now, .stop p.session.mode, outcome⟩, .cons hc (.nil D'), fun d d' h => ?_⟩
  cases h with
  | cons hc h =>
    cases h
    rw [halt_of_perform hc]
    cases done <;> simp_all

theorem plays_of_restart {now : Nat} {D D' D'' : Device} {outcome : Outcome}
    (h : (p.delay T).halt (T + now) D = (true, D'))
    (hs : D'.perform (T + now) p.start = (outcome, D'')) :
    ∃ calls : List Entry, D.Plays (calls.map (Entry.delay T)) D'' ∧ ∀ d d'', d.Plays calls d'' →
      ∃ d', p.halt now d = (true, d') ∧ d'.perform now p.start = (outcome, d'') := by
  obtain ⟨e, hc, he⟩ := plays_of_halt h
  have hr : D'.Plays ([(⟨now, p.start, outcome⟩ : Entry)].map (Entry.delay T)) D'' :=
    .cons hs (.nil D'')
  refine ⟨[e] ++ [⟨now, p.start, outcome⟩], by rw [List.map_append]; exact hc.append hr, ?_⟩
  intro d d'' h
  obtain ⟨d', h, h'⟩ := h.of_append
  cases h' with
  | cons hs h' =>
    cases h'
    exact ⟨d', he d d' h, hs⟩

theorem Pace.later {t due' left : Nat} {D : Device} {R : Progress × Device}
    (h : Pace (p.delay T) (T + t) due' left D R) {due : Nat} (hdue : due' = T + due) :
    Later T D R fun d => p.run t due d left := by
  induction h generalizing due <;> subst hdue
  case pause left D ht =>
    refine .done (r := .playing { p with due, left }) fun d => ?_
    cases left <;> rw [run, if_pos (by omega)]
  case last ht hh =>
    obtain ⟨e, hc, he⟩ := plays_of_halt hh
    refine .only (r := .ended due .completed) hc fun d d' h => ?_
    rw [run, if_neg (by omega), he d d' h]
  case again ht hh hs _ ih =>
    obtain ⟨calls, hc, hp⟩ := plays_of_restart hh hs
    refine .after hc (@ih (due + p.session.span) (Nat.add_assoc ..)) fun d d'' h => ?_
    obtain ⟨d', hh, hs⟩ := hp d d'' h
    rw [run, if_neg (by omega), hh]
    simp only [hs]
  case refused why ht hh hs =>
    obtain ⟨calls, hc, hp⟩ := plays_of_restart hh hs
    refine .only (r := .ended due (.failed (.device why))) hc fun d d'' h => ?_
    obtain ⟨d', hh, hs⟩ := hp d d'' h
    rw [run, if_neg (by omega), hh]
    simp only [hs]
  case haltCrashed left _ _ ht hh =>
    obtain ⟨e, hc, he⟩ := plays_of_halt hh
    refine .only (r := .crashed) hc fun d d' h => ?_
    cases left <;> rw [run, if_neg (by omega), he d d' h]
  case startCrashed ht hh hs =>
    obtain ⟨calls, hc, hp⟩ := plays_of_restart hh hs
    refine .only (r := .crashed) hc fun d d'' h => ?_
    obtain ⟨d', hh, hs⟩ := hp d d'' h
    rw [run, if_neg (by omega), hh]
    simp only [hs]

theorem advance_later (p : Playback) (T t : Nat) (D : Device) :
    Later T D ((p.delay T).advance (T + t) D) (p.advance t) :=
  ((p.delay T).run_pace (T + t) (T + p.due) D p.left).later rfl

theorem interrupt_later (p : Playback) (T t : Nat) (signal : Signal) (D : Device) :
    Later T D ((p.delay T).interrupt (T + t) signal D) (p.interrupt t signal) := by
  rcases hh : (p.delay T).halt (T + t) D with ⟨done, D'⟩
  obtain ⟨e, hc, he⟩ := plays_of_halt hh
  rw [interrupt, hh]
  cases done with
  | false =>
    refine .only (r := .crashed) hc fun d d' h => ?_
    rw [interrupt, he d d' h]
  | true =>
    refine .only (r := .ended t signal.ending) hc fun d d' h => ?_
    rw [interrupt, he d d' h]

theorem play_later (p : Playback) (T : Nat) (sent : Option (Nat × Signal)) (D : Device) :
    Later T D ((p.delay T).play (sent.map (Signal.delay T)) D) (p.play sent) := by
  cases sent with
  | none =>
    have hz : (p.delay T).horizon = T + p.horizon := Nat.add_assoc ..
    rw [Option.map_none, play, hz]
    exact p.advance_later T p.horizon D
  | some x =>
    obtain ⟨t, signal⟩ := x
    obtain ⟨calls, r, hplays, hr, hearly⟩ := p.advance_later T t D
    rw [Option.map_some, Signal.delay, play]
    rcases hR : (p.delay T).advance (T + t) D with ⟨R, D'⟩
    rw [hR] at hplays hr
    cases hr
    cases r with
    | playing q =>
      refine .after hplays (q.interrupt_later T t signal D') fun d d' h => ?_
      rw [play, hearly d d' h]
    | ended instant how =>
      refine .only (r := .ended instant how) hplays fun d d' h => ?_
      rw [play, hearly d d' h]
    | crashed =>
      refine .only (r := .crashed) hplays fun d d' h => ?_
      rw [play, hearly d d' h]

end Playback

/-- A session on its own: started at an instant, and played to its end or until it is sent a
signal. -/
def Session.alone (s : Session) (now : Nat) (sent : Option (Nat × Signal)) (d : Device) :
    Progress × Device :=
  match s.activate now d with
  | (.active p, d) => p.play sent d
  | (.failed why, d) => (.ended now (.failed why), d)
  | (.crashed, d) => (.crashed, d)

theorem Session.alone_later (s : Session) (T : Nat) (sent : Option (Nat × Signal)) (D : Device) :
    Later T D (s.alone T (sent.map (Signal.delay T)) D) (s.alone 0 sent) := by
  unfold Session.alone Session.activate
  cases hs : s.start with
  | error why => exact .done (r := .ended 0 (.failed why)) fun _ => rfl
  | ok call =>
    dsimp only
    rcases hc : D.perform T call with ⟨outcome, D'⟩
    have hc : D.Plays ([(⟨0, call, outcome⟩ : Entry)].map (Entry.delay T)) D' := .cons hc (.nil D')
    cases outcome with
    | done =>
      have hp := Playback.play_later ⟨s, call, s.span, s.repetitions - 1⟩ T sent D'
      refine .after hc hp fun d d' h => ?_
      cases h with
      | cons hc h =>
        cases h
        simp only [hc, Nat.zero_add]
    | refused why =>
      refine .only (r := .ended 0 (.failed (.device why))) hc fun d d' h => ?_
      cases h with
      | cons hc h =>
        cases h
        simp only [hc]
    | crashed =>
      refine .only (r := .crashed) hc fun d d' h => ?_
      cases h with
      | cons hc h =>
        cases h
        simp only [hc]

/-! ## Devices with given outcomes -/

/-- The fault that makes a call come to this. -/
def Outcome.fault? : Outcome → Option Fault
  | .done => none
  | .refused why => some (.error why)
  | .crashed => some .crash

/-- A new device whose calls have these outcomes one after the other, whatever they are. -/
def Device.scripted (outcomes : List Outcome) : Device :=
  { faults := fun number => outcomes[number - 1]?.bind Outcome.fault? }

namespace Device
variable {d : Device}

theorem perform_of_fault (hr : d.motor.rejected = []) {outcome : Outcome}
    (hf : d.faults (d.log.size + 1) = outcome.fault?) (now : Nat) (call : Call) :
    ∃ d', d.perform now call = (outcome, d') := by
  cases outcome with
  | refused | crashed =>
    rw [perform, hf]
    exact ⟨_, rfl⟩
  | done =>
    have ha : d.motor.refusal? call = none := by
      cases call with
      | startEffect => simp [Motor.refusal?, hr]
      | startOnce | stop => rfl
    rw [perform, hf]
    simp only [Outcome.fault?, Motor.accept, ha]
    exact ⟨_, rfl⟩

theorem plays_of_faults (hr : d.motor.rejected = []) {calls : List Entry}
    (hf : ∀ i, d.faults (d.log.size + 1 + i) =
      (calls.map Entry.outcome)[i]?.bind Outcome.fault?) : ∃ d', d.Plays calls d' := by
  induction calls generalizing d with
  | nil => exact ⟨d, .nil d⟩
  | cons e calls ih =>
    obtain ⟨d', hp⟩ := perform_of_fault hr (by simpa using hf 0) e.instant e.call
    have hsize : d'.log.size = d.log.size + 1 := by rw [perform_log hp, Array.size_push]
    obtain ⟨d'', h⟩ := ih (d := d') ((perform_rejected hp).trans hr) fun i => by
      have hi : d.log.size + 1 + 1 + i = d.log.size + 1 + (i + 1) := by omega
      rw [perform_faults hp, hsize, hi, hf (i + 1)]
      rfl
    exact ⟨d'', .cons hp h⟩

/-- Any calls can be had with any outcomes. -/
theorem scripted_plays (calls : List Entry) :
    ∃ d, (scripted (calls.map Entry.outcome)).Plays calls d :=
  plays_of_faults rfl fun i => by simp [scripted, Nat.add_comm]

end Device

end Haptics
