import Mathlib.Data.List.Induction
import Haptics.Motor

/-! What a motor keeps of the calls it gets: the calls that it took, the mode in which they left it
running and how many starts came over another. The motor only has its mode and a counter; what these
say of the whole history follows call by call. -/

namespace Haptics

/-! ## Histories -/

/-- A start after which there was no other and no stop of its mode. -/
def LeftRunning (taken : List Call) (mode : Mode) : Prop :=
  ∃ i < taken.length, taken[i]?.bind Call.starts? = some mode ∧
    ∀ c ∈ taken.drop (i + 1), c.starts? = none ∧ c ≠ .stop mode

instance (taken : List Call) (mode : Mode) : Decidable (LeftRunning taken mode) :=
  inferInstanceAs (Decidable (∃ i < _, _))

/-- The call at a place is a start, and the start before it was left running until then. -/
def Overlaps (taken : List Call) (i : Nat) : Prop :=
  (taken[i]?.bind Call.starts?).isSome = true ∧
    (LeftRunning (taken.take i) .time ∨ LeftRunning (taken.take i) .preset)

instance (taken : List Call) (i : Nat) : Decidable (Overlaps taken i) :=
  inferInstanceAs (Decidable (_ ∧ _))

/-- How many starts came over another. -/
def overlapCount (taken : List Call) : Nat :=
  (List.range taken.length).countP fun i => Overlaps taken i

section Histories
variable {taken : List Call} {call : Call} {mode : Mode}

theorem not_leftRunning_nil : ¬ LeftRunning [] mode := fun ⟨_, hi, _⟩ => Nat.not_lt_zero _ hi

theorem leftRunning_snoc : LeftRunning (taken ++ [call]) mode ↔
    call.starts? = some mode ∨
      (call.starts? = none ∧ call ≠ .stop mode) ∧ LeftRunning taken mode := by
  have hend : (taken ++ [call])[taken.length]? = some call := List.getElem?_concat_length
  have hdrop {i : Nat} (hi : i < taken.length) :
      (taken ++ [call]).drop (i + 1) = taken.drop (i + 1) ++ [call] :=
    List.drop_append_of_le_length hi
  constructor
  · rintro ⟨i, hi, hs, hl⟩
    rw [List.length_append, List.length_singleton] at hi
    rcases Nat.lt_succ_iff_lt_or_eq.mp hi with hi | rfl
    · rw [List.getElem?_append_left hi] at hs
      rw [hdrop hi, List.forall_mem_append, List.forall_mem_singleton] at hl
      exact .inr ⟨hl.2, i, hi, hs, hl.1⟩
    · rw [hend] at hs
      exact .inl hs
  · rintro (hs | ⟨hc, i, hi, hs, hl⟩)
    · refine ⟨taken.length, by simp, by rw [hend]; exact hs, ?_⟩
      rw [List.drop_eq_nil_of_le (by simp)]
      exact nofun
    · refine ⟨i, by simp; omega, by rw [List.getElem?_append_left hi]; exact hs, ?_⟩
      rw [hdrop hi, List.forall_mem_append, List.forall_mem_singleton]
      exact ⟨hl, hc⟩

theorem overlapCount_snoc (taken : List Call) (call : Call) :
    overlapCount (taken ++ [call]) = overlapCount taken +
      if call.starts?.isSome = true ∧ (LeftRunning taken .time ∨ LeftRunning taken .preset)
      then 1 else 0 := by
  have hlast : Overlaps (taken ++ [call]) taken.length ↔ call.starts?.isSome = true ∧
      (LeftRunning taken .time ∨ LeftRunning taken .preset) := by
    rw [Overlaps, List.getElem?_concat_length, List.take_left]
    rfl
  have hearlier : ∀ i ∈ List.range taken.length,
      decide (Overlaps (taken ++ [call]) i) = true ↔ decide (Overlaps taken i) = true := by
    intro i hi
    have hlt := List.mem_range.mp hi
    rw [decide_eq_true_iff, decide_eq_true_iff, Overlaps, Overlaps, List.getElem?_append_left hlt,
      List.take_append_of_le_length (Nat.le_of_lt hlt)]
  rw [overlapCount, List.length_append, List.length_singleton, List.range_succ, List.countP_append,
    List.countP_congr hearlier, List.countP_singleton]
  simp only [decide_eq_true_eq, hlast]
  rfl

end Histories

/-! ## The motor -/

namespace Motor

/-- Whether the motor is told to refuse a call. -/
def refuses (m : Motor) : Call → Bool
  | .startEffect effect usage _ => decide (⟨effect.id, usage⟩ ∈ m.rejected)
  | _ => false

/-- What a call makes of the motor; one that is refused leaves it as it is. -/
def offer (m : Motor) (call : Call) : Motor :=
  match m.accept call with
  | .ok m' => m'
  | .error _ => m

def run (m : Motor) (calls : List Call) : Motor := calls.foldl offer m

/-- What the motor has is what its history says. -/
structure Recalls (m : Motor) (taken : List Call) : Prop where
  record : m.record.toList = taken.map Call.act
  engaged : ∀ mode, m.engaged = some mode ↔ LeftRunning taken mode
  overlaps : m.overlaps = overlapCount taken

variable {m m' : Motor} {taken : List Call} {call : Call}

/-! ### One call -/

theorem accept_of_refuses (h : m.refuses call = true) : ∃ effect usage parameter,
    call = .startEffect effect usage parameter ∧ (⟨effect.id, usage⟩ : Rejection) ∈ m.rejected ∧
      m.accept call = .error (.rejected effect.id usage.name) := by
  cases call with
  | startOnce | stop => cases h
  | startEffect effect usage parameter =>
    have hm : (⟨effect.id, usage⟩ : Rejection) ∈ m.rejected := of_decide_eq_true h
    refine ⟨effect, usage, parameter, rfl, hm, ?_⟩
    have hf : m.refusal? (.startEffect effect usage parameter) = some ⟨effect.id, usage⟩ := by
      rw [refusal?]
      cases hr : m.rejected.find? (· == ⟨effect.id, usage⟩) with
      | none => simpa using List.find?_eq_none.mp hr _ hm
      | some r =>
        have hb : (r == ⟨effect.id, usage⟩) = true := by
          simpa using List.find?_some hr
        rw [beq_iff_eq.mp hb]
    rw [accept, hf]

theorem accept_of_not_refuses (h : m.refuses call = false) : ∃ m', m.accept call = .ok m' := by
  have hf : m.refusal? call = none := by
    cases call with
    | startOnce | stop => rfl
    | startEffect effect usage parameter =>
      refine List.find?_eq_none.mpr fun r hr he => ?_
      rw [beq_iff_eq.mp he] at hr
      exact of_decide_eq_false h hr
  rw [accept, hf]
  exact ⟨_, rfl⟩

theorem accept_record (h : m.accept call = .ok m') : m'.record = m.record.push call.act := by
  unfold accept at h
  split at h
  · cases h
  · cases h
    cases call with
    | stop mode => dsimp only; split <;> rfl
    | startOnce | startEffect => rfl

/-- Only the start of an effect is refused, and whether it is does not depend on the state. -/
theorem accept_error_iff {why : DeviceError} :
    m.accept call = .error why ↔ ∃ effect usage parameter,
      call = .startEffect effect usage parameter ∧ (⟨effect.id, usage⟩ : Rejection) ∈ m.rejected ∧
        why = .rejected effect.id usage.name := by
  cases hr : m.refuses call with
  | true =>
    obtain ⟨effect, usage, parameter, rfl, hm, ha⟩ := accept_of_refuses hr
    rw [ha]
    constructor
    · rintro ⟨⟩
      exact ⟨effect, usage, parameter, rfl, hm, rfl⟩
    · rintro ⟨_, _, _, ⟨⟩, -, rfl⟩
      rfl
  | false =>
    obtain ⟨m', ha⟩ := accept_of_not_refuses hr
    rw [ha]
    refine iff_of_false nofun ?_
    rintro ⟨effect, usage, parameter, rfl, hm, -⟩
    exact of_decide_eq_false hr hm

namespace Recalls

theorem running_iff (h : m.Recalls taken) :
    m.engaged.isSome = true ↔ LeftRunning taken .time ∨ LeftRunning taken .preset := by
  rw [← h.engaged, ← h.engaged]
  cases m.engaged with
  | none => simp
  | some mode => cases mode <;> simp

theorem start {mode : Mode} (h : m.Recalls taken) (hs : call.starts? = some mode)
    (ha : m.accept call = .ok m') : m'.Recalls (taken ++ [call]) := by
  obtain ⟨he, hv⟩ := accept_start hs ha
  refine ⟨by simp [accept_record ha, h.record], fun mode' => ?_, ?_⟩
  · rw [leftRunning_snoc, he, hs]
    simp
  · rw [hv, overlapCount_snoc, hs, h.overlaps]
    simp only [Option.isSome_some, true_and, ← h.running_iff]
    split <;> rfl

theorem stop (h : m.Recalls taken) (mode : Mode) (ha : m.accept (.stop mode) = .ok m') :
    m'.Recalls (taken ++ [.stop mode]) := by
  obtain ⟨m'', ha', hv, he⟩ := m.accept_stop mode
  cases ha.symm.trans ha'
  refine ⟨by simp [accept_record ha, h.record], fun mode' => ?_, ?_⟩
  · rw [leftRunning_snoc, he, ← h.engaged]
    by_cases hm : m.engaged = some mode
    · simp [hm, Call.starts?]
    · simp only [if_neg hm, Call.starts?, reduceCtorEq, false_or, true_and]
      refine ⟨fun hm' => ⟨?_, hm'⟩, And.right⟩
      rintro ⟨⟩
      exact hm hm'
  · rw [hv, overlapCount_snoc, h.overlaps]
    rfl

/-- A call that is taken becomes part of the history. -/
theorem accept (h : m.Recalls taken) (ha : m.accept call = .ok m') : m'.Recalls (taken ++ [call]) := by
  cases call with
  | startOnce | startEffect => exact h.start rfl ha
  | stop mode => exact h.stop mode ha

end Recalls

/-! ### All calls -/

theorem run_snoc (m : Motor) (calls : List Call) (call : Call) :
    m.run (calls ++ [call]) = (m.run calls).offer call := by
  rw [run, List.foldl_append]
  rfl

theorem run_rejected (m : Motor) (calls : List Call) : (m.run calls).rejected = m.rejected := by
  induction calls using List.reverseRecOn with
  | nil => rfl
  | append_singleton calls call ih =>
    rw [run_snoc, offer]
    split
    · next h => rw [accept_rejected h, ih]
    · exact ih

/-- A motor recalls the calls that it is not told to refuse. -/
theorem run_recalls (rejected : List Rejection) (calls : List Call) :
    (run { rejected } calls).Recalls (calls.filter fun c => !refuses { rejected } c) := by
  induction calls using List.reverseRecOn with
  | nil => exact ⟨rfl, fun mode => iff_of_false nofun not_leftRunning_nil, rfl⟩
  | append_singleton calls call ih =>
    have hsame : (run { rejected } calls).refuses call = refuses { rejected } call := by
      unfold refuses
      rw [run_rejected]
    rw [run_snoc, List.filter_append, offer]
    cases hr : refuses { rejected } call with
    | true =>
      obtain ⟨_, _, _, -, -, ha⟩ := accept_of_refuses (hsame.trans hr)
      simpa [ha, hr] using ih
    | false =>
      obtain ⟨m', ha⟩ := accept_of_not_refuses (hsame.trans hr)
      simpa [ha, hr] using ih.accept ha

/-- **A motor keeps a faithful record.** Whatever it is told to refuse and whatever calls it gets: it
refuses a start exactly if its effect and usage are a pair that it is told to refuse, in every state,
and then nothing changes. What it records are the calls that it took, in order. It runs exactly if one
of them was a start after which there was no other start and no stop of its mode, and then in that
mode; and the overlaps that it counts are the starts before which another was left running so. -/
theorem recorded_faithfully (rejected : List Rejection) (calls : List Call) :
    let m := run { rejected } calls
    let taken := calls.filter fun c => !refuses { rejected } c
    (∀ call why, m.accept call = .error why ↔ ∃ effect usage parameter,
      call = .startEffect effect usage parameter ∧ (⟨effect.id, usage⟩ : Rejection) ∈ rejected ∧
        why = .rejected effect.id usage.name) ∧
    (∀ call, refuses { rejected } call = true ↔ ∃ why, m.accept call = .error why) ∧
    (∀ call why, m.accept call = .error why → m.offer call = m) ∧
    m.record.toList = taken.map Call.act ∧
    (m.engaged.isSome = true ↔ ∃ mode, LeftRunning taken mode) ∧
    (∀ mode, m.engaged = some mode ↔ LeftRunning taken mode) ∧
    m.overlaps = overlapCount taken := by
  intro m taken
  have hr : m.Recalls taken := run_recalls rejected calls
  have hsame : m.rejected = rejected := run_rejected _ calls
  refine ⟨fun call why => ?_, fun call => ?_, fun call why ha => ?_, hr.record, ?_, hr.engaged,
    hr.overlaps⟩
  · rw [accept_error_iff, hsame]
  · have hrefuses : m.refuses call = refuses { rejected } call := by
      unfold refuses
      rw [hsame]
    rw [← hrefuses]
    cases h : m.refuses call with
    | true =>
      obtain ⟨_, _, _, -, -, ha⟩ := accept_of_refuses h
      exact iff_of_true rfl ⟨_, ha⟩
    | false =>
      obtain ⟨m', ha⟩ := accept_of_not_refuses h
      exact iff_of_false nofun fun ⟨why, he⟩ => nomatch ha.symm.trans he
  · rw [offer, ha]
  · simp only [Option.isSome_iff_exists, hr.engaged]

/-- Starts over a running motor, one of which is refused, and stops of the other mode. -/
theorem recorded_faithfully_sample :
    let tick : Effect := ⟨"haptic.clock.timer", 2000⟩
    let rejected : List Rejection := [⟨tick.id, .ring⟩]
    let calls : List Call := [.startOnce 100 .ring {}, .startEffect tick .ring {}, .stop .preset,
      .startEffect tick .alarm {}, .stop .time, .startOnce 5 .ring {}]
    let m := run { rejected } calls
    m.accept (.startEffect tick .ring {}) = .error (.rejected tick.id Usage.ring.name) ∧
      m.offer (.startEffect tick .ring {}) = m ∧ m.engaged = some .time ∧ m.overlaps = 2 ∧
      m.record.toList = [.once 100 .ring, .halt .preset, .effect tick.id .alarm, .halt .time,
        .once 5 .ring] := by
  intro tick rejected calls m
  obtain ⟨hrefused, -, hsame, hrecord, -, hengaged, hoverlaps⟩ := recorded_faithfully rejected calls
  have ha := (hrefused _ _).mpr ⟨tick, .ring, {}, rfl, by decide, rfl⟩
  refine ⟨ha, hsame _ _ ha, (hengaged .time).mpr (by decide), hoverlaps.trans (by decide), ?_⟩
  rw [hrecord]
  decide

end Motor

end Haptics
