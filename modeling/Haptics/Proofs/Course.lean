import Haptics.Playback

/-! What a playback does to its device. `Pace` lists every way on, with its instants: the repetition
that is running is stopped, and the next one is started, until the playback pauses, ends or crashes.
`Course` says the same without the arithmetic of when, and of signals too. Whatever holds of a device
throughout a playback is proved by induction on one of them. -/

namespace Haptics

/-! ## Devices that are called -/

namespace Device

/-- What no call changes, and the log, to which calls only add. -/
structure Grows (d d' : Device) : Prop where
  faults : d'.faults = d.faults
  rejected : d'.motor.rejected = d.motor.rejected
  log : d.log.toList <+: d'.log.toList

theorem Grows.refl (d : Device) : Grows d d := ⟨rfl, rfl, List.prefix_rfl⟩

theorem Grows.trans {d d' d'' : Device} (h : Grows d d') (h' : Grows d' d'') : Grows d d'' :=
  ⟨h'.faults.trans h.faults, h'.rejected.trans h.rejected, h.log.trans h'.log⟩

theorem perform_log_toList {d d' : Device} {now : Nat} {call : Call} {outcome : Outcome}
    (h : d.perform now call = (outcome, d')) :
    d'.log.toList = d.log.toList ++ [⟨now, call, outcome⟩] := by
  rw [perform_log h, Array.toList_push]

theorem perform_grows {d d' : Device} {now : Nat} {call : Call} {outcome : Outcome}
    (h : d.perform now call = (outcome, d')) : d.Grows d' := by
  refine ⟨perform_faults h, perform_rejected h, ?_⟩
  rw [perform_log_toList h]
  exact List.prefix_append _ _

/-- No call has crashed so far. -/
def Intact (d : Device) : Prop := ∀ e ∈ d.log.toList, e.outcome ≠ .crashed

instance (d : Device) : Decidable d.Intact :=
  inferInstanceAs (Decidable (∀ e ∈ d.log.toList, e.outcome ≠ .crashed))

theorem Intact.of_grows {d d' : Device} (h : d'.Intact) (hg : d.Grows d') : d.Intact :=
  fun e he => h e (hg.log.subset he)

theorem not_intact_of_crashed {d d' : Device} {now : Nat} {call : Call}
    (h : d.perform now call = (.crashed, d')) : ¬ d'.Intact := by
  intro hi
  refine hi ⟨now, call, .crashed⟩ ?_ rfl
  rw [perform_log_toList h]
  simp

end Device

/-! ## The course of a playback -/

namespace Playback

theorem halt_grows {p : Playback} {now : Nat} {d d' : Device} {done : Bool}
    (h : p.halt now d = (done, d')) : d.Grows d' := by
  obtain ⟨outcome, hp, -⟩ := perform_of_halt h
  exact Device.perform_grows hp

/-- All that happens up to the instant `t`, one repetition after the other: the one that is running
is over at `due`, and `left` more are to come. -/
inductive Pace (p : Playback) (t : Nat) : Nat → Nat → Device → Progress × Device → Prop where
  | pause {due left : Nat} {d : Device} : t < due →
      Pace p t due left d (.playing { p with due, left }, d)
  | last {due : Nat} {d d' : Device} : due ≤ t → p.halt due d = (true, d') →
      Pace p t due 0 d (.ended due .completed, d')
  | again {due left : Nat} {d d' d'' : Device} {r : Progress × Device} : due ≤ t →
      p.halt due d = (true, d') → d'.perform due p.start = (.done, d'') →
      Pace p t (due + p.session.span) left d'' r → Pace p t due (left + 1) d r
  | refused {due left : Nat} {d d' d'' : Device} {why : DeviceError} : due ≤ t →
      p.halt due d = (true, d') → d'.perform due p.start = (.refused why, d'') →
      Pace p t due (left + 1) d (.ended due (.failed (.device why)), d'')
  | haltCrashed {due left : Nat} {d d' : Device} : due ≤ t → p.halt due d = (false, d') →
      Pace p t due left d (.crashed, d')
  | startCrashed {due left : Nat} {d d' d'' : Device} : due ≤ t → p.halt due d = (true, d') →
      d'.perform due p.start = (.crashed, d'') → Pace p t due (left + 1) d (.crashed, d'')

theorem run_pace (p : Playback) (t due : Nat) (d : Device) (left : Nat) :
    Pace p t due left d (p.run t due d left) := by
  induction left generalizing due d with
  | zero =>
    rw [run]
    split
    · exact .pause ‹_›
    · rename_i hd
      split
      · exact .haltCrashed (Nat.le_of_not_lt hd) ‹_›
      · exact .last (Nat.le_of_not_lt hd) ‹_›
  | succ left ih =>
    rw [run]
    split
    · exact .pause ‹_›
    · rename_i hd
      have hd := Nat.le_of_not_lt hd
      split
      · exact .haltCrashed hd ‹_›
      · rename_i hh
        split
        · rename_i hs
          exact .again hd hh hs (ih _ _)
        · rename_i hs
          exact .refused hd hh hs
        · rename_i hs
          exact .startCrashed hd hh hs

/-- How a playback goes on from a device, and to what result; once it is halted for good it ends as
`how` says. -/
inductive Course (p : Playback) (how : Ending) : Device → Progress × Device → Prop where
  | pause (d : Device) (due left : Nat) : Course p how d (.playing { p with due, left }, d)
  | again {d d' d'' : Device} {r : Progress × Device} {t : Nat} : p.halt t d = (true, d') →
      d'.perform t p.start = (.done, d'') → Course p how d'' r → Course p how d r
  | halted {d d' : Device} {t : Nat} : p.halt t d = (true, d') → Course p how d (.ended t how, d')
  | refused {d d' d'' : Device} {t : Nat} {why : DeviceError} : p.halt t d = (true, d') →
      d'.perform t p.start = (.refused why, d'') →
      Course p how d (.ended t (.failed (.device why)), d'')
  | haltCrashed {d d' : Device} {t : Nat} : p.halt t d = (false, d') →
      Course p how d (.crashed, d')
  | startCrashed {d d' d'' : Device} {t : Nat} : p.halt t d = (true, d') →
      d'.perform t p.start = (.crashed, d'') → Course p how d (.crashed, d'')

theorem Pace.course {p : Playback} {t due left : Nat} {d : Device} {r : Progress × Device}
    (h : Pace p t due left d r) : Course p .completed d r := by
  induction h with
  | @pause due left d => exact .pause d due left
  | last _ hh => exact .halted hh
  | again _ hh hs _ ih => exact .again hh hs ih
  | refused _ hh hs => exact .refused hh hs
  | haltCrashed _ hh => exact .haltCrashed hh
  | startCrashed _ hh hs => exact .startCrashed hh hs

theorem advance_course (p : Playback) (t : Nat) (d : Device) :
    Course p .completed d (p.advance t d) := (p.run_pace t p.due d p.left).course

theorem interrupt_course (p : Playback) (now : Nat) (signal : Signal) (d : Device) :
    Course p signal.ending d (p.interrupt now signal d) := by
  unfold interrupt
  split
  · exact .haltCrashed ‹_›
  · exact .halted ‹_›

/-- A playback that completes has played its last repetition to the end. -/
theorem Pace.completed {p : Playback} {t due left t' : Nat} {d : Device} {r : Progress × Device}
    (h : Pace p t due left d r) (hr : r.1 = .ended t' .completed) :
    t' = due + left * p.session.span ∧ t' ≤ t := by
  induction h with
  | last ht =>
    cases hr
    omega
  | again _ _ _ _ ih =>
    have := ih hr
    rw [Nat.succ_mul]
    omega
  | pause | refused | haltCrashed | startCrashed => cases hr

theorem horizon_le_of_completed {p : Playback} {t t' : Nat} {d d' : Device}
    (h : p.advance t d = (.ended t' .completed, d')) : p.horizon ≤ t := by
  have hr := (p.run_pace t p.due d p.left).completed (congrArg Prod.fst h)
  unfold horizon
  omega

namespace Course
variable {p : Playback} {how : Ending} {d : Device} {r : Progress × Device}

theorem grows (h : Course p how d r) : d.Grows r.2 := by
  induction h with
  | pause d => exact .refl d
  | again hh hs _ ih => exact ((halt_grows hh).trans (Device.perform_grows hs)).trans ih
  | halted hh | haltCrashed hh => exact halt_grows hh
  | refused hh hs | startCrashed hh hs => exact (halt_grows hh).trans (Device.perform_grows hs)

/-- Playing changes nothing about a playback but when its repetition is over and how many come. -/
theorem playing (h : Course p how d r) {q : Playback} (hq : r.1 = .playing q) :
    q.session = p.session ∧ q.start = p.start := by
  induction h with
  | pause d due left => cases hq; exact ⟨rfl, rfl⟩
  | again _ _ _ ih => exact ih hq
  | halted | refused | haltCrashed | startCrashed => cases hq

theorem not_intact (h : Course p how d r) (hc : r.1 = .crashed) : ¬ r.2.Intact := by
  induction h with
  | again _ _ _ ih => exact ih hc
  | haltCrashed hh =>
    obtain ⟨outcome, hp, ho⟩ := perform_of_halt hh
    obtain rfl := ho.mpr rfl
    exact Device.not_intact_of_crashed hp
  | startCrashed _ hs => exact Device.not_intact_of_crashed hs
  | pause | halted | refused => cases hc

/-- Apart from the ending that its halt stands for, a playback ends only when a later repetition is
refused; the refused start is then the last call of all. -/
theorem ended (h : Course p how d r) {t : Nat} {e : Ending} (he : r.1 = .ended t e) :
    e = how ∨ ∃ why calls, e = .failed (.device why) ∧
      r.2.log.toList = d.log.toList ++ calls ++ [⟨t, p.start, .refused why⟩] := by
  induction h with
  | again hh hs _ ih =>
    rcases ih he with h | ⟨why, calls, rfl, hl⟩
    · exact .inl h
    · obtain ⟨before, hb⟩ := ((halt_grows hh).trans (Device.perform_grows hs)).log
      exact .inr ⟨why, before ++ calls, rfl, by rw [hl, ← hb, List.append_assoc _ before]⟩
  | halted => cases he; exact .inl rfl
  | refused hh hs =>
    cases he
    obtain ⟨before, hb⟩ := (halt_grows hh).log
    exact .inr ⟨_, before, rfl, by rw [Device.perform_log_toList hs, hb]⟩
  | pause | haltCrashed | startCrashed => cases he

end Course

end Playback

end Haptics
