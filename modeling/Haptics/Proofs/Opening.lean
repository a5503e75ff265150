import Haptics.Proofs.Keeping
import Haptics.Proofs.Keys
import Haptics.Proofs.Run
import Haptics.Proofs.Saving
import Haptics.Proofs.Service

/-! From the text of a configuration to a controller that serves. The limits are checked twice: when
the text is read, and once more when the controller comes up. Below both checks the queue has a limit
of its own, which neither of them knows. -/

namespace Haptics

/-- The error with which a controller that is to come up reports what is wrong with its limits. -/
def Config.Fault.launch : Config.Fault → LaunchError
  | .maxDuration given => .maxDuration given
  | .noBuffer => .noQueue

namespace Config

/-- What a configuration brings a controller up with. -/
def setup (c : Config) : Setup :=
  { settings := c.settings, catalog := c.catalog, policy := c.arbitration.policy,
    rejected := c.rejected }

/-! ## Both checks -/

theorem open?_of_fault {c : Config} {why : Fault} (h : c.fault? = some why) :
    c.open? = .error why.launch := by
  unfold fault? at h
  split at h
  · rename_i hmax
    cases h
    exact if_pos hmax
  · rename_i hmax
    split at h
    · rename_i hbuffer
      cases h
      exact (if_neg hmax).trans (if_pos hbuffer)
    · cases h

theorem open?_of_fault?_eq_none {c : Config} (h : c.fault? = none) :
    c.open? = if c.limits.commandBuffer ≤ Mailbox.maxCapacity then .ok c.setup.mailbox
      else .error .queueTooLarge := by
  obtain ⟨hmax, hbuffer⟩ := limits_of_fault? h
  have hopen : c.open? = if Mailbox.maxCapacity < c.limits.commandBuffer then .error .queueTooLarge
      else .ok c.setup.mailbox := (if_neg hmax).trans ((if_neg hbuffer).trans (if_neg nofun))
  rw [hopen]
  by_cases hfits : c.limits.commandBuffer ≤ Mailbox.maxCapacity
  · rw [if_pos hfits, if_neg (UInt64.not_lt.mpr hfits)]
  · rw [if_neg hfits, if_pos (UInt64.not_le.mp hfits)]

/-- The second check finds what the first one finds, in every configuration. -/
theorem fault?_eq_some_iff {c : Config} {why : Fault} :
    c.fault? = some why ↔ c.open? = .error why.launch := by
  refine ⟨open?_of_fault, fun h => ?_⟩
  cases hc : c.fault? with
  | some found =>
    rw [open?_of_fault hc] at h
    cases found <;> cases why <;> cases h <;> rfl
  | none =>
    rw [open?_of_fault?_eq_none hc] at h
    split at h <;> cases why <;> cases h

theorem fault?_of_ofText {text : String} {c : Config} (h : ofText text = .ok c) :
    c.fault? = none := by
  unfold ofText at h
  split at h
  · cases h
  · split at h
    · cases h
    · cases h
      assumption

/-- Every two limits that the check lets through stand in a text that is accepted, if files have
numbers of that size. -/
theorem exists_ofText_limits {l : Limits} (hmax : 0 < l.maxDurationMs) (hbuffer : l.commandBuffer ≠ 0)
    (hfile : l.commandBuffer.toNat < Nat.pow 2 63) :
    ∃ text c, ofText text = .ok c ∧ c.limits = l := by
  let c : Config := { limits := l }
  have hc : c.fault? = none :=
    (if_neg (Int64.not_le.mpr hmax)).trans (if_neg hbuffer)
  have heffects : ∀ e ∈ Effect.builtin, e.durationMs.toNat < Nat.pow 2 63 := by decide
  exact ⟨_, c, ofText_chars hc (Int64.le_of_lt hmax) ⟨hfile, heffects⟩, rfl⟩

end Config

namespace Daemon

open Config

theorem run_of_queueTooLarge {c : Config} {spot spot' : Spot} (hc : c.open? = .error .queueTooLarge)
    (h : loadOrCreate spot = (.ok c, spot')) (input : List UInt8) :
    run spot input = ⟨[], breakdown, spot'⟩ := by
  have hs : start spot = (.error breakdown, spot') := by
    simp only [start, h, hc]
    rfl
  simp only [run, hs]

/-- **An accepted configuration comes up, unless its queue is too large.** If no queue can be made of
the size that it asks for, the service breaks down before it has read a line, and no error is
reported; with every other size it starts. Nothing else keeps it from coming up: both checks find the
same faults in every configuration. Limits without a fault stand in some text that is accepted,
whatever they are, as long as files have numbers of that size. -/
theorem comes_up_unless_too_large (text : String) (c : Config) (h : ofText text = .ok c) :
    let fits := c.limits.commandBuffer ≤ Mailbox.maxCapacity
    let spot := Spot.file text.toUTF8
    (c.open? = .ok c.setup.mailbox ↔ fits) ∧
    (c.open? = .error .queueTooLarge ↔ ¬ fits) ∧
    (∀ why, c.open? = .error why → why.message? = none) ∧
    (fits → start spot = (.ok c.setup.mailbox, spot)) ∧
    (¬ fits → ∀ input, run spot input = ⟨[], breakdown, spot⟩) ∧
    (∀ (d : Config) (why : Config.Fault), d.fault? = some why ↔ d.open? = .error why.launch) ∧
    ∀ l : Limits, 0 < l.maxDurationMs → l.commandBuffer ≠ 0 →
      l.commandBuffer.toNat < Nat.pow 2 63 → ∃ text c, ofText text = .ok c ∧ c.limits = l := by
  intro fits spot
  have hopen := open?_of_fault?_eq_none (fault?_of_ofText h)
  have hload : loadOrCreate spot = (.ok c, spot) := loadOrCreate_toUTF8 h
  have hok : fits → c.open? = .ok c.setup.mailbox := fun hf => hopen.trans (if_pos hf)
  have hlarge : ¬ fits → c.open? = .error .queueTooLarge := fun hf => hopen.trans (if_neg hf)
  refine ⟨⟨fun ho => ?_, hok⟩, ⟨fun ho hf => ?_, hlarge⟩, fun why ho => ?_,
    fun hf => start_of_load (hok hf) hload, fun hf => run_of_queueTooLarge (hlarge hf) hload,
    fun d why => fault?_eq_some_iff, fun l => exists_ofText_limits⟩
  · by_contra hf
    rw [hlarge hf] at ho
    cases ho
  · rw [hok hf] at ho
    cases ho
  · by_cases hf : fits
    · rw [hok hf] at ho
      cases ho
    · rw [hlarge hf] at ho
      cases ho
      rfl

/-- The largest queue there is. -/
theorem comes_up_unless_too_large_sample :
    let text := "[limits]\nmax_duration_ms = 1\ncommand_buffer = 2305843009213693951\n"
    let c : Config := { limits := ⟨1, 2305843009213693951⟩ }
    ofText text = .ok c ∧ c.open? = .ok c.setup.mailbox ∧
      start (.file text.toUTF8) = (.ok c.setup.mailbox, .file text.toUTF8) := by
  intro text c
  have h : ofText text = .ok c := by decide +kernel
  obtain ⟨hopen, -, -, hstart, -⟩ := comes_up_unless_too_large text c h
  have hfits : c.limits.commandBuffer ≤ Mailbox.maxCapacity := by decide
  exact ⟨h, hopen.mpr hfits, hstart hfits⟩

/-- One more, and nothing comes up although the text was accepted. -/
theorem no_controller_for_accepted_text :
    let text := "[limits]\ncommand_buffer = 2305843009213693952\n"
    let c : Config := { limits := { commandBuffer := 2305843009213693952 } }
    ofText text = .ok c ∧ (∀ m, c.open? ≠ .ok m) ∧
      ∀ input, run (.file text.toUTF8) input = ⟨[], breakdown, .file text.toUTF8⟩ := by
  intro text c
  have h : ofText text = .ok c := by decide +kernel
  have hopen : c.open? = .error .queueTooLarge := rfl
  refine ⟨h, fun m hm => ?_, run_of_queueTooLarge hopen (loadOrCreate_toUTF8 h)⟩
  rw [hopen] at hm
  cases hm

end Daemon

end Haptics
