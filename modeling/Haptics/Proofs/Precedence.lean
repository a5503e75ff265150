import Mathlib.Logic.Basic
import Haptics.Arbitration

/-! Which session has precedence. The rules of arbitration are tried one after the other, and each may
decide alone. Put into one condition they show what they have in common: a session is never refused in
favour of its equal, loosening a rule refuses nothing that was admitted, and nothing counts that the
rules do not name. -/

namespace Haptics

/-- What repeats is a preset that is played more than once. -/
theorem Request.isRepeating_iff {r : Request} :
    r.isRepeating = true ↔ ∃ effectId count, r = .preset effectId count ∧ 1 < count := by
  cases r with
  | time => simp [isRepeating]
  | preset effectId count =>
    refine ⟨fun h => ⟨effectId, count, rfl, of_decide_eq_true h⟩, ?_⟩
    rintro ⟨_, _, ⟨⟩, h⟩
    exact decide_eq_true h

namespace Arbitration

/-- The playing session gives way to the incoming one. -/
def Admits (a : Arbitration) (live incoming : View) : Prop := a.policy live incoming = .ok ()

/-- No rule that can refuse does so. -/
structure Passes (a : Arbitration) (live incoming : View) : Prop where
  lockRepeating : a.lockRepeating = true → live.request.isRepeating = true →
    live.request = incoming.request
  guarded : live.usage ∈ a.guarded → incoming.usage = live.usage
  lowest : incoming.usage ∈ a.lowest → live.usage ∈ a.lowest

/-- Rules that ask for no more than others. -/
structure Loosens (a' a : Arbitration) : Prop where
  repeatWins : a.repeatWins = true → a'.repeatWins = true
  lockRepeating : a'.lockRepeating = true → a.lockRepeating = true
  guarded : ∀ u ∈ a'.guarded, u ∈ a.guarded
  lowest : ∀ u, u ∈ a'.lowest ↔ u ∈ a.lowest

/-- Two sessions that meet are to the rules what two others are. -/
structure Resembles (live incoming live' incoming' : View) : Prop where
  liveUsage : live.usage = live'.usage
  incomingUsage : incoming.usage = incoming'.usage
  liveRepeats : live.request.isRepeating = live'.request.isRepeating
  incomingRepeats : incoming.request.isRepeating = incoming'.request.isRepeating
  same : live.request = incoming.request ↔ live'.request = incoming'.request

variable {a a' : Arbitration} {live incoming live' incoming' : View}

/-- The rules in one condition: the first decides for what repeats, and for the rest none of the
others may refuse. -/
theorem admits_iff : a.Admits live incoming ↔
    (a.repeatWins = true ∧ incoming.request.isRepeating = true) ∨ a.Passes live incoming := by
  rw [Admits, policy_eq_ok, verdict]
  by_cases hwins : a.repeatWins = true ∧ incoming.request.isRepeating = true
  · simp [hwins]
  rw [if_neg (by simpa using hwins), or_iff_right hwins]
  by_cases hlock : a.lockRepeating = true ∧ live.request.isRepeating = true ∧
      live.request ≠ incoming.request
  · rw [if_pos (by simpa [and_assoc] using hlock)]
    exact iff_of_false nofun fun h => hlock.2.2 (h.lockRepeating hlock.1 hlock.2.1)
  rw [if_neg (by simpa [and_assoc] using hlock)]
  by_cases hguarded : live.usage ∈ a.guarded ∧ incoming.usage ≠ live.usage
  · rw [if_pos (by simpa using hguarded)]
    exact iff_of_false nofun fun h => hguarded.2 (h.guarded hguarded.1)
  rw [if_neg (by simpa using hguarded)]
  by_cases hlowest : incoming.usage ∈ a.lowest ∧ live.usage ∉ a.lowest
  · rw [if_pos (by simpa using hlowest)]
    exact iff_of_false nofun fun h => hlowest.2 (h.lowest hlowest.1)
  rw [if_neg (by simpa using hlowest)]
  refine iff_of_true rfl ⟨fun hl hr => ?_, fun hm => ?_, fun hm => ?_⟩
  · exact not_not.mp fun hne => hlock ⟨hl, hr, hne⟩
  · exact not_not.mp fun hne => hguarded ⟨hm, hne⟩
  · exact not_not.mp fun hn => hlowest ⟨hm, hn⟩

/-- A session gives way to its equal. -/
theorem admits_self (a : Arbitration) (v : View) : a.Admits v v :=
  admits_iff.mpr (.inr ⟨fun _ _ => rfl, fun _ => rfl, id⟩)

theorem Passes.loosened (h : a.Passes live incoming) (hl : a'.Loosens a) :
    a'.Passes live incoming where
  lockRepeating hlock := h.lockRepeating (hl.lockRepeating hlock)
  guarded hm := h.guarded (hl.guarded _ hm)
  lowest hm := (hl.lowest _).mpr (h.lowest ((hl.lowest _).mp hm))

/-- What is admitted stays admitted under looser rules. -/
theorem Admits.loosened (h : a.Admits live incoming) (hl : a'.Loosens a) :
    a'.Admits live incoming := by
  rw [admits_iff] at h ⊢
  exact h.imp (fun hw => ⟨hl.repeatWins hw.1, hw.2⟩) fun hp => hp.loosened hl

theorem Passes.resembling (h : a.Passes live incoming)
    (hr : Resembles live incoming live' incoming') : a.Passes live' incoming' where
  lockRepeating hlock hrepeats := hr.same.mp (h.lockRepeating hlock (hr.liveRepeats.trans hrepeats))
  guarded hm := hr.incomingUsage.symm.trans ((h.guarded (hr.liveUsage ▸ hm)).trans hr.liveUsage)
  lowest hm := hr.liveUsage ▸ h.lowest (hr.incomingUsage ▸ hm)

theorem Admits.resembling (h : a.Admits live incoming)
    (hr : Resembles live incoming live' incoming') : a.Admits live' incoming' := by
  rw [admits_iff] at h ⊢
  exact h.imp (fun hw => ⟨hw.1, hr.incomingRepeats ▸ hw.2⟩) fun hp => hp.resembling hr

theorem Resembles.symm (h : Resembles live incoming live' incoming') :
    Resembles live' incoming' live incoming :=
  ⟨h.liveUsage.symm, h.incomingUsage.symm, h.liveRepeats.symm, h.incomingRepeats.symm, h.same.symm⟩

/-- **The laws of arbitration.** A session gives way to one with the same request and usage. Whatever
is admitted is still admitted when repeating presets always win, when they are no longer locked, when
usages are no longer guarded, or all of that together. The lists of usages count only as sets, and of
the two requests it only counts whether each of them repeats and whether they are the same. And a
session of a guarded usage gives way only to its own usage or, where these always win, to a preset
that is played more than once. -/
theorem admission_laws (a : Arbitration) (live incoming : View) :
    (incoming.request = live.request → incoming.usage = live.usage → a.Admits live incoming) ∧
    (a.Admits live incoming →
      Admits { a with repeatWins := true } live incoming ∧
      Admits { a with lockRepeating := false } live incoming ∧
      (∀ guarded ⊆ a.guarded, Admits { a with guarded } live incoming) ∧
      ∀ a' : Arbitration, a'.Loosens a → a'.Admits live incoming) ∧
    (∀ (guarded lowest : List Usage) (live' incoming' : View),
      (∀ u, u ∈ guarded ↔ u ∈ a.guarded) → (∀ u, u ∈ lowest ↔ u ∈ a.lowest) →
      Resembles live incoming live' incoming' →
      (Admits { a with guarded, lowest } live' incoming' ↔ a.Admits live incoming)) ∧
    (live.usage ∈ a.guarded → a.Admits live incoming →
      incoming.usage = live.usage ∨
      a.repeatWins = true ∧ ∃ effectId count, incoming.request = .preset effectId count ∧ 1 < count) := by
  refine ⟨fun hr hu => ?_, fun h => ⟨?_, ?_, fun guarded hg => ?_, fun a' hl => h.loosened hl⟩,
    fun guarded lowest live' incoming' hg hl hr => ?_, fun hg h => ?_⟩
  · obtain ⟨request, usage⟩ := incoming
    cases hr
    cases hu
    exact a.admits_self live
  · exact h.loosened ⟨fun _ => rfl, id, fun _ => id, fun _ => .rfl⟩
  · exact h.loosened ⟨id, nofun, fun _ => id, fun _ => .rfl⟩
  · exact h.loosened ⟨id, id, fun _ hm => hg hm, fun _ => .rfl⟩
  · have hthere : Loosens { a with guarded, lowest } a := ⟨id, id, fun u => (hg u).mp, hl⟩
    have hback : a.Loosens { a with guarded, lowest } :=
      ⟨id, id, fun u => (hg u).mpr, fun u => (hl u).symm⟩
    exact ⟨fun h => (h.loosened hback).resembling hr.symm, fun h => (h.loosened hthere).resembling hr⟩
  · rw [← Request.isRepeating_iff]
    exact verdict_guarded (policy_eq_ok.mp h) hg

/-- An alarm gives way to its equal, and under the default rules to a preset that repeats; it still does
when alarms are no longer guarded and nothing is locked, when the lists name their usages twice, and
when other requests meet that are alike. -/
theorem admission_laws_sample :
    let a : Arbitration := {}
    let live : View := ⟨.time 10000, .alarm⟩
    let incoming : View := ⟨.preset "haptic.clock.timer" 3, .unknown⟩
    let live' : View := ⟨.preset "haptic.fail" 1, .alarm⟩
    let incoming' : View := ⟨.preset "haptic.slide.light" 2, .unknown⟩
    let loose : Arbitration := { a with lockRepeating := false, guarded := [] }
    let twice : Arbitration := { a with guarded := [.alarm, .alarm], lowest := [.unknown, .unknown] }
    a.Admits live live ∧ a.Admits live incoming ∧ loose.Loosens a ∧
      Resembles live incoming live' incoming' ∧ loose.Admits live incoming ∧
      Admits { a with guarded := [] } live incoming ∧ twice.Admits live' incoming' ∧
      live.usage ∈ a.guarded ∧ incoming.usage ≠ live.usage ∧
      ∃ effectId count, incoming.request = .preset effectId count ∧ 1 < count := by
  intro a live incoming live' incoming' loose twice
  have hadmits : a.Admits live incoming := rfl
  have hloose : loose.Loosens a := ⟨id, nofun, nofun, fun _ => .rfl⟩
  have hresembles : Resembles live incoming live' incoming' :=
    ⟨rfl, rfl, by decide, by decide, by decide⟩
  have hmem : live.usage ∈ a.guarded := by decide
  have hne : incoming.usage ≠ live.usage := by decide
  obtain ⟨hequal, -⟩ := admission_laws a live live
  obtain ⟨-, hlooser, hsets, hguarded⟩ := admission_laws a live incoming
  obtain ⟨-, -, hunguarded, hloosened⟩ := hlooser hadmits
  have htwice := hsets [.alarm, .alarm] [.unknown, .unknown] live' incoming'
    (fun u => by simp [a]) (fun u => by simp [a]) hresembles
  exact ⟨hequal rfl rfl, hadmits, hloose, hresembles, hloosened loose hloose,
    hunguarded [] (List.nil_subset _), htwice.mpr hadmits, hmem, hne,
    ((hguarded hmem hadmits).resolve_left hne).2⟩

end Arbitration

end Haptics
