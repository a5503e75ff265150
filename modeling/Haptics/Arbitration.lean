import Haptics.Request

/-! Arbitration: may an incoming request take the motor from the session that is playing? -/

namespace Haptics

/-- What arbitration sees of a session. -/
structure View where
  request : Request
  usage : Usage
  deriving DecidableEq, Repr

/-- A policy gets the playing session and the incoming one, in this order. If it does not admit the
incoming one it gives a reason for the log. -/
abbrev Policy := View → View → Except String Unit

/-- Which rules apply. They are tried in the order of the fields and the first that decides wins; what
none refuses is admitted. -/
structure Arbitration where
  /-- An incoming repeating preset always wins. -/
  repeatWins : Bool := true
  /-- A playing repeating preset yields only to an identical request. -/
  lockRepeating : Bool := true
  /-- Sessions of these usages yield only to a request of the same usage. -/
  guarded : List Usage := [.alarm]
  /-- Requests of these usages never replace a session of a usage outside the list. -/
  lowest : List Usage := [.unknown]
  deriving DecidableEq, Repr

/-- The rule that refused, with what its wording needs. -/
inductive Conflict where
  | locked (live incoming : Request)
  | guarded (live : View) (incoming : Usage)
  | outranked (live : View) (incoming : Usage)
  deriving DecidableEq, Repr

def Conflict.message : Conflict → String
  | .locked live incoming =>
    s!"repeating preset {live.describe} still playing, {incoming.describe} refused"
  | .guarded live incoming =>
    s!"live {live.request.describe} session with protected usage {live.usage.name} " ++
      s!"blocks {incoming.name} request"
  | .outranked live incoming =>
    s!"{incoming.name} request cannot preempt live {live.request.describe} session " ++
      s!"of usage {live.usage.name}"

namespace Arbitration

/-- Every request takes over from the playing session. -/
def permissive : Arbitration := ⟨false, false, [], []⟩

/-- Which rule is broken, if one is. -/
def verdict (a : Arbitration) (live incoming : View) : Except Conflict Unit :=
  if a.repeatWins && incoming.request.isRepeating then .ok ()
  else if a.lockRepeating && live.request.isRepeating && live.request ≠ incoming.request then
    .error (.locked live.request incoming.request)
  else if a.guarded.contains live.usage && incoming.usage ≠ live.usage then
    .error (.guarded live incoming.usage)
  else if a.lowest.contains incoming.usage && !a.lowest.contains live.usage then
    .error (.outranked live incoming.usage)
  else .ok ()

def policy (a : Arbitration) : Policy := fun live incoming =>
  (a.verdict live incoming).mapError Conflict.message

theorem policy_eq_ok {a : Arbitration} {live incoming : View} :
    a.policy live incoming = .ok () ↔ a.verdict live incoming = .ok () := by
  unfold policy
  cases a.verdict live incoming with
  | error why => exact ⟨nofun, nofun⟩
  | ok => exact ⟨fun _ => rfl, fun _ => rfl⟩

/-- A session of a guarded usage yields only to its own usage or to a repeating preset. -/
theorem verdict_guarded {a : Arbitration} {live incoming : View}
    (h : a.verdict live incoming = .ok ()) (hg : live.usage ∈ a.guarded) :
    incoming.usage = live.usage ∨ a.repeatWins = true ∧ incoming.request.isRepeating = true := by
  by_cases hr : a.repeatWins = true ∧ incoming.request.isRepeating = true
  · exact .inr hr
  · by_cases hu : incoming.usage = live.usage
    · exact .inl hu
    · unfold verdict at h
      rw [if_neg (by simpa using hr)] at h
      split at h
      · cases h
      · rw [if_pos (by simp [hg, hu])] at h
        cases h

end Arbitration

end Haptics
