import Mathlib.Algebra.Order.Floor.Ring
import Mathlib.Data.Rat.Floor
import Mathlib.Tactic.NormNum
import Haptics.Proofs.Arguments
import Haptics.Proofs.Starting

/-! Numbers as arguments. A number is cut off toward zero and held within the range; nothing wraps
and no whole number in the range is rounded. -/

namespace Haptics

/-! ## What a number stands for -/

/-- The whole number next to a rational number in the direction of zero. -/
def towardZero (q : ℚ) : ℤ := if 0 ≤ q then ⌊q⌋ else ⌈q⌉

theorem towardZero_intCast (i : ℤ) : towardZero i = i := by
  unfold towardZero
  rw [Int.floor_intCast, Int.ceil_intCast, ite_self]

theorem towardZero_of_nonneg {q : ℚ} (h : 0 ≤ q) : towardZero q = ⌊q⌋ := if_pos h

theorem towardZero_neg {q : ℚ} (h : 0 ≤ q) : towardZero (-q) = -⌊q⌋ := by
  rcases h.eq_or_lt with rfl | h
  · rw [neg_zero, towardZero_of_nonneg le_rfl, Int.floor_zero, neg_zero]
  · rw [towardZero, if_neg (by simpa using h), Int.ceil_neg]

theorem towardZero_mono {p q : ℚ} (h : p ≤ q) : towardZero p ≤ towardZero q := by
  unfold towardZero
  split
  · next hp =>
    rw [if_pos (hp.trans h)]
    exact Int.floor_mono h
  · next hp =>
    split
    · next hq =>
      have hceil : ⌈p⌉ ≤ 0 := Int.ceil_le.mpr (by exact_mod_cast (not_le.mp hp).le)
      exact hceil.trans (Int.floor_nonneg.mpr hq)
    · exact Int.ceil_mono h

/-- The number in the range of 64 bits that is next to a whole number. -/
def clamped (i : ℤ) : ℤ := max (-2 ^ 63) (min i (2 ^ 63 - 1))

theorem clamped_mono {i j : ℤ} (h : i ≤ j) : clamped i ≤ clamped j :=
  max_le_max_left _ (min_le_min_right _ h)

namespace Dyadic

def value (x : Dyadic) : ℚ := x.mantissa * 2 ^ x.exponent

theorem value_eq_div (x : Dyadic) : x.value = (x.num : ℚ) / x.den := by
  obtain ⟨m, e⟩ := x
  cases e with
  | ofNat k => simp [value, num, den]
  | negSucc k => simp [value, num, den, zpow_negSucc, div_eq_mul_inv]

theorem value_nonneg (x : Dyadic) : 0 ≤ x.value := by
  rw [value_eq_div]
  exact div_nonneg (Nat.cast_nonneg _) (Nat.cast_nonneg _)

theorem floor_eq (x : Dyadic) : (x.floor : ℤ) = ⌊x.value⌋ := by
  rw [value_eq_div, Rat.floor_natCast_div_natCast, floor, Int.natCast_ediv]

/-- A whole number of 64 bits is not too large for a double. -/
theorem round_one {n : Nat} (hlow : 2 ^ 63 ≤ n) (hhigh : n < 2 ^ 64) :
    round n 1 = some (nearest n 1) := by
  have hlog : n.log2 = 52 + 11 := (Nat.log2_eq_iff (by omega)).mpr ⟨hlow, hhigh⟩
  have hexponent : (nearest n 1).exponent ≤ 12 := by
    rw [nearest_one hlog]
    split
    · exact Int.le_refl 12
    · exact Int.le_add_one (Int.le_refl 11)
  unfold round
  dsimp only
  rw [if_neg (by omega), if_neg (by omega)]

end Dyadic

def Binary64.value (x : Binary64) : ℚ := if x.negative then -x.magnitude.value else x.magnitude.value

theorem Binary64.truncate_eq (x : Binary64) : x.truncate = towardZero x.value := by
  unfold truncate value
  rw [x.magnitude.floor_eq]
  split
  · rw [towardZero_neg x.magnitude.value_nonneg]
  · rw [towardZero_of_nonneg x.magnitude.value_nonneg]

namespace Json.Number
variable {n n' : Number}

/-- The exact number. -/
def value : Number → ℚ
  | .int i => i
  | .float x => x.value

theorem toInt_clamp (i : ℤ) : (clamp i).toInt = clamped i := by
  unfold clamp
  rw [Int64.toInt_minValue, Int64.toInt_maxValue]
  exact Int64.toInt_ofInt_of_le (le_max_left _ _) (max_lt (by norm_num) (by omega))

theorem toInt_truncate (n : Number) : n.truncate.toInt = clamped (towardZero n.value) := by
  cases n with
  | int i => rw [truncate_int, toInt_clamp, value, towardZero_intCast]
  | float x => rw [truncate_float, toInt_clamp, value, x.truncate_eq]

theorem truncate_mono (h : n.value ≤ n'.value) : n.truncate ≤ n'.truncate := by
  rw [Int64.le_iff_toInt_le, toInt_truncate, toInt_truncate]
  exact clamped_mono (towardZero_mono h)

/-- A whole number in the range is not changed, however it is held. -/
theorem truncate_of_whole {i : ℤ} (h : n.value = i) (hlow : -2 ^ 63 ≤ i) (hhigh : i < 2 ^ 63) :
    n.truncate.toInt = i := by
  rw [toInt_truncate, h, towardZero_intCast, clamped]
  omega

/-- Beyond the range it makes no difference whether a whole number is first rounded to a double. -/
theorem truncate_round {k : ℕ} (hlow : 2 ^ 63 ≤ k) (hhigh : k < 2 ^ 64) :
    ∃ x, Dyadic.round k 1 = some x ∧ truncate (.float ⟨false, x⟩) = truncate (.int k) ∧
      truncate (.int k) = clamp k := by
  have hlarge : Int64.maxValue.toInt < (k : ℤ) := by
    rw [Int64.toInt_maxValue]
    omega
  have hdouble : (Number.int k).double = ⟨false, .nearest k 1⟩ := by
    simp [double]
  refine ⟨_, Dyadic.round_one hlow hhigh, ?_, truncate_int k⟩
  rw [truncate_float, truncate_int, ← clamp_double (.inr hlarge), hdouble]

/-- The number as one of 32 bits, for a field of that width. -/
def narrow (field : String) (n : Number) : Except Invalid Int32 :=
  if -2 ^ 31 ≤ towardZero n.value ∧ towardZero n.value < 2 ^ 31 then
    .ok (Int32.ofInt (towardZero n.value))
  else .error (.outOfRange field n.truncate)

end Json.Number

/-! ## Numbers as arguments -/

namespace Line.Operation

open Json (Number)

/-- What does not fit into 32 bits does not fit after it was held within 64 either. -/
theorem outside_iff_truncate (n : Number) :
    (n.truncate < -2147483648 ∨ 2147483647 < n.truncate) ↔
      ¬ (-2 ^ 31 ≤ towardZero n.value ∧ towardZero n.value < 2 ^ 31) := by
  have hlow : (-2147483648 : Int64).toInt = -2147483648 := rfl
  have hhigh : (2147483647 : Int64).toInt = 2147483647 := rfl
  rw [Int64.lt_iff_toInt_lt, Int64.lt_iff_toInt_lt, hlow, hhigh, n.toInt_truncate, clamped]
  omega

theorem int32_num (field : String) (default : Int32) (n : Number) :
    int32 field default (some (.num n)) = n.narrow field := by
  change (if n.truncate < -2147483648 ∨ 2147483647 < n.truncate then
    throw (.outOfRange field n.truncate) else pure n.truncate.toInt32 : Except Invalid Int32) = _
  unfold Number.narrow
  by_cases hr : -2 ^ 31 ≤ towardZero n.value ∧ towardZero n.value < 2 ^ 31
  · have hi : n.truncate.toInt = towardZero n.value := by
      rw [n.toInt_truncate, clamped]
      omega
    rw [if_pos hr, if_neg (by rw [outside_iff_truncate]; exact not_not_intro hr),
      ← Int32.ofInt_int64ToInt, hi]
    rfl
  · rw [if_neg hr, if_pos ((outside_iff_truncate n).mpr hr)]
    rfl

/-- A field that may be missing. -/
def given (field : String) (default : Int32) : Option Number → Except Invalid Int32
  | none => .ok default
  | some n => n.narrow field

theorem int32_given (field : String) (default : Int32) {j : Option Json} {o : Option Number}
    (h : present j = o.map .num) : int32 field default j = given field default o := by
  cases o with
  | none =>
    have hj : present j = none := h
    unfold int32
    rw [hj]
    rfl
  | some n =>
    have hj : j = some (.num n) := (Option.filter_eq_some_iff.mp h).1
    rw [hj, int32_num]
    rfl

section Start
variable {id : Option UInt64} {effect options : Json} {more : List Json} {request : Request}
  {effectId : String} {n : Number}

theorem present_of_get? {name : String} {j : Json} (h : effect.get? name = some j) :
    present (some effect) = some effect := by
  cases effect with
  | null => cases h
  | _ => rfl

/-- A start reads its effect and then its attribute. -/
theorem ofMessage_start (h : present (some effect) = some effect) :
    ofMessage ⟨id, "startVibration", effect :: options :: more⟩ = (do
      let request ← (effectRequest (some effect)).mapError .refused
      let context ← (attributeContext (some options)).mapError fun why => .refused (.invalid why)
      return .startVibration request context) := by
  simp only [ofMessage, List.head?_cons, h, List.getElem?_cons_succ, List.getElem?_cons_zero]

theorem effectRequest_time (ht : effect.get? "type" = some (.str "time"))
    (hd : effect.get? "duration" = some (.num n)) :
    effectRequest (some effect) = .ok (.time n.truncate) := by
  cases effect with
  | obj members => simp [effectRequest, ht, hd, integer, Except.map, Except.mapError]
  | _ => cases ht

theorem effectRequest_preset (ht : effect.get? "type" = some (.str "preset"))
    (hi : effect.get? "effectId" = some (.str effectId))
    (hc : effect.get? "count" = some (.num n)) :
    effectRequest (some effect) =
      ((n.narrow "count").map (.preset effectId)).mapError .invalid := by
  cases effect with
  | obj members => simp only [effectRequest, ht, hi, hc, int32_num]
  | _ => cases ht

theorem attributeContext_numbers {usage : Usage} {a b : Option Number}
    (hu : options.get? "usage" = some (.str usage.name))
    (ha : present (options.get? "intensity") = a.map .num)
    (hb : present (options.get? "frequency") = b.map .num) :
    attributeContext (some options) = (do
      let intensity ← given "intensity" 100 a
      let frequency ← given "frequency" 0 b
      return ⟨usage, intensity, frequency⟩) := by
  have hparse : Usage.parse usage.name = .ok usage := Usage.parse_eq_ok.mpr rfl
  cases options with
  | obj members =>
    simp only [attributeContext, hu, hparse, int32_given _ _ ha, int32_given _ _ hb]
    rfl
  | _ => cases hu

end Start

end Line.Operation

/-! ## Numbers as durations -/

/-- Below the largest limit no duration is accepted that the number itself does not have. -/
theorem Json.Number.duration_iff {limit : Int64} (h : limit < Int64.maxValue) (n : Json.Number) :
    (1 ≤ n.truncate ∧ n.truncate ≤ limit) ↔
      1 ≤ towardZero n.value ∧ towardZero n.value ≤ limit.toInt := by
  have hlimit := Int64.lt_iff_toInt_lt.mp h
  rw [Int64.toInt_maxValue] at hlimit
  rw [Int64.le_iff_toInt_le, Int64.le_iff_toInt_le, Int64.toInt_one, n.toInt_truncate, clamped]
  omega

theorem Session.check_time_iff {id : UInt64} {millis : Int64} {context : Context}
    {catalog : Catalog} {limit : Int64} :
    (∃ s, Session.check ⟨id, .time millis, context, none⟩ catalog limit = .ok s) ↔
      context.parameter.check = .ok () ∧ 1 ≤ millis ∧ millis ≤ limit := by
  unfold Session.check
  dsimp only
  cases context.parameter.check with
  | error why => exact ⟨nofun, nofun⟩
  | ok _ =>
    by_cases hm : 1 ≤ millis ∧ millis ≤ limit
    · simp [outside_iff, hm]
    · simp [outside_iff, hm]

/-- A request that does not pass its check changes nothing. -/
theorem Controller.start_of_check_ne_ok {c : Controller} {request : Request} {context : Context}
    (h : ¬ ∃ s, Session.check ⟨c.nextId, request, context, none⟩ c.catalog
      c.settings.maxDurationMs = .ok s) :
    ∃ why, c.start request context = (some (.error (.invalid why)), c) := by
  unfold start
  split
  · next why _ => exact ⟨why, rfl⟩
  · next s hs => exact absurd ⟨s, hs⟩ h

open Json (Number)
open Line Operation

/-- **Numbers are cut off, never wrapped.** A number stands for the whole number next to it in the
direction of zero, held within 64 bits: a whole number in that range is not changed, a larger number
never stands for a smaller one, and rounding those that are too large to a double first makes no
difference. Durations are taken like that; a count, an intensity and a frequency are what is left of
the number if that has 32 bits, and a fault of the request otherwise. Under a limit below the largest
number, a number starts a run exactly if what is left of it is a duration within the limit. -/
theorem numbers_cut_off :
    (∀ field n, integer field (some (.num n)) = .ok n.truncate ∧
      n.truncate.toInt = clamped (towardZero n.value)) ∧
    (∀ (n : Number) (i : ℤ), n.value = i → -2 ^ 63 ≤ i → i < 2 ^ 63 → n.truncate.toInt = i) ∧
    (∀ n n' : Number, n.value ≤ n'.value → n.truncate ≤ n'.truncate) ∧
    (∀ k : ℕ, 2 ^ 63 ≤ k → k < 2 ^ 64 → ∃ x, Dyadic.round k 1 = some x ∧
      Number.truncate (.float ⟨false, x⟩) = Number.truncate (.int k) ∧
      Number.truncate (.int k) = Number.clamp k) ∧
    (∀ id n more, ofMessage ⟨id, "vibrate", .num n :: more⟩ = .ok (.vibrate (.time n.truncate))) ∧
    (∀ id effect options more n, effect.get? "type" = some (.str "time") →
      effect.get? "duration" = some (.num n) →
      ofMessage ⟨id, "startVibration", effect :: options :: more⟩ =
        ((attributeContext (some options)).map (.startVibration (.time n.truncate))).mapError
          fun why => .refused (.invalid why)) ∧
    (∀ id effect options more effectId n, effect.get? "type" = some (.str "preset") →
      effect.get? "effectId" = some (.str effectId) → effect.get? "count" = some (.num n) →
      ofMessage ⟨id, "startVibration", effect :: options :: more⟩ =
        Except.mapError (fun why => .refused (.invalid why)) (do
          let count ← n.narrow "count"
          return .startVibration (.preset effectId count) (← attributeContext (some options)))) ∧
    (∀ id effect options more request usage (a b : Option Number),
      effectRequest (some effect) = .ok request →
      options.get? "usage" = some (.str (Usage.name usage)) →
      present (options.get? "intensity") = a.map .num →
      present (options.get? "frequency") = b.map .num →
      ofMessage ⟨id, "startVibration", effect :: options :: more⟩ =
        Except.mapError (fun why => .refused (.invalid why)) (do
          let intensity ← given "intensity" 100 a
          let frequency ← given "frequency" 0 b
          return .startVibration request ⟨usage, intensity, frequency⟩)) ∧
    (∀ (c : Controller) (n : Number) context, c.settings.maxDurationMs < Int64.maxValue →
      ¬ (1 ≤ towardZero n.value ∧ towardZero n.value ≤ c.settings.maxDurationMs.toInt) →
      ∃ why, c.start (.time n.truncate) context = (some (.error (.invalid why)), c)) ∧
    (∀ id (n : Number) context catalog limit, limit < Int64.maxValue →
      ((∃ s, Session.check ⟨id, .time n.truncate, context, none⟩ catalog limit = .ok s) ↔
        context.parameter.check = .ok () ∧
          1 ≤ towardZero n.value ∧ towardZero n.value ≤ limit.toInt)) := by
  have hcheck (id) (n : Number) (context) (catalog) (limit : Int64) (hl : limit < Int64.maxValue) :
      (∃ s, Session.check ⟨id, .time n.truncate, context, none⟩ catalog limit = .ok s) ↔
        context.parameter.check = .ok () ∧
          1 ≤ towardZero n.value ∧ towardZero n.value ≤ limit.toInt := by
    rw [Session.check_time_iff, n.duration_iff hl]
  refine ⟨fun field n => ⟨rfl, n.toInt_truncate⟩, fun n i => Number.truncate_of_whole,
    fun n n' => Number.truncate_mono, fun k => Number.truncate_round, fun id n more => rfl,
    fun id effect options more n ht hd => ?_, fun id effect options more effectId n ht hi hc => ?_,
    fun id effect options more request usage a b hr hu ha hb => ?_, fun c n context hl hq => ?_,
    hcheck⟩
  · rw [ofMessage_start (present_of_get? ht), effectRequest_time ht hd]
    cases attributeContext (some options) <;> rfl
  · rw [ofMessage_start (present_of_get? ht), effectRequest_preset ht hi hc]
    cases n.narrow "count" <;> cases attributeContext (some options) <;> rfl
  · have hp : present (some effect) = some effect := by
      cases effect with
      | null => cases hr
      | _ => rfl
    rw [ofMessage_start hp, hr, attributeContext_numbers hu ha hb]
    cases given "intensity" 100 a <;> cases given "frequency" 0 b <;> rfl
  · exact Controller.start_of_check_ne_ok fun hs => hq ((hcheck _ n context _ _ hl).mp hs).2

/-- Minus one and a half, and the smallest whole double that 64 bits do not hold: the one is a count
of minus one, and the other no duration for a controller that plays a repeating preset. -/
theorem numbers_cut_off_sample :
    let less : Number := .float ⟨true, ⟨3, -1⟩⟩
    let more : Number := .float ⟨false, ⟨4503599627370496, 11⟩⟩
    let effect : Json :=
      .obj [("count", .num less), ("effectId", .str "tick"), ("type", .str "preset")]
    let run : Json := .obj [("duration", .num (.int 35)), ("type", .str "time")]
    let options : Json := .obj [("frequency", .num more), ("usage", .str "ring")]
    let c := Setup.sample.after Setup.sampleEvents
    less.value = -3 / 2 ∧ more.value = 2 ^ 63 ∧ less.truncate ≤ more.truncate ∧
      less.truncate.toInt = -1 ∧ more.truncate.toInt = 2 ^ 63 - 1 ∧
      ofMessage ⟨none, "startVibration", [effect, .obj [("usage", .str "ring")]]⟩ =
        .ok (.startVibration (.preset "tick" (-1)) { usage := .ring }) ∧
      ofMessage ⟨none, "startVibration", [run, options]⟩ =
        .error (.refused (.invalid (.outOfRange "frequency" Int64.maxValue))) ∧
      c.settings.maxDurationMs < Int64.maxValue ∧
      ¬ (1 ≤ towardZero more.value ∧ towardZero more.value ≤ c.settings.maxDurationMs.toInt) ∧
      ∃ why, c.start (.time more.truncate) {} = (some (.error (.invalid why)), c) := by
  intro less more effect run options c
  obtain ⟨hcut, -, hmono, -, -, -, hpreset, hattribute, hlimit, -⟩ := numbers_cut_off
  have hless : less.value = -3 / 2 := by norm_num [less, Number.value, Binary64.value, Dyadic.value]
  have hmore : more.value = 2 ^ 63 := by norm_num [more, Number.value, Binary64.value, Dyadic.value]
  have hle : less.value ≤ more.value := by rw [hless, hmore]; norm_num
  have hzero : towardZero less.value = -1 := (Binary64.truncate_eq _).symm.trans (by decide)
  have hzero' : towardZero more.value = 2 ^ 63 := (Binary64.truncate_eq _).symm.trans (by decide)
  have hcount : less.narrow "count" = .ok (-1) :=
    (int32_num "count" 1 less).symm.trans (by decide)
  have hnarrow : more.narrow "frequency" = .error (.outOfRange "frequency" Int64.maxValue) :=
    (int32_num "frequency" 0 more).symm.trans (by decide)
  have hsettings : c.settings.maxDurationMs < Int64.maxValue := by decide
  have hout : ¬ (1 ≤ towardZero more.value ∧
      towardZero more.value ≤ c.settings.maxDurationMs.toInt) := by
    rw [hzero']
    decide
  refine ⟨hless, hmore, hmono _ _ hle, ?_, ?_, ?_, ?_, hsettings, hout,
    hlimit c more {} hsettings hout⟩
  · rw [(hcut "" less).2, hzero]
    decide
  · rw [(hcut "" more).2, hzero']
    decide
  · rw [hpreset none effect _ [] "tick" less rfl rfl rfl, hcount]
    rfl
  · rw [hattribute none run options [] (.time 35) .ring none (some more) rfl rfl rfl rfl, given,
      given, hnarrow]
    rfl

end Haptics
