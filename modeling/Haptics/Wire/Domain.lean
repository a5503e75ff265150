import Haptics.Arbitration
import Haptics.Motor
import Haptics.Wire

/-! The written forms of the domain's types. -/

namespace Haptics

open Document Wire

instance : Wire Usage where
  encode u := .str u.name
  decode? δ d := tag? δ d >>= Usage.ofName?

instance : Wire Mode where
  encode m := .str m.name
  decode? δ d := tag? δ d >>= Mode.ofName?

namespace Request

/-- How deep the members of a request may be nested. All of them have to be values, also those that
mean nothing, because the kind of request may come last. -/
def room : Nat := 126

/-- The fields of each kind. -/
def ofFields? : String → List (Option Document) → Option Request
  | "time", [some millis] => do return .time (← decode? .json millis)
  | "preset", [some effectId, some count] =>
    do return .preset (← decode? .json effectId) (← decode? .json count)
  | _, _ => none

def fields? : String → Option (List Field)
  | "time" => some [⟨"duration", .required⟩]
  | "preset" => some [⟨"effectId", .required⟩, ⟨"count", .required⟩]
  | _ => none

def ofDocument? : Document → Option Request
  | .table members => do
    guard (allNamed members ∧ members.all fun m => (m.2.value? room).isSome)
    match under "type" members with
    | [.str (some kind)] =>
      ofFields? kind (← (← fields? kind).mapM (Field.inTable? members))
    | _ => none
  | .list (.str (some kind) :: items) => do
    guard (items.all fun d => (d.value? room).isSome)
    ofFields? kind (← inList? false (← fields? kind) items)
  | _ => none

end Request

instance : Wire Request where
  encode
    | .time millis => .obj [("type", .str "time"), ("duration", encode millis)]
    | .preset effectId count =>
      .obj [("type", .str "preset"), ("effectId", encode effectId), ("count", encode count)]
  decode? _ := Request.ofDocument?

instance : Wire Parameter where
  encode p := .obj [("intensity", encode p.intensity), ("frequency", encode p.frequency)]
  decode? δ d := do
    match ← record? δ [⟨"intensity", .required⟩, ⟨"frequency", .required⟩] d with
    | [some intensity, some frequency] => return ⟨← decode? δ intensity, ← decode? δ frequency⟩
    | _ => none

instance : Wire Context where
  encode c := .obj [("usage", encode c.usage), ("parameter", encode c.parameter)]
  decode? δ d := do
    match ← record? δ [⟨"usage", .required⟩, ⟨"parameter", .defaulted⟩] d with
    | [some usage, parameter] => return ⟨← decode? δ usage, ← field? δ {} parameter⟩
    | _ => none

instance : Wire Effect where
  encode e := .obj [("id", encode e.id), ("duration_ms", encode e.durationMs)]
  decode? δ d := do
    match ← record? δ [⟨"id", .required⟩, ⟨"duration_ms", .required⟩] d with
    | [some id, some durationMs] => return ⟨← decode? δ id, ← decode? δ durationMs⟩
    | _ => none

instance : Wire Rejection where
  encode r := .obj [("effect_id", encode r.effectId), ("usage", encode r.usage)]
  decode? δ d := do
    match ← record? δ [⟨"effect_id", .required⟩, ⟨"usage", .required⟩] d with
    | [some effectId, some usage] => return ⟨← decode? δ effectId, ← decode? δ usage⟩
    | _ => none

instance : Wire Arbitration where
  encode a := .obj [("incoming_repeat_wins", encode a.repeatWins),
    ("lock_repeating_presets", encode a.lockRepeating), ("protected_usages", encode a.guarded),
    ("lowest_priority_usages", encode a.lowest)]
  decode? δ d := do
    match ← record? δ [⟨"incoming_repeat_wins", .defaulted⟩, ⟨"lock_repeating_presets", .defaulted⟩,
      ⟨"protected_usages", .defaulted⟩, ⟨"lowest_priority_usages", .defaulted⟩] d with
    | [repeatWins, lockRepeating, guarded, lowest] =>
      let a : Arbitration := {}
      return ⟨← field? δ a.repeatWins repeatWins, ← field? δ a.lockRepeating lockRepeating,
        ← field? δ a.guarded guarded, ← field? δ a.lowest lowest⟩
    | _ => none

instance : Wire Shape where
  encode s := .obj [("code", encode s.code), ("message", encode s.message)]
  decode? δ d := do
    match ← record? δ [⟨"code", .required⟩, ⟨"message", .required⟩] d with
    | [some code, some message] => return ⟨← decode? δ code, ← decode? δ message⟩
    | _ => none

end Haptics
