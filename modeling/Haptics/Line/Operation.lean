import Haptics.Line.Message

/-! What a message asks for. Arguments are plain JSON values, so every check of their shape is
here. -/

namespace Haptics.Line

inductive Operation where
  | vibrate (request : Request)
  | startVibration (request : Request) (context : Context)
  | stop (mode : Option Mode)
  | isSupportEffect (effectId : String)
  | supportedEffects
  deriving DecidableEq, Repr

/-- Why a line is not carried out. -/
inductive Fault where
  | malformed
  | unknownOperation (op : String)
  | refused (why : Refusal)
  deriving DecidableEq, Repr

/-- A line that breaks the protocol is reported like a bad parameter. -/
def Fault.shape : Fault → Shape
  | .refused why => why.shape
  | _ => Kind.invalidParameter.shape

def Fault.unknownMessage (op : String) : String := s!"Unknown operation: {op}"

namespace Operation

/-- A value that is not there; `null` counts as that. -/
def present (j : Option Json) : Option Json := j.filter fun j => !j.isNull

/-- A whole number out of a JSON value. -/
def integer (name : String) : Option Json → Except Invalid Int64
  | some (.num n) => .ok n.truncate
  | _ => .error (.notNumber name)

/-- A whole number of 32 bits, with the value it has if it is not there. -/
def int32 (name : String) (default : Int32) (j : Option Json) : Except Invalid Int32 :=
  match present j with
  | none => .ok default
  | j => do
    let i ← integer name j
    if i < -2147483648 ∨ 2147483647 < i then throw (.outOfRange name i)
    return i.toInt32

/-- The argument of `vibrate`: a duration, an effect to be played once, or the name of a pulse in an
object; the long pulse if nothing is said. A bare string is always an effect. -/
def vibrateRequest : Option Json → Except Invalid Request
  | none => .ok Pulse.long.request
  | some (.num n) => .ok (.time n.truncate)
  | some (.str effectId) => .ok (.preset effectId 1)
  | some (.obj options) =>
    match present ((Json.obj options).get? "mode") with
    | none => .ok Pulse.long.request
    | some (.str name) => .ok (Pulse.ofName name).request
    | some _ => .error .pulseNotText
  | some _ => .error .vibrateArgument

/-- The effect of `startVibration`. -/
def effectRequest : Option Json → Except Refusal Request
  | some (.obj effect) =>
    let get := (Json.obj effect).get?
    match get "type" with
    | some (.str "time") => ((integer "duration" (get "duration")).map .time).mapError .invalid
    | some (.str "preset") =>
      match get "effectId" with
      | some (.str effectId) =>
        ((int32 "count" 1 (get "count")).map (.preset effectId)).mapError .invalid
      | _ => .error (.invalid .effectIdNotText)
    | some (.str "file") => .error (.failed .fileEffect)
    | some (.str kind) => .error (.invalid (.unknownEffectType kind))
    | _ => .error (.invalid .effectTypeMissing)
  | _ => .error (.invalid .effectNotObject)

/-- The attribute of `startVibration`. -/
def attributeContext : Option Json → Except Invalid Context
  | some (.obj options) => do
    let get := (Json.obj options).get?
    match get "usage" with
    | some (.str name) =>
      let usage ← Usage.parse name
      let p : Parameter := {}
      let intensity ← int32 "intensity" p.intensity (get "intensity")
      let frequency ← int32 "frequency" p.frequency (get "frequency")
      return ⟨usage, intensity, frequency⟩
    | _ => throw .usageNotText
  | _ => .error .attributeNotObject

/-- A stop for the mode of a name; anything but a string stops whatever plays. -/
def stopMode : Option Json → Except Invalid (Option Mode)
  | some (.str name) => (Mode.parse name).map some
  | _ => .ok none

/-- Only the arguments that the operation looks at are checked. -/
def ofMessage (m : Message) : Except Fault Operation :=
  let first := present m.args.head?
  match m.op with
  | "vibrate" => (vibrateRequest first).map .vibrate |>.mapError fun e => .refused (.invalid e)
  | "startVibration" => do
    let request ← (effectRequest first).mapError .refused
    let context ← (attributeContext m.args[1]?).mapError fun e => .refused (.invalid e)
    return .startVibration request context
  | "stop" | "stopVibration" =>
    (stopMode first).map .stop |>.mapError fun e => .refused (.invalid e)
  | "isSupportEffect" =>
    match first with
    | some (.str effectId) => .ok (.isSupportEffect effectId)
    | _ => .error (.refused (.invalid .supportNotText))
  | "supportedEffects" => .ok .supportedEffects
  | op => .error (.unknownOperation op)

end Operation

end Haptics.Line
