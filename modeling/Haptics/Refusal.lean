import Haptics.Request

/-! Why a request is not carried out. A refusal is of one of three kinds; the kind alone decides the
code and the message that a caller gets to see, the cause decides the reason that is kept for the
log. -/

namespace Haptics

/-- What a device answers when it does not do as it is told. -/
inductive DeviceError where
  | rejected (effectId usage : String)
  | unavailable (detail : String)
  deriving DecidableEq, Repr

def DeviceError.message : DeviceError → String
  | .rejected effectId usage => s!"effect {effectId} not playable for usage {usage}"
  | .unavailable detail => s!"actuator unavailable: {detail}"

/-- Faults of a request that show without asking a device. -/
inductive Invalid where
  | unknownUsage (name : String)
  | emptyMode
  | unknownMode (name : String)
  | intensity (given : Int32)
  | frequency (given : Int32)
  | duration (given limit : Int64)
  | emptyEffectId
  | count (given : Int32)
  | unregistered (effectId : String)
  | pulseNotText
  | vibrateArgument
  | effectNotObject
  | effectIdNotText
  | effectTypeMissing
  | unknownEffectType (name : String)
  | attributeNotObject
  | usageNotText
  | supportNotText
  | notNumber (field : String)
  | outOfRange (field : String) (given : Int64)
  deriving DecidableEq, Repr

def Invalid.reason : Invalid → String
  | .unknownUsage name => s!"unknown usage '{name}'"
  | .emptyMode => "stop mode is empty"
  | .unknownMode name => s!"unknown stop mode '{name}'"
  | .intensity given => s!"intensity {given} outside 0..=100"
  | .frequency given => s!"frequency {given} outside -100..=100"
  | .duration given limit => s!"duration {given}ms outside 1..={limit}"
  | .emptyEffectId => "effect id is empty"
  | .count given => s!"count {given} must be at least 1"
  | .unregistered effectId => s!"effect '{effectId}' is not registered"
  | .pulseNotText => "vibrate mode must be a string"
  | .vibrateArgument => "vibrate expects a duration, an effect id or an options object"
  | .effectNotObject => "startVibration expects an effect object"
  | .effectIdNotText => "preset effect needs an effectId string"
  | .effectTypeMissing => "effect type is missing"
  | .unknownEffectType name => s!"unknown effect type '{name}'"
  | .attributeNotObject => "startVibration expects an attribute object"
  | .usageNotText => "attribute needs a usage string"
  | .supportNotText => "isSupportEffect expects an effect id string"
  | .notNumber field => s!"{field} must be a number"
  | .outOfRange field given => s!"{field} {given} out of range"

/-- Why a session fails: the device does not take a start, or a preset reaches activation without
having been looked up in the catalog. -/
inductive Setback where
  | device (error : DeviceError)
  | unresolved (effectId : String)
  deriving DecidableEq, Repr

def Setback.message : Setback → String
  | .device error => error.message
  | .unresolved effectId => s!"effect {effectId} was never resolved"

/-- Why an acceptable request is not carried out all the same. -/
inductive Failed where
  | conflict (reason : String)
  | setback (why : Setback)
  | fileEffect
  | queueFull
  | notRunning
  | abandoned
  deriving DecidableEq, Repr

def Failed.reason : Failed → String
  | .conflict reason => reason
  | .setback why => why.message
  | .fileEffect => "file based vibration is not supported"
  | .queueFull => "Channel error: command queue full"
  | .notRunning => "Channel error: controller not running"
  | .abandoned => "controller stopped before answering"

/-- The three kinds of refusal that callers branch on. -/
inductive Kind where
  | invalidParameter
  | permissionDenied
  | operationFailed
  deriving DecidableEq, Repr

/-- What crosses the boundary to a caller. -/
structure Shape where
  code : Int32
  message : String
  deriving DecidableEq, Repr

namespace Kind

def code : Kind → Int32
  | .invalidParameter => 401
  | .permissionDenied => 201
  | .operationFailed => 14600101

def message : Kind → String
  | .invalidParameter => "The parameter invalid."
  | .permissionDenied => "Permission denied."
  | .operationFailed => "Device operation failed."

def shape (k : Kind) : Shape := ⟨k.code, k.message⟩

end Kind

inductive Refusal where
  | invalid (why : Invalid)
  | denied
  | failed (why : Failed)
  deriving DecidableEq, Repr

namespace Refusal

def kind : Refusal → Kind
  | .invalid _ => .invalidParameter
  | .denied => .permissionDenied
  | .failed _ => .operationFailed

/-- Kept for the log, never shown to callers. -/
def reason : Refusal → String
  | .invalid why => why.reason
  | .denied => "vibrate permission not granted"
  | .failed why => why.reason

def shape (r : Refusal) : Shape := r.kind.shape

/-- A device error as a refusal. -/
def ofDevice (e : DeviceError) : Refusal := .failed (.setback (.device e))

end Refusal

/-- The answer to a request that has no result of its own. -/
abbrev Answer := Except Refusal Unit

def Usage.parse (s : String) : Except Invalid Usage :=
  match Usage.ofName? s with
  | some u => .ok u
  | none => .error (.unknownUsage s)

def Mode.parse (s : String) : Except Invalid Mode :=
  match Mode.ofName? s with
  | some m => .ok m
  | none => if s = "" then .error .emptyMode else .error (.unknownMode s)

/-- Intensity is checked before frequency. -/
def Parameter.check (p : Parameter) : Except Invalid Unit :=
  if p.intensity < 0 ∨ 100 < p.intensity then .error (.intensity p.intensity)
  else if p.frequency < -100 ∨ 100 < p.frequency then .error (.frequency p.frequency)
  else .ok ()

end Haptics
