import Haptics.Usage

/-! What a caller may ask for: a plain run of the motor or a preset effect, on behalf of a usage and
with a strength and frequency adjustment. All numbers are kept as the caller gave them; whether they
are acceptable is decided when a session is created from them. -/

namespace Haptics

/-- The two kinds of session, which a stop request can tell apart. -/
inductive Mode where
  | time
  | preset
  deriving DecidableEq, Repr

namespace Mode

def name : Mode → String
  | .time => "time"
  | .preset => "preset"

def all : List Mode := [.time, .preset]

def ofName? (s : String) : Option Mode := all.find? fun m => m.name == s

theorem ofName?_name (m : Mode) : ofName? m.name = some m := by cases m <;> decide

end Mode

/-- A run of the motor for a number of milliseconds, or an effect of the catalog played a number
of times. -/
inductive Request where
  | time (millis : Int64)
  | preset (effectId : String) (count : Int32)
  deriving DecidableEq, Repr

namespace Request

def mode : Request → Mode
  | .time _ => .time
  | .preset _ _ => .preset

/-- A preset that is to be played more than once. -/
def isRepeating : Request → Bool
  | .time _ => false
  | .preset _ count => 1 < count

def describe : Request → String
  | .time millis => s!"time({millis}ms)"
  | .preset effectId count => s!"preset({effectId} x{count})"

end Request

/-- Adjustments on top of the played waveform: motor strength in percent, and an offset from the
default frequency. -/
structure Parameter where
  intensity : Int32 := 100
  frequency : Int32 := 0
  deriving DecidableEq, Repr

/-- On whose behalf a vibration is started, and how. -/
structure Context where
  usage : Usage := .unknown
  parameter : Parameter := {}
  deriving DecidableEq, Repr

/-- The fixed-length pulses of the older interface. -/
inductive Pulse where
  | long
  | short
  deriving DecidableEq, Repr

namespace Pulse

def millis : Pulse → Int64
  | .long => 1000
  | .short => 35

/-- Every name but `short` means the long pulse. -/
def ofName (s : String) : Pulse := if s = "short" then .short else .long

def request (p : Pulse) : Request := .time p.millis

end Pulse

end Haptics
