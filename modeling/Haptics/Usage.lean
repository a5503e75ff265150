/-! Usage classes: what a vibration is for, and the names they go by. -/

namespace Haptics

/-- What a vibration is for. Arbitration between two sessions looks at it. -/
inductive Usage where
  | unknown
  | alarm
  | ring
  | notification
  | communication
  | touch
  | media
  | physicalFeedback
  | simulateReality
  deriving DecidableEq, Repr

namespace Usage

def all : List Usage :=
  [.unknown, .alarm, .ring, .notification, .communication, .touch, .media, .physicalFeedback,
    .simulateReality]

/-- The name in configuration files and on the line protocol. -/
def name : Usage → String
  | .unknown => "unknown"
  | .alarm => "alarm"
  | .ring => "ring"
  | .notification => "notification"
  | .communication => "communication"
  | .touch => "touch"
  | .media => "media"
  | .physicalFeedback => "physicalFeedback"
  | .simulateReality => "simulateReality"

def ofName? (s : String) : Option Usage := all.find? fun u => u.name == s

theorem mem_all (u : Usage) : u ∈ all := by cases u <;> decide

theorem name_injective {u v : Usage} (h : u.name = v.name) : u = v := by
  revert h; cases u <;> cases v <;> decide

theorem ofName?_name (u : Usage) : ofName? u.name = some u := by cases u <;> decide

end Usage

end Haptics
