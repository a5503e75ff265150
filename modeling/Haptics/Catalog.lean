/-! The preset effects a controller knows. A catalog is built once from a list of entries: unusable
entries are skipped, and of several entries with one id the last one counts. -/

namespace Haptics

/-- A preset effect and how long one repetition of it lasts. -/
structure Effect where
  id : String
  durationMs : UInt64
  deriving DecidableEq, Repr

namespace Effect

/-- An effect can be registered if it has an id and lasts some time. -/
def usable (e : Effect) : Bool := e.id ≠ "" && e.durationMs ≠ 0

/-- The effects of the platform, used where none are configured. -/
def builtin : List Effect :=
  [⟨"haptic.clock.timer", 2000⟩, ⟨"haptic.fail", 60⟩, ⟨"haptic.charging", 100⟩,
    ⟨"haptic.long_press.heavy", 80⟩, ⟨"haptic.long_press.medium", 60⟩,
    ⟨"haptic.long_press.light", 40⟩, ⟨"haptic.slide.light", 20⟩, ⟨"haptic.threshold", 40⟩]

end Effect

/-- The registered effects in the order of their ids. -/
structure Catalog where
  entries : List Effect := []
  deriving DecidableEq, Repr

namespace Catalog

/-- Puts an effect in its place, over the one of the same id if there is one. -/
def place (e : Effect) : List Effect → List Effect
  | [] => [e]
  | x :: xs =>
    if e.id < x.id then e :: x :: xs
    else if e.id = x.id then e :: xs
    else x :: place e xs

/-- Registers an effect; an unusable one is skipped. -/
def insert (c : Catalog) (e : Effect) : Catalog :=
  if e.usable then ⟨place e c.entries⟩ else c

def ofList (es : List Effect) : Catalog := es.foldl insert {}

def find? (c : Catalog) (id : String) : Option Effect := c.entries.find? fun e => e.id == id

def contains (c : Catalog) (id : String) : Bool := (c.find? id).isSome

/-- The registered ids, in order. Strings are ordered by their code points, which is also the order
of their bytes. -/
def ids (c : Catalog) : List String := c.entries.map Effect.id

def size (c : Catalog) : Nat := c.entries.length

def isEmpty (c : Catalog) : Bool := c.entries.isEmpty

end Catalog

end Haptics
