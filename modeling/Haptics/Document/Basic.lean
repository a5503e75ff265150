import Haptics.Json.Value

/-! The common shape of what is read from JSON and from configuration files. Here a text has been
taken apart, but not everything in it has to have a value: a number may be out of range and a string
may hold half a character. Such a part does no harm as long as nobody asks for it. -/

namespace Haptics

inductive Document where
  | null
  | bool (b : Bool)
  | num (n : Option Json.Number)
  | str (s : Option String)
  | list (items : List Document)
  | table (members : List (Option String × Document))
  deriving Repr

namespace Document

/-- Where two formats differ in how records and enumerations are read. -/
structure Dialect where
  /-- Whether a record written as a list may have more items than the record has fields. -/
  surplus : Bool
  /-- What may stand beside the name of an enumeration value in a table of one member. -/
  unit : Document → Bool

/-! ## Values -/

/-- Inserts a member in the order of the names, over the one of the same name. -/
def insertMember (name : String) (j : Json) : List (String × Json) → List (String × Json)
  | [] => [(name, j)]
  | (n, i) :: ms =>
    if name < n then (name, j) :: (n, i) :: ms
    else if name = n then (name, j) :: ms
    else (n, i) :: insertMember name j ms

mutual

/-- The document as a value, if every part of it has one and lists and tables are nested at most
`room` deep. The members of a table are put in order, and of several with one name the last one
counts. -/
def value? (room : Nat) : Document → Option Json
  | .null => some .null
  | .bool b => some (.bool b)
  | .num n => n.map .num
  | .str s => s.map .str
  | .list items => if room = 0 then none else (values? (room - 1) items).map .arr
  | .table members => if room = 0 then none else (members? (room - 1) [] members).map .obj

def values? (room : Nat) : List Document → Option (List Json)
  | [] => some []
  | d :: ds => do return (← d.value? room) :: (← values? room ds)

def members? (room : Nat) (done : List (String × Json)) :
    List (Option String × Document) → Option (List (String × Json))
  | [] => some done
  | (name, d) :: ms => do members? room (insertMember (← name) (← d.value? room) done) ms

end

end Document

mutual

/-- A value is a document. -/
def Json.document : Json → Document
  | .null => .null
  | .bool b => .bool b
  | .num n => .num (some n)
  | .str s => .str (some s)
  | .arr items => .list (Json.documents items)
  | .obj members => .table (Json.memberDocuments members)

def Json.documents : List Json → List Document
  | [] => []
  | j :: js => j.document :: Json.documents js

def Json.memberDocuments : List (String × Json) → List (Option String × Document)
  | [] => []
  | (name, j) :: ms => (some name, j.document) :: Json.memberDocuments ms

end

end Haptics
