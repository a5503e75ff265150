import Haptics.Document.Basic

/-! Records in documents. A record is written as a table of its fields in any order, beside members
that mean nothing to it, or as a list of its fields in their own order. -/

namespace Haptics.Document

inductive Presence where
  | required
  /-- May be absent from a table, not from a list. -/
  | optional
  /-- May be absent from a table, and from the end of a list. -/
  | defaulted
  deriving DecidableEq, Repr

structure Field where
  name : String
  presence : Presence := .required
  deriving DecidableEq, Repr

/-- The documents in a table under a name. -/
def under (name : String) (members : List (Option String × Document)) : List Document :=
  (members.filter fun m => m.1 == some name).map Prod.snd

def allNamed (members : List (Option String × Document)) : Bool := members.all fun m => m.1.isSome

/-- A field of a table: it may not be there twice. -/
def Field.inTable? (members : List (Option String × Document)) (f : Field) :
    Option (Option Document) :=
  match under f.name members with
  | [] => if f.presence = .required then none else some none
  | [d] => some (some d)
  | _ => none

/-- Fields by their place. Only fields that may be absent from the end have to follow the last
item. -/
def inList? (surplus : Bool) : List Field → List Document → Option (List (Option Document))
  | [], items => if surplus || items.isEmpty then some [] else none
  | f :: fs, [] => if f.presence = .defaulted then (inList? surplus fs []).map (none :: ·) else none
  | _ :: fs, d :: items => (inList? surplus fs items).map (some d :: ·)

/-- The fields of a record, each with what stands for it. -/
def record? (δ : Dialect) (fields : List Field) : Document → Option (List (Option Document))
  | .table members =>
    if allNamed members then fields.mapM (Field.inTable? members) else none
  | .list items => inList? δ.surplus fields items
  | _ => none

/-- The name of an enumeration value: a string, or a table of one member with that name. -/
def tag? (δ : Dialect) : Document → Option String
  | .str s => s
  | .table [(name, payload)] => if δ.unit payload then name else none
  | _ => none

/-- The whole number in a document, if it lies in the range. -/
def integer? (low high : Int) : Document → Option Int
  | .num (some (.int i)) => if low ≤ i ∧ i ≤ high then some i else none
  | _ => none

namespace Dialect

/-- JSON counts the items of a list, and writes `null` for nothing. -/
def json : Dialect where
  surplus := false
  unit
    | .null => true
    | _ => false

/-- Configuration files do not count the items of a list, and have no `null`. -/
def file : Dialect where
  surplus := true
  unit
    | .list [] => true
    | .table [] => true
    | _ => false

end Dialect

end Haptics.Document
