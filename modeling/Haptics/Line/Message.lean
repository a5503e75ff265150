import Haptics.Wire.Domain

/-! The messages of the line protocol: one request per line in, one reply per line out. -/

namespace Haptics.Line

open Document Wire

/-- A request as it comes in; what its arguments mean depends on the operation. -/
structure Message where
  id : Option UInt64 := none
  op : String
  args : List Json := []
  deriving Repr

/-- A reply carries an error exactly if it is not `ok`. -/
structure Reply where
  id : Option UInt64
  ok : Bool
  result : Option Json := none
  error : Option Shape := none
  deriving Repr

namespace Message

/-- How deep an argument may be nested within its message. -/
def room : Nat := 125

def args? : Option Document → Option (List Json)
  | none => some []
  | some (.list items) => items.mapM (value? room)
  | some _ => none

end Message

namespace Reply

/-- How deep a result may be nested within its reply. -/
def room : Nat := 126

def success (id : Option UInt64) (result : Option Json) : Reply := ⟨id, true, result, none⟩

def failure (id : Option UInt64) (error : Shape) : Reply := ⟨id, false, none, some error⟩

/-- A result that is `null` is none. -/
def result? : Option Document → Option (Option Json)
  | none => some none
  | some .null => some none
  | some d => (d.value? room).map some

end Reply

instance : Wire Message where
  encode m := .obj [("id", encode m.id), ("op", encode m.op), ("args", .arr m.args)]
  decode? δ d := do
    match ← record? δ [⟨"id", .defaulted⟩, ⟨"op", .required⟩, ⟨"args", .defaulted⟩] d with
    | [id, some op, args] => return ⟨← field? δ none id, ← decode? δ op, ← Message.args? args⟩
    | _ => none

instance : Wire Reply where
  encode r := .obj <|
    [("id", encode r.id), ("ok", encode r.ok)] ++
    (r.result.map fun j => ("result", j)).toList ++
    (r.error.map fun e => ("error", encode e)).toList
  decode? δ d := do
    match ← record? δ [⟨"id", .optional⟩, ⟨"ok", .required⟩, ⟨"result", .optional⟩,
      ⟨"error", .optional⟩] d with
    | [id, some ok, result, error] =>
      return ⟨← field? δ none id, ← decode? δ ok, ← Reply.result? result, ← field? δ none error⟩
    | _ => none

end Haptics.Line
