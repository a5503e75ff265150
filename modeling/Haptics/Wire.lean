import Haptics.Document.Record
import Haptics.Json.Reader

/-! Types that are written as JSON and read from documents. -/

namespace Haptics

open Document

class Wire (α : Type) where
  encode : α → Json
  decode? : Dialect → Document → Option α

namespace Wire

/-- What stands for a field that may be absent. -/
def field? [Wire α] (δ : Dialect) (default : α) : Option Document → Option α
  | none => some default
  | some d => decode? δ d

instance : Wire Bool where
  encode := .bool
  decode? _
    | .bool b => some b
    | _ => none

instance : Wire String where
  encode := .str
  decode? _
    | .str s => s
    | _ => none

instance : Wire Int32 where
  encode := .int32
  decode? _ d := (integer? Int32.minValue.toInt Int32.maxValue.toInt d).map Int32.ofInt

instance : Wire Int64 where
  encode := .int64
  decode? _ d := (integer? Int64.minValue.toInt Int64.maxValue.toInt d).map Int64.ofInt

instance : Wire UInt64 where
  encode := .uint64
  decode? _ d := (integer? 0 (UInt64.size - 1) d).map fun i => UInt64.ofNat i.toNat

instance [Wire α] : Wire (List α) where
  encode as := .arr (as.map encode)
  decode? δ
    | .list items => items.mapM (decode? δ)
    | _ => none

instance [Wire α] : Wire (Option α) where
  encode := Json.ofOption encode
  decode? δ
    | .null => some none
    | d => (decode? δ d).map some

/-- A value from its JSON text. -/
def ofText? (α : Type) [Wire α] (s : String) : Option α := Json.read? s >>= decode? .json

def text [Wire α] (a : α) : String := (encode a).text

end Wire

end Haptics
