import Haptics.Document.Basic
import Haptics.Json.Token

/-! Reading JSON. The words of a text are taken one by one; lists and tables that are still open lie
on a stack, so a text may be nested as deep as it likes. -/

namespace Haptics.Json

/-- A list or a table that is still open; what it has so far stands last one first. A member waits
for its value. -/
inductive Frame where
  | list (items : List Document)
  | table (members : List (Option String × Document))
  | member (members : List (Option String × Document)) (name : Option String)
  deriving Repr

/-- What may come next. -/
inductive Stage where
  | item
  | itemOrEnd
  | name
  | nameOrEnd
  | colon (name : Option String)
  | more
  | whole (d : Document)
  deriving Repr

namespace Reader

abbrev State := List Frame × Stage

/-- Puts a document where one was expected. -/
def place (d : Document) : List Frame → Option State
  | [] => some ([], .whole d)
  | .list items :: fs => some (.list (d :: items) :: fs, .more)
  | .member members name :: fs => some (.table ((name, d) :: members) :: fs, .more)
  | .table _ :: _ => none

/-- A word where a value has to start. -/
def value (fs : List Frame) : Token → Option State
  | .null => place .null fs
  | .bool b => place (.bool b) fs
  | .num n => place (.num n) fs
  | .str s => place (.str s) fs
  | .openList => some (.list [] :: fs, .itemOrEnd)
  | .openTable => some (.table [] :: fs, .nameOrEnd)
  | _ => none

def close : List Frame → Option State
  | .list items :: fs => place (.list items.reverse) fs
  | .table members :: fs => place (.table members.reverse) fs
  | _ => none

def step : State → Token → Option State
  | (fs, .item), t => value fs t
  | (fs, .itemOrEnd), t => if t = .closeList then close fs else value fs t
  | (fs, .name), .str s => some (fs, .colon s)
  | (fs, .nameOrEnd), .str s => some (fs, .colon s)
  | (fs, .nameOrEnd), .closeTable => close fs
  | (.table members :: fs, .colon name), .colon => some (.member members name :: fs, .item)
  | (.list items :: fs, .more), .comma => some (.list items :: fs, .item)
  | (.table members :: fs, .more), .comma => some (.table members :: fs, .name)
  | (.list items :: fs, .more), .closeList => close (.list items :: fs)
  | (.table members :: fs, .more), .closeTable => close (.table members :: fs)
  | _, _ => none

def finish : State → Option Document
  | ([], .whole d) => some d
  | _ => none

def document? (ts : List Token) : Option Document := ts.foldlM step ([], .item) >>= finish

end Reader

/-- The document that a JSON text stands for. -/
def read? (s : String) : Option Document := Token.scan? s.toList >>= Reader.document?

end Haptics.Json
