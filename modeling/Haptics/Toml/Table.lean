import Haptics.Document.Basic

/-! Tables of a configuration file while they are being filled. A table may be opened by a header of
its own or come into being on the way to another one, and how it came into being decides what may
still be put into it. -/

namespace Haptics.Toml

inductive Origin where
  /-- By a header, or in braces. -/
  | declared
  /-- On the way to a header below it; a header of its own may still come. -/
  | implied
  /-- By a dotted key; only dotted keys may add to it. -/
  | dotted
  deriving DecidableEq, Repr

inductive Node where
  | value (d : Document)
  | table (origin : Origin) (members : List (String × Node))
  /-- Tables under one double-bracketed header, last one first. -/
  | tables (items : List (List (String × Node)))
  deriving Repr

abbrev Members := List (String × Node)

namespace Members

/-- Puts a node under a name, in the place of the one that is there. -/
def set (name : String) (n : Node) : Members → Members
  | [] => [(name, n)]
  | (k, m) :: ms => if k = name then (k, n) :: ms else (k, m) :: set name n ms

/-- Changes the table at the end of a path. Tables that are missing come into being; of tables under
one header the last is meant. By a dotted key one does not get into a table that was declared. -/
def change (dotted : Bool) (f : Origin → Members → Option Members) :
    List String → Origin → Members → Option Members
  | [], origin, ms => f origin ms
  | name :: path, _, ms =>
    match ms.lookup name with
    | none =>
      let origin : Origin := if dotted then .dotted else .implied
      (change dotted f path origin []).map fun sub => set name (.table origin sub) ms
    | some (.table origin sub) =>
      if dotted ∧ origin = .declared then none
      else (change dotted f path origin sub).map fun sub => set name (.table origin sub) ms
    | some (.tables (last :: before)) =>
      (change dotted f path .declared last).map fun last => set name (.tables (last :: before)) ms
    | some (.tables []) => none
    | some (.value _) => none

/-- Puts a value under a dotted key, into a table that is being filled. Its name must be free, and a
key with dots has to end in a table that dotted keys have made. -/
def assign (path : List String) (name : String) (d : Document) (ms : Members) : Option Members :=
  change true (fun origin ms =>
    if (path ≠ [] ∧ origin ≠ .dotted) ∨ (ms.lookup name).isSome then none
    else some (set name (.value d) ms)) path .declared ms

/-- Opens a table by its header. -/
def declare (name : String) (ms : Members) : Option Members :=
  match ms.lookup name with
  | none => some (set name (.table .declared []) ms)
  | some (.table .implied sub) => some (set name (.table .declared sub) ms)
  | _ => none

/-- Opens one more table under a double-bracketed header. -/
def append (name : String) (ms : Members) : Option Members :=
  match ms.lookup name with
  | none => some (set name (.tables [[]]) ms)
  | some (.tables items) => some (set name (.tables ([] :: items)) ms)
  | _ => none

end Members

mutual

/-- The table when it is full. -/
def Node.document : Node → Document
  | .value d => d
  | .table _ members => .table (Node.memberDocuments members)
  | .tables items => .list (Node.tableDocuments items [])

def Node.memberDocuments : List (String × Node) → List (Option String × Document)
  | [] => []
  | (name, n) :: ms => (some name, n.document) :: Node.memberDocuments ms

def Node.tableDocuments : List (List (String × Node)) → List Document → List Document
  | [], done => done
  | ms :: items, done => Node.tableDocuments items (.table (Node.memberDocuments ms) :: done)

end

def Members.document (ms : Members) : Document := .table (Node.memberDocuments ms)

end Haptics.Toml
