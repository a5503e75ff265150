import Mathlib.Data.String.Basic
import Haptics.Line.Message
import Haptics.Proofs.Scanning

/-! Reading back what was written. The words of a document lead the reader to it, and a value is
written in the words of its document; the document has the value again, if its tables are in order and
it is not nested too deeply. -/

namespace Haptics

namespace Document

/-! ## From words to documents -/

mutual

/-- The words that a document is written in. -/
def words : Document → List Json.Token
  | .null => [.null]
  | .bool b => [.bool b]
  | .num n => [.num n]
  | .str s => [.str s]
  | .list items => .openList :: itemWords items ++ [.closeList]
  | .table members => .openTable :: memberWords members ++ [.closeTable]

def itemWords : List Document → List Json.Token
  | [] => []
  | [d] => d.words
  | d :: ds => d.words ++ .comma :: itemWords ds

def memberWords : List (Option String × Document) → List Json.Token
  | [] => []
  | [(name, d)] => .str name :: .colon :: d.words
  | (name, d) :: ms => .str name :: .colon :: d.words ++ .comma :: memberWords ms

end

end Document

namespace Json

namespace Reader

open Document

/-- No value begins with the end of a list. -/
theorem foldlM_itemOrEnd (fs : List Frame) {items : List Document} (h : items ≠ []) :
    (itemWords items).foldlM step (fs, .itemOrEnd) = (itemWords items).foldlM step (fs, .item) := by
  have hd (d : Document) (rest : List Token) : (d.words ++ rest).foldlM step (fs, .itemOrEnd) =
      (d.words ++ rest).foldlM step (fs, .item) := by
    cases d <;> rfl
  match items with
  | [] => exact absurd rfl h
  | [d] => simpa [itemWords] using hd d []
  | d :: d' :: ds => exact hd d _

/-- No name is the end of a table. -/
theorem foldlM_nameOrEnd (fs : List Frame) {members : List (Option String × Document)}
    (h : members ≠ []) : (memberWords members).foldlM step (fs, .nameOrEnd) =
      (memberWords members).foldlM step (fs, .name) :=
  match members with
  | [] => absurd rfl h
  | [_] | _ :: _ :: _ => rfl

mutual

/-- The words of a document put it where a value was expected. -/
theorem foldlM_words : ∀ (d : Document) (fs : List Frame),
    d.words.foldlM step (fs, .item) = place d fs
  | .null, fs | .bool _, fs | .num _, fs | .str _, fs => by
    simp only [words, List.foldlM_cons, List.foldlM_nil, step, value, bind_pure]
  | .list items, fs => by
    have ho : (Document.list items).words.foldlM step (fs, .item) =
      (itemWords items ++ [Token.closeList]).foldlM step (.list [] :: fs, .itemOrEnd) := rfl
    rw [ho, List.foldlM_append]
    by_cases h : items = []
    · subst h
      exact bind_pure (place (.list []) fs)
    · rw [foldlM_itemOrEnd _ h, foldlM_items items h [] fs]
      simp [step, close]
  | .table members, fs => by
    have ho : (Document.table members).words.foldlM step (fs, .item) =
      (memberWords members ++ [Token.closeTable]).foldlM step (.table [] :: fs, .nameOrEnd) := rfl
    rw [ho, List.foldlM_append]
    by_cases h : members = []
    · subst h
      exact bind_pure (place (.table []) fs)
    · rw [foldlM_nameOrEnd _ h, foldlM_members members h [] fs]
      simp [step, close]

theorem foldlM_items : ∀ items : List Document, items ≠ [] →
    ∀ (done : List Document) (fs : List Frame),
    (itemWords items).foldlM step (.list done :: fs, .item) =
      some (.list (items.reverse ++ done) :: fs, .more)
  | [], h, _, _ => absurd rfl h
  | [d], _, done, fs => foldlM_words d (.list done :: fs)
  | d :: d' :: ds, _, done, fs => by
    have hd := foldlM_words d (.list done :: fs)
    have hds := foldlM_items (d' :: ds) (List.cons_ne_nil d' ds) (d :: done) fs
    have ht : itemWords (d :: d' :: ds) = d.words ++ .comma :: itemWords (d' :: ds) := rfl
    rw [ht, List.foldlM_append, hd]
    simp only [place, List.foldlM_cons, step, Option.bind_eq_bind, Option.bind_some, hds]
    simp

theorem foldlM_members : ∀ members : List (Option String × Document), members ≠ [] →
    ∀ (done : List (Option String × Document)) (fs : List Frame),
    (memberWords members).foldlM step (.table done :: fs, .name) =
      some (.table (members.reverse ++ done) :: fs, .more)
  | [], h, _, _ => absurd rfl h
  | [(name, d)], _, done, fs => foldlM_words d (.member done name :: fs)
  | (name, d) :: m :: ms, _, done, fs => by
    have hd := foldlM_words d (.member done name :: fs)
    have hms := foldlM_members (m :: ms) (List.cons_ne_nil m ms) ((name, d) :: done) fs
    have ht : memberWords ((name, d) :: m :: ms) =
      .str name :: .colon :: d.words ++ .comma :: memberWords (m :: ms) := rfl
    rw [ht]
    simp only [List.cons_append, List.foldlM_cons, List.foldlM_append, step, Option.bind_eq_bind,
      Option.bind_some, hd, hms, place]
    simp

end

theorem document?_words (d : Document) : document? d.words = some d := by
  rw [document?, foldlM_words]
  rfl

end Reader

mutual

/-- A value is written in the words of its document. -/
theorem tokens_eq_words : ∀ j : Json, j.tokens = j.document.words
  | .null | .bool _ | .num _ | .str _ => rfl
  | .arr items => by rw [tokens, document, Document.words, itemTokens_eq_words items]
  | .obj members => by rw [tokens, document, Document.words, memberTokens_eq_words members]

theorem itemTokens_eq_words : ∀ items : List Json,
    itemTokens items = Document.itemWords (documents items)
  | [] => rfl
  | [j] => tokens_eq_words j
  | j :: j' :: js => by
    have ht : itemTokens (j :: j' :: js) = j.tokens ++ .comma :: itemTokens (j' :: js) := rfl
    rw [ht, tokens_eq_words j, itemTokens_eq_words (j' :: js)]
    rfl

theorem memberTokens_eq_words : ∀ members : List (String × Json),
    memberTokens members = Document.memberWords (memberDocuments members)
  | [] => rfl
  | [(name, j)] => by
    rw [memberTokens, tokens_eq_words j]
    rfl
  | (name, j) :: m :: ms => by
    have ht : memberTokens ((name, j) :: m :: ms) =
      .str (some name) :: .colon :: j.tokens ++ .comma :: memberTokens (m :: ms) := rfl
    rw [ht, tokens_eq_words j, memberTokens_eq_words (m :: ms)]
    rfl

end

/-- A text that has the words of a document is read as that document, whatever its layout. -/
theorem read?_of_spread {s : String} {d : Document} (h : Token.Spread d.words s.toList) :
    read? s = some d := by
  rw [read?, h.spells.scan?]
  exact Reader.document?_words d

/-- A written value is read as its document. -/
theorem read?_text {j : Json} (h : j.whole = true) : read? j.text = some j.document :=
  read?_of_spread (tokens_eq_words j ▸ spread_text h)

/-! ## From documents to values -/

mutual

/-- How deep lists and tables are nested. -/
def depth : Json → Nat
  | .null | .bool _ | .num _ | .str _ => 0
  | .arr items => itemsDepth items + 1
  | .obj members => membersDepth members + 1

def itemsDepth : List Json → Nat
  | [] => 0
  | j :: js => max j.depth (itemsDepth js)

def membersDepth : List (String × Json) → Nat
  | [] => 0
  | (_, j) :: ms => max j.depth (membersDepth ms)

end

mutual

/-- Whether the members of every table stand in the order of their names, each once. -/
def ordered : Json → Bool
  | .null | .bool _ | .num _ | .str _ => true
  | .arr items => itemsOrdered items
  | .obj members => (members.map Prod.fst).Pairwise (· < ·) && membersOrdered members

def itemsOrdered : List Json → Bool
  | [] => true
  | j :: js => j.ordered && itemsOrdered js

def membersOrdered : List (String × Json) → Bool
  | [] => true
  | (_, j) :: ms => j.ordered && membersOrdered ms

end

/-- A value that is read back as it was written, where values may be nested `room` deep. -/
structure Fits (j : Json) (room : Nat) : Prop where
  whole : j.whole = true
  ordered : j.ordered = true
  depth : j.depth ≤ room

theorem fits_strs (ids : List String) (room : Nat) : (Json.arr (ids.map .str)).Fits (room + 1) := by
  have hitems : wholeItems (ids.map .str) = true ∧ itemsOrdered (ids.map .str) = true ∧
      itemsDepth (ids.map .str) = 0 := by
    induction ids with
    | nil => exact ⟨rfl, rfl, rfl⟩
    | cons id ids ih =>
      obtain ⟨hw, ho, hd⟩ := ih
      exact ⟨hw, ho, (Nat.max_eq_right (Nat.zero_le _)).trans hd⟩
  obtain ⟨hw, ho, hd⟩ := hitems
  exact ⟨hw, ho, by rw [Json.depth, hd]; omega⟩

end Json

namespace Document

open Json

theorem insertMember_last {name : String} (j : Json) {done : List (String × Json)}
    (h : ∀ m ∈ done, m.1 < name) : insertMember name j done = done ++ [(name, j)] := by
  induction done with
  | nil => rfl
  | cons m ms ih =>
    obtain ⟨hm, hms⟩ := List.forall_mem_cons.mp h
    rw [insertMember, if_neg hm.asymm, if_neg hm.ne', ih hms]
    rfl

mutual

/-- A document of a value has that value, if there is room for it. -/
theorem value?_document : ∀ (j : Json) (room : Nat), j.ordered = true → j.depth ≤ room →
    j.document.value? room = some j
  | .null, _, _, _ | .bool _, _, _, _ | .num _, _, _, _ | .str _, _, _, _ => rfl
  | .arr items, room, ho, hd => by
    rw [Json.depth] at hd
    have hv := values?_documents items (room - 1) ho (by omega)
    rw [Json.document, value?, if_neg (by omega), hv]
    rfl
  | .obj members, room, ho, hd => by
    rw [Json.depth] at hd
    simp only [Json.ordered, Bool.and_eq_true, decide_eq_true_eq] at ho
    have hv := members?_documents members (room - 1) [] ho.1 ho.2 (by omega)
    rw [Json.document, value?, if_neg (by omega), hv]
    rfl

theorem values?_documents : ∀ (items : List Json) (room : Nat), itemsOrdered items = true →
    itemsDepth items ≤ room → values? room (documents items) = some items
  | [], _, _, _ => rfl
  | j :: js, room, ho, hd => by
    obtain ⟨hj, hjs⟩ := Bool.and_eq_true_iff.mp ho
    rw [itemsDepth] at hd
    rw [documents, values?, value?_document j room hj (by omega),
      values?_documents js room hjs (by omega)]
    rfl

theorem members?_documents : ∀ (members : List (String × Json)) (room : Nat)
    (done : List (String × Json)), ((done ++ members).map Prod.fst).Pairwise (· < ·) →
    membersOrdered members = true → membersDepth members ≤ room →
    members? room done (memberDocuments members) = some (done ++ members)
  | [], _, done, _, _, _ => by rw [List.append_nil]; rfl
  | (name, j) :: ms, room, done, hs, ho, hd => by
    obtain ⟨hj, hms⟩ := Bool.and_eq_true_iff.mp ho
    rw [membersDepth] at hd
    have hlast : ∀ m ∈ done, m.1 < name := fun m hm => by
      rw [List.map_append, List.pairwise_append] at hs
      exact hs.2.2 m.1 (List.mem_map_of_mem hm) name (by simp)
    rw [memberDocuments, members?, value?_document j room hj (by omega)]
    simp only [Option.bind_eq_bind, Option.bind_some, insertMember_last j hlast]
    rw [members?_documents ms room (done ++ [(name, j)]) (by simpa using hs) hms (by omega)]
    simp

end

/-! ## Records -/

theorem allNamed_memberDocuments (members : List (String × Json)) :
    allNamed (memberDocuments members) = true := by
  induction members with
  | nil => rfl
  | cons m ms ih => exact ih

theorem under_append (name : String) (ms ms' : List (Option String × Document)) :
    under name (ms ++ ms') = under name ms ++ under name ms' := by
  rw [under, List.filter_append, List.map_append]
  rfl

theorem under_memberDocuments (name : String) {members : List (String × Json)}
    (h : (members.map Prod.fst).Nodup) :
    under name (memberDocuments members) = ((members.lookup name).map Json.document).toList := by
  induction members with
  | nil => rfl
  | cons m ms ih =>
    obtain ⟨n, j⟩ := m
    obtain ⟨hn, hms⟩ := List.nodup_cons.mp h
    have hi := ih hms
    by_cases he : name = n
    · subst he
      have hl : ms.lookup name = none := List.lookup_eq_none_iff.mpr fun m hm => by
        have hne : m.1 ≠ name := fun hne => hn (List.mem_map.mpr ⟨m, hm, hne⟩)
        simpa using hne.symm
      rw [hl] at hi
      simp only [under, memberDocuments, List.filter_cons, beq_self_eq_true, ↓reduceIte,
        List.map_cons, List.lookup_cons_self, Option.map_some, Option.toList_some]
      exact congrArg (j.document :: ·) hi
    · have hb : (some n == some name) = false := by simpa using Ne.symm he
      have hl : ((n, j) :: ms).lookup name = ms.lookup name := by
        simp [List.lookup_cons, beq_eq_false_iff_ne.mpr he]
      rw [hl, ← hi]
      simp [under, memberDocuments, hb]

/-- Each field finds its own member, or none if it may be absent. -/
theorem mapM_inTable? {fields : List Field} {members : List (String × Json)}
    (hn : (members.map Prod.fst).Nodup)
    (hr : ∀ f ∈ fields, f.presence = .required → (members.lookup f.name).isSome) :
    fields.mapM (Field.inTable? (memberDocuments members)) =
      some (fields.map fun f => (members.lookup f.name).map Json.document) := by
  have hf (f : Field) (h : f.presence = .required → (members.lookup f.name).isSome) :
      f.inTable? (memberDocuments members) = some ((members.lookup f.name).map Json.document) := by
    rw [Field.inTable?, under_memberDocuments f.name hn]
    cases hl : members.lookup f.name with
    | some j => rfl
    | none =>
      have hp : f.presence ≠ .required := fun hp => by simpa [hl] using h hp
      exact if_neg hp
  clear hn
  induction fields with
  | nil => rfl
  | cons f fs ih =>
    obtain ⟨h, hs⟩ := List.forall_mem_cons.mp hr
    rw [List.mapM_cons, hf f h, ih hs]
    rfl

/-- The fields of a record that is written as a table. -/
theorem record?_document (δ : Dialect) {fields : List Field} {members : List (String × Json)}
    (hn : (members.map Prod.fst).Nodup)
    (hr : ∀ f ∈ fields, f.presence = .required → (members.lookup f.name).isSome) :
    record? δ fields (Json.obj members).document =
      some (fields.map fun f => (members.lookup f.name).map Json.document) := by
  rw [Json.document, record?, allNamed_memberDocuments, if_pos rfl]
  exact mapM_inTable? hn hr

end Document

/-! ## Types -/

namespace Wire

open Document

/-- Whatever is written of the type is read back, in every dialect. -/
class Lawful (α : Type) [Wire α] : Prop where
  whole : ∀ a : α, (encode a).whole = true
  present : ∀ a : α, (encode a).isNull = false
  decode : ∀ (δ : Dialect) (a : α), decode? δ (encode a).document = some a

open Lawful

theorem ofText?_text {α : Type} [Wire α] {a : α} (hw : (encode a).whole = true)
    (hd : decode? .json (encode a).document = some a) : ofText? α (text a) = some a := by
  rw [ofText?, text, Json.read?_text hw]
  exact hd

theorem integer?_of_mem {low high i : Int} (h : low ≤ i) (h' : i ≤ high) :
    integer? low high (Json.ofInt i).document = some i := if_pos ⟨h, h'⟩

instance : Lawful Bool := ⟨fun _ => rfl, fun _ => rfl, fun _ _ => rfl⟩

instance : Lawful String := ⟨fun _ => rfl, fun _ => rfl, fun _ _ => rfl⟩

instance : Lawful Int32 where
  whole i := by
    have := i.le_toInt
    have := i.toInt_lt
    simp only [encode, Json.int32, Json.ofInt, Json.whole, Json.Number.whole, Bool.and_eq_true,
      decide_eq_true_eq]
    omega
  present _ := rfl
  decode _ i := by
    have hi := integer?_of_mem i.minValue_le_toInt i.toInt_le
    exact (congrArg (Option.map Int32.ofInt) hi).trans (congrArg some (Int32.ofInt_toInt i))

instance : Lawful UInt64 where
  whole n := by
    have := n.toNat_lt
    simp only [encode, Json.uint64, Json.ofNat, Json.whole, Json.Number.whole, Bool.and_eq_true,
      decide_eq_true_eq]
    omega
  present _ := rfl
  decode _ n := by
    have hlt := n.toNat_lt
    have hi : integer? 0 (UInt64.size - 1) (Json.ofInt n.toNat).document = some (n.toNat : Int) :=
      integer?_of_mem (by omega) (by simp only [UInt64.size]; omega)
    exact (congrArg (Option.map fun i => UInt64.ofNat i.toNat) hi).trans
      (congrArg some (UInt64.ofNat_toNat))

section Option
variable {α : Type} [Wire α]

theorem decode_of_present (δ : Dialect) {j : Json} (h : j.isNull = false) :
    (decode? δ j.document : Option (Option α)) = (decode? δ j.document : Option α).map some := by
  cases j with
  | null => cases h
  | bool | num | str | arr | obj => rfl

variable [Lawful α]

theorem whole_option (o : Option α) : (encode o).whole = true := by
  cases o with
  | none => rfl
  | some a => exact whole a

theorem decode_option (δ : Dialect) (o : Option α) : decode? δ (encode o).document = some o := by
  cases o with
  | none => rfl
  | some a =>
    refine (decode_of_present δ (present a)).trans ?_
    rw [decode δ a]
    rfl

end Option

instance : Lawful Shape where
  whole s := by
    change ((encode s.code).whole && ((encode s.message).whole && true)) = true
    rw [whole s.code, whole s.message]
    rfl
  present _ := rfl
  decode δ s := by
    change (record? δ [⟨"code", .required⟩, ⟨"message", .required⟩]
      (Json.obj [("code", encode s.code), ("message", encode s.message)]).document >>= _) = _
    rw [record?_document _ (by simp) (by simp [List.lookup_cons])]
    simp [List.lookup_cons, decode δ s.code, decode δ s.message]

end Wire

namespace Line.Reply

open Document Wire

/-- A reply whose result, if it has one, is read back as it was written. A result `null` is not: it is
read as none. -/
def Plain (r : Reply) : Prop := ∀ j, r.result = some j → j.Fits room ∧ j.isNull = false

/-- What is written of a reply. -/
def members (r : Reply) : List (String × Json) :=
  [("id", encode r.id), ("ok", encode r.ok)] ++ (r.result.map fun j => ("result", j)).toList ++
    (r.error.map fun e => ("error", encode e)).toList

theorem encode_eq (r : Reply) : encode r = .obj r.members := rfl

theorem members_nodup (r : Reply) : (r.members.map Prod.fst).Nodup := by
  obtain ⟨id, ok, _ | result, _ | error⟩ := r <;> simp [members]

theorem lookup_result (r : Reply) : r.members.lookup "result" = r.result := by
  obtain ⟨id, ok, _ | result, _ | error⟩ := r <;> simp [members, List.lookup_cons]

theorem lookup_error (r : Reply) : r.members.lookup "error" = r.error.map encode := by
  obtain ⟨id, ok, _ | result, _ | error⟩ := r <;> simp [members, List.lookup_cons]

theorem result?_document {o : Option Json}
    (h : ∀ j, o = some j → j.Fits room ∧ j.isNull = false) :
    result? (o.map Json.document) = some o := by
  cases o with
  | none => rfl
  | some j =>
    obtain ⟨hf, hp⟩ := h j rfl
    have hn : result? (some j.document) = (j.document.value? room).map some := by
      cases j with
      | null => cases hp
      | bool | num | str | arr | obj => rfl
    rw [Option.map_some, hn, value?_document j room hf.ordered hf.depth]
    rfl

theorem error?_document (o : Option Shape) :
    field? .json none ((o.map encode).map Json.document) = some o := by
  cases o with
  | none => rfl
  | some e => exact decode_option .json (some e)

namespace Plain
variable {r : Reply}

theorem encode_whole (h : r.Plain) : (encode r).whole = true := by
  have hid : (encode r.id).whole = true := whole_option r.id
  have hok : (encode r.ok).whole = true := Lawful.whole r.ok
  have herror (e : Shape) : (encode e).whole = true := Lawful.whole e
  rw [encode_eq, Json.whole, members]
  cases hj : r.result with
  | none => cases r.error <;> simp [Json.wholeMembers, hid, hok, herror]
  | some j =>
    have hresult := (h j hj).1.whole
    cases r.error <;> simp [Json.wholeMembers, hid, hok, herror, hresult]

theorem decode (h : r.Plain) : decode? .json (encode r).document = some r := by
  have hid : field? .json none (some (encode r.id).document) = some r.id := decode_option .json r.id
  have hok := Lawful.decode .json r.ok
  have hresult := result?_document h
  have hli : r.members.lookup "id" = some (encode r.id) := rfl
  have hlo : r.members.lookup "ok" = some (encode r.ok) := rfl
  change (record? .json [⟨"id", .optional⟩, ⟨"ok", .required⟩, ⟨"result", .optional⟩,
      ⟨"error", .optional⟩] (Json.obj r.members).document >>= _) = _
  rw [record?_document _ r.members_nodup (by simp [members])]
  simp only [List.map_cons, List.map_nil, hli, hlo, lookup_result, lookup_error, Option.map_some,
    Option.bind_eq_bind, Option.bind_some, hid, hok, hresult, error?_document]
  rfl

/-- A plain reply is read back as it was written. -/
theorem ofText?_text (h : r.Plain) : ofText? Reply (text r) = some r :=
  Wire.ofText?_text h.encode_whole h.decode

end Plain

end Line.Reply

end Haptics
