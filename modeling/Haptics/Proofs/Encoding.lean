import Haptics.Config.Basic
import Haptics.Proofs.Reading

/-! Reading back what was written, for every type that has a written form. Types whose values are
always read back are `Lawful`; records get this from their fields. Messages and replies carry values
of their callers, and those have to be of a kind that is read back itself. -/

namespace Haptics

open Document

namespace Json

/-- How deep lists and tables of a text may be nested. -/
def deepest : Nat := 127

/-- A value without floats, in the form in which values are held: whole numbers fit into 64 bits, and
the members of a table stand in the order of their names. -/
structure FloatFree (j : Json) : Prop where
  whole : j.whole = true
  ordered : j.ordered = true

theorem wholeItems_of_forall {items : List Json} (h : ∀ j ∈ items, j.whole = true) :
    wholeItems items = true := by
  induction items with
  | nil => rfl
  | cons j js ih =>
    obtain ⟨hj, hjs⟩ := List.forall_mem_cons.mp h
    rw [wholeItems, hj, ih hjs]
    rfl

theorem whole_obj {members : List (String × Json)} (h : ∀ m ∈ members, m.2.whole = true) :
    (Json.obj members).whole = true := by
  rw [Json.whole]
  induction members with
  | nil => rfl
  | cons m ms ih =>
    obtain ⟨hm, hms⟩ := List.forall_mem_cons.mp h
    rw [wholeMembers, hm, ih hms]
    rfl

end Json

namespace Wire

open Lawful

/-! ## Numbers, lists and names -/

instance : Lawful Int64 where
  whole i := by
    have := i.le_toInt
    have := i.toInt_lt
    simp only [encode, Json.int64, Json.ofInt, Json.whole, Json.Number.whole, Bool.and_eq_true,
      decide_eq_true_eq]
    omega
  present _ := rfl
  decode _ i := by
    have hi := integer?_of_mem i.minValue_le_toInt i.toInt_le
    exact (congrArg (Option.map Int64.ofInt) hi).trans (congrArg some (Int64.ofInt_toInt i))

section List
variable {α : Type} [Wire α] [Lawful α]

theorem decode_items (δ : Dialect) (as : List α) :
    (Json.documents (as.map encode)).mapM (decode? δ) = some as := by
  induction as with
  | nil => rfl
  | cons a as ih =>
    rw [List.map_cons, Json.documents, List.mapM_cons, decode δ a, ih]
    rfl

instance : Lawful (List α) where
  whole as := by
    refine Json.wholeItems_of_forall fun j hj => ?_
    obtain ⟨a, -, rfl⟩ := List.mem_map.mp hj
    exact whole a
  present _ := rfl
  decode := decode_items

end List

instance : Lawful Usage where
  whole _ := rfl
  present _ := rfl
  decode _ u := u.ofName?_name

instance : Lawful Mode where
  whole _ := rfl
  present _ := rfl
  decode _ m := m.ofName?_name

/-! ## Requests -/

/-- The members of a request are read by its kind, if all of them are values. -/
theorem request_document (kind : String) {fields : List Field} {members : List (String × Json)}
    (hk : Request.fields? kind = some fields)
    (hn : ((("type", Json.str kind) :: members).map Prod.fst).Nodup)
    (hv : ∀ m ∈ members, (m.2.document.value? Request.room).isSome)
    (hr : ∀ f ∈ fields, f.presence = .required →
      ((("type", Json.str kind) :: members).lookup f.name).isSome) :
    Request.ofDocument? (Json.obj (("type", .str kind) :: members)).document =
      Request.ofFields? kind (fields.map fun f =>
        ((("type", Json.str kind) :: members).lookup f.name).map Json.document) := by
  have hall : (Json.memberDocuments (("type", Json.str kind) :: members)).all
      fun m => (m.2.value? Request.room).isSome := by
    refine Bool.and_eq_true_iff.mpr ⟨rfl, ?_⟩
    clear hn hr
    induction members with
    | nil => rfl
    | cons m ms ih =>
      obtain ⟨hm, hms⟩ := List.forall_mem_cons.mp hv
      exact Bool.and_eq_true_iff.mpr ⟨hm, ih hms⟩
  have hg := And.intro (allNamed_memberDocuments (("type", Json.str kind) :: members)) hall
  have ht := under_memberDocuments "type" hn
  rw [Json.document, Request.ofDocument?, ht, List.lookup_cons_self]
  simp only [guard, if_pos hg, Option.map_some, Option.toList_some, Json.document, hk]
  change (fields.mapM (Field.inTable? _) >>= fun found => Request.ofFields? kind found) = _
  rw [mapM_inTable? hn hr]
  rfl

instance : Lawful Request where
  whole
    | .time millis => Json.whole_obj (by simp [whole, Json.whole])
    | .preset effectId count => Json.whole_obj (by simp [whole, Json.whole])
  present
    | .time _ => rfl
    | .preset _ _ => rfl
  decode
    | _, .time millis => by
      have hv : ∀ m ∈ [("duration", encode millis)], (m.2.document.value? Request.room).isSome := by
        intro m hm
        rw [List.mem_singleton.mp hm]
        rfl
      have hr := request_document "time" rfl (by simp) hv (by simp [List.lookup_cons])
      refine hr.trans ?_
      simp [List.lookup_cons, Request.ofFields?, decode .json millis]
    | _, .preset effectId count => by
      have hv : ∀ m ∈ [("effectId", encode effectId), ("count", encode count)],
          (m.2.document.value? Request.room).isSome := by
        refine List.forall_mem_cons.mpr ⟨rfl, fun m hm => ?_⟩
        rw [List.mem_singleton.mp hm]
        rfl
      have hr := request_document "preset" rfl (by simp) hv (by simp [List.lookup_cons])
      refine hr.trans ?_
      simp [List.lookup_cons, Request.ofFields?, decode .json effectId, decode .json count]

/-! ## Records -/

instance : Lawful Parameter where
  whole p := Json.whole_obj (by simp [whole])
  present _ := rfl
  decode δ p := by
    change (record? δ [⟨"intensity", .required⟩, ⟨"frequency", .required⟩] (Json.obj
      [("intensity", encode p.intensity), ("frequency", encode p.frequency)]).document >>= _) = _
    rw [record?_document _ (by simp) (by simp [List.lookup_cons])]
    simp [List.lookup_cons, decode δ p.intensity, decode δ p.frequency]

instance : Lawful Context where
  whole c := Json.whole_obj (by simp [whole])
  present _ := rfl
  decode δ c := by
    change (record? δ [⟨"usage", .required⟩, ⟨"parameter", .defaulted⟩] (Json.obj
      [("usage", encode c.usage), ("parameter", encode c.parameter)]).document >>= _) = _
    rw [record?_document _ (by simp) (by simp [List.lookup_cons])]
    simp [List.lookup_cons, field?, decode δ c.usage, decode δ c.parameter]

instance : Lawful Effect where
  whole e := Json.whole_obj (by simp [whole])
  present _ := rfl
  decode δ e := by
    change (record? δ [⟨"id", .required⟩, ⟨"duration_ms", .required⟩] (Json.obj
      [("id", encode e.id), ("duration_ms", encode e.durationMs)]).document >>= _) = _
    rw [record?_document _ (by simp) (by simp [List.lookup_cons])]
    simp [List.lookup_cons, decode δ e.id, decode δ e.durationMs]

instance : Lawful Rejection where
  whole r := Json.whole_obj (by simp [whole])
  present _ := rfl
  decode δ r := by
    change (record? δ [⟨"effect_id", .required⟩, ⟨"usage", .required⟩] (Json.obj
      [("effect_id", encode r.effectId), ("usage", encode r.usage)]).document >>= _) = _
    rw [record?_document _ (by simp) (by simp [List.lookup_cons])]
    simp [List.lookup_cons, decode δ r.effectId, decode δ r.usage]

instance : Lawful Arbitration where
  whole a := Json.whole_obj (by simp [whole])
  present _ := rfl
  decode δ a := by
    change (record? δ [⟨"incoming_repeat_wins", .defaulted⟩, ⟨"lock_repeating_presets", .defaulted⟩,
      ⟨"protected_usages", .defaulted⟩, ⟨"lowest_priority_usages", .defaulted⟩] (Json.obj
      [("incoming_repeat_wins", encode a.repeatWins),
        ("lock_repeating_presets", encode a.lockRepeating), ("protected_usages", encode a.guarded),
        ("lowest_priority_usages", encode a.lowest)]).document >>= _) = _
    rw [record?_document _ (by simp) (by simp [List.lookup_cons])]
    simp [List.lookup_cons, field?, decode δ a.repeatWins, decode δ a.lockRepeating,
      decode δ a.guarded, decode δ a.lowest]

instance : Lawful Limits where
  whole l := Json.whole_obj (by simp [whole])
  present _ := rfl
  decode δ l := by
    change (record? δ [⟨"max_duration_ms", .defaulted⟩, ⟨"command_buffer", .defaulted⟩] (Json.obj
      [("max_duration_ms", encode l.maxDurationMs),
        ("command_buffer", encode l.commandBuffer)]).document >>= _) = _
    rw [record?_document _ (by simp) (by simp [List.lookup_cons])]
    simp [List.lookup_cons, field?, decode δ l.maxDurationMs, decode δ l.commandBuffer]

end Wire

/-! ## Configurations -/

namespace Config

open Wire Lawful

def members (c : Config) : List (String × Json) :=
  [("limits", encode c.limits), ("arbitration", encode c.arbitration),
    ("permission", .obj [("vibrate_granted", encode c.granted)]),
    ("actuator", .obj [("rejected", encode c.rejected)]), ("effects", encode c.effects)]

theorem encode_eq (c : Config) : encode c = .obj c.members := rfl

theorem onlyKey?_document {α : Type} [Wire α] [Lawful α] (δ : Dialect) (name : String)
    (default a : α) :
    onlyKey? δ name default (some (Json.obj [(name, encode a)]).document) = some a := by
  have hr : record? δ [⟨name, .defaulted⟩] (Json.obj [(name, encode a)]).document = _ :=
    record?_document δ (by simp) (by simp)
  rw [onlyKey?, hr]
  simp [field?, decode δ a]

/-- A configuration is read from its sections in any order. -/
theorem decode_members (δ : Dialect) (c : Config) {members : List (String × Json)}
    (hn : (members.map Prod.fst).Nodup) (hl : ∀ name, members.lookup name = c.members.lookup name) :
    decode? δ (Json.obj members).document = some c := by
  change (record? δ [⟨"limits", .defaulted⟩, ⟨"arbitration", .defaulted⟩, ⟨"permission", .defaulted⟩,
    ⟨"actuator", .defaulted⟩, ⟨"effects", .defaulted⟩] (Json.obj members).document >>= _) = _
  rw [record?_document δ hn (by simp)]
  simp [hl, Config.members, List.lookup_cons, field?, onlyKey?_document, decode δ c.limits,
    decode δ c.arbitration, decode δ c.effects]

instance : Lawful Config where
  whole c := by
    have hg : (Json.obj [("vibrate_granted", encode c.granted)]).whole = true :=
      Json.whole_obj (by simp [whole])
    have hr : (Json.obj [("rejected", encode c.rejected)]).whole = true :=
      Json.whole_obj (by simp [whole])
    rw [encode_eq]
    exact Json.whole_obj (by simp [members, whole, hg, hr])
  present _ := rfl
  decode δ c := decode_members δ c (by simp) fun _ => rfl

end Config

/-! ## Messages and replies -/

namespace Line

open Wire

namespace Message
variable {m : Message}

theorem mapM_value? {items : List Json} {room : Nat} (h : ∀ j ∈ items, j.FloatFree)
    (hd : Json.itemsDepth items ≤ room) :
    (Json.documents items).mapM (value? room) = some items := by
  induction items with
  | nil => rfl
  | cons j js ih =>
    obtain ⟨hj, hjs⟩ := List.forall_mem_cons.mp h
    rw [Json.itemsDepth] at hd
    rw [Json.documents, List.mapM_cons, value?_document j room hj.ordered (by omega),
      ih hjs (by omega)]
    rfl

theorem encode_whole (h : ∀ j ∈ m.args, j.FloatFree) : (encode m).whole = true := by
  have hid : (encode m.id).whole = true := whole_option m.id
  have hop : (encode m.op).whole = true := Lawful.whole m.op
  have hargs : (Json.arr m.args).whole = true :=
    Json.wholeItems_of_forall fun j hj => (h j hj).whole
  exact Json.whole_obj (by simp [hid, hop, hargs])

/-- The arguments stand two levels below their message. -/
theorem args_depth (hd : (encode m).depth ≤ Json.deepest) : Json.itemsDepth m.args ≤ room := by
  have he : encode m = .obj [("id", encode m.id), ("op", encode m.op), ("args", .arr m.args)] := rfl
  rw [he] at hd
  simp only [Json.depth, Json.membersDepth, Json.deepest] at hd
  rw [room]
  omega

theorem decode (h : ∀ j ∈ m.args, j.FloatFree) (hd : (encode m).depth ≤ Json.deepest) :
    decode? .json (encode m).document = some m := by
  have hid : field? .json none (some (encode m.id).document) = some m.id := decode_option .json m.id
  have hargs : args? (some (Json.arr m.args).document) = some m.args :=
    mapM_value? h (args_depth hd)
  change (record? .json [⟨"id", .defaulted⟩, ⟨"op", .required⟩, ⟨"args", .defaulted⟩] (Json.obj
    [("id", encode m.id), ("op", encode m.op), ("args", .arr m.args)]).document >>= _) = _
  rw [record?_document _ (by simp) (by simp [List.lookup_cons])]
  simp [List.lookup_cons, hid, hargs, Lawful.decode .json m.op]

end Message

/-- The result stands one level below its reply. -/
theorem Reply.plain_of_depth {r : Reply} (h : ∀ j, r.result = some j → j.FloatFree ∧ j.isNull = false)
    (hd : (encode r).depth ≤ Json.deepest) : r.Plain := by
  intro j hj
  obtain ⟨hf, hn⟩ := h j hj
  refine ⟨⟨hf.whole, hf.ordered, ?_⟩, hn⟩
  rw [encode_eq, members, hj] at hd
  simp only [Option.map_some, Option.toList_some, List.cons_append, List.nil_append, Json.depth,
    Json.membersDepth, Json.deepest] at hd
  rw [room]
  omega

end Line

/-! ## Reading undoes writing -/

theorem Wire.ofText?_text_of_lawful {α : Type} [Wire α] [Lawful α] (a : α) :
    ofText? α (text a) = some a := ofText?_text (Lawful.whole a) (Lawful.decode .json a)

/-- **Reading undoes writing.** The text of a request, a usage, a mode, an adjustment, a context, an
effect, a rejection, the rules of arbitration, an error or a configuration is read as the value it
was written from, whatever numbers and strings are in it. So is the text of a message or a reply, if
the values it carries are free of floats, its result is not `null` and it is not nested deeper than
can be read. -/
theorem text_read_back :
    (∀ r : Request, Wire.ofText? Request (Wire.text r) = some r) ∧
    (∀ u : Usage, Wire.ofText? Usage (Wire.text u) = some u) ∧
    (∀ m : Mode, Wire.ofText? Mode (Wire.text m) = some m) ∧
    (∀ p : Parameter, Wire.ofText? Parameter (Wire.text p) = some p) ∧
    (∀ c : Context, Wire.ofText? Context (Wire.text c) = some c) ∧
    (∀ e : Effect, Wire.ofText? Effect (Wire.text e) = some e) ∧
    (∀ r : Rejection, Wire.ofText? Rejection (Wire.text r) = some r) ∧
    (∀ a : Arbitration, Wire.ofText? Arbitration (Wire.text a) = some a) ∧
    (∀ s : Shape, Wire.ofText? Shape (Wire.text s) = some s) ∧
    (∀ c : Config, Wire.ofText? Config (Wire.text c) = some c) ∧
    (∀ m : Line.Message, (∀ j ∈ m.args, j.FloatFree) → (Wire.encode m).depth ≤ Json.deepest →
      Wire.ofText? Line.Message (Wire.text m) = some m) ∧
    (∀ r : Line.Reply, (∀ j, r.result = some j → j.FloatFree ∧ j.isNull = false) →
      (Wire.encode r).depth ≤ Json.deepest → Wire.ofText? Line.Reply (Wire.text r) = some r) := by
  refine ⟨Wire.ofText?_text_of_lawful, Wire.ofText?_text_of_lawful, Wire.ofText?_text_of_lawful,
    Wire.ofText?_text_of_lawful, Wire.ofText?_text_of_lawful, Wire.ofText?_text_of_lawful,
    Wire.ofText?_text_of_lawful, Wire.ofText?_text_of_lawful, Wire.ofText?_text_of_lawful,
    Wire.ofText?_text_of_lawful, fun m h hd => ?_, fun r h hd => ?_⟩
  · exact Wire.ofText?_text (Line.Message.encode_whole h) (Line.Message.decode h hd)
  · exact (Line.Reply.plain_of_depth h hd).ofText?_text

/-- Quotes, a backslash, control characters and a character of four bytes in names and strings, and
the numbers at the ends of their ranges. -/
theorem text_read_back_sample :
    let j : Json := .obj [("\"\n\x00", .arr [.num (.int (-9223372036854775808)), .null]),
      ("\\😀\x7f", .num (.int 18446744073709551615))]
    let m : Line.Message := ⟨some 18446744073709551615, "vibrate\x1f", [j]⟩
    let r : Line.Reply := ⟨none, true, some j, none⟩
    j.FloatFree ∧ j.isNull = false ∧
      (Wire.encode m).depth ≤ Json.deepest ∧ (Wire.encode r).depth ≤ Json.deepest ∧
      Wire.ofText? Line.Message (Wire.text m) = some m ∧
      Wire.ofText? Line.Reply (Wire.text r) = some r := by
  intro j m r
  obtain ⟨-, -, -, -, -, -, -, -, -, -, hm, hr⟩ := text_read_back
  have hj : j.FloatFree := ⟨by decide, by decide⟩
  have hn : j.isNull = false := rfl
  have hmd : (Wire.encode m).depth ≤ Json.deepest := by decide
  have hrd : (Wire.encode r).depth ≤ Json.deepest := by decide
  refine ⟨hj, hn, hmd, hrd, hm m (fun i hi => ?_) hmd, hr r (fun i hi => ?_) hrd⟩
  · rw [List.mem_singleton.mp hi]
    exact hj
  · cases hi
    exact ⟨hj, hn⟩

end Haptics
