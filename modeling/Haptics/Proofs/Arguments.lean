import Haptics.Line.Operation
import Haptics.Proofs.Reading

/-! Two readers of one written form. The arguments of an operation are read member by member, with
numbers that may have fractions and members that may be missing; a request on its own is read
strictly. Whatever the strict reader takes, the other one takes as the same request: what a request
is written as is part of everything that is read as that request. -/

namespace Haptics

open Document Wire

/-! ## Members of a value -/

namespace Json
variable {i j : Json}

/-- A value has all members of another, in any order and beside others. -/
def Includes (j i : Json) : Prop := ∀ name k, i.get? name = some k → j.get? name = some k

theorem Includes.rfl : j.Includes j := fun _ _ h => h

theorem includes_obj {members : List (String × Json)} (h : ∀ m ∈ members, j.get? m.1 = some m.2) :
    j.Includes (.obj members) := by
  intro name k hk
  obtain ⟨before, after, heq, -⟩ := List.lookup_eq_some_iff.mp hk
  exact h (name, k) (by rw [heq]; simp)

end Json

namespace Document
variable {members : List (Option String × Document)}

/-- A document without parts has its value however little room there is. -/
theorem value?_of_leaf {d : Document} {j : Json} (h : d.value? 0 = some j) (room : Nat) :
    d.value? room = some j := by
  cases d with
  | list _ => simp [value?] at h
  | table _ => simp [value?] at h
  | _ => exact h

theorem lookup_insertMember (name n : String) (j : Json) (members : List (String × Json)) :
    (insertMember name j members).lookup n = if n = name then some j else members.lookup n := by
  by_cases he : n = name
  · subst he
    rw [if_pos rfl]
    induction members with
    | nil => exact List.lookup_cons_self
    | cons m ms ih =>
      obtain ⟨other, i⟩ := m
      rw [insertMember]
      split
      · exact List.lookup_cons_self
      split
      · exact List.lookup_cons_self
      · next hne => rw [List.lookup_cons, beq_false_of_ne hne, ih]
  · rw [if_neg he]
    have hskip (ms : List (String × Json)) : ((name, j) :: ms).lookup n = ms.lookup n := by
      rw [List.lookup_cons, beq_false_of_ne he]
    induction members with
    | nil => exact hskip []
    | cons m ms ih =>
      obtain ⟨other, i⟩ := m
      rw [insertMember]
      split
      · exact hskip _
      split
      · next heq => rw [hskip, List.lookup_cons, ← heq, beq_false_of_ne he]
      · rw [List.lookup_cons, ih, List.lookup_cons]

/-- Of several members with one name the last one counts. -/
theorem lookup_of_members? {room : Nat} {done found : List (String × Json)} (name : String)
    (h : members? room done members = some found) :
    found.lookup name = (under name members).getLast?.elim (done.lookup name) (value? room) := by
  induction members generalizing done with
  | nil => cases h; rfl
  | cons m ms ih =>
    simp only [members?, Option.bind_eq_bind, Option.bind_eq_some_iff] at h
    obtain ⟨n, hn, j, hj, h⟩ := h
    rw [ih h, lookup_insertMember]
    by_cases he : name = n
    · have hu : under name (m :: ms) = m.2 :: under name ms := by simp [under, hn, he]
      rw [hu, List.getLast?_cons, if_pos he]
      cases (under name ms).getLast? with
      | none => exact hj.symm
      | some d => rfl
    · have hu : under name (m :: ms) = under name ms := by simp [under, hn, Ne.symm he]
      rw [hu, if_neg he]

/-- In a value the first one counts. -/
theorem head?_under (name : String) (members : List (String × Json)) :
    (under name (Json.memberDocuments members)).head? =
      (members.lookup name).map Json.document := by
  induction members with
  | nil => rfl
  | cons m ms ih =>
    obtain ⟨n, j⟩ := m
    by_cases he : name = n
    · simp [under, Json.memberDocuments, he]
    · have hu : under name (Json.memberDocuments ((n, j) :: ms)) =
          under name (Json.memberDocuments ms) := by
        simp [under, Json.memberDocuments, Ne.symm he]
      rw [hu, ih, List.lookup_cons, beq_false_of_ne he]

/-- A value has every document that stands alone under its name in a table and has no parts. -/
def Keeps (members : List (Option String × Document)) (found : Json) : Prop :=
  ∀ name d j, under name members = [d] → d.value? 0 = some j → found.get? name = some j

theorem keeps_memberDocuments (members : List (String × Json)) :
    Keeps (Json.memberDocuments members) (.obj members) := by
  intro name d j hu hj
  have hh := head?_under name members
  rw [hu, List.head?_cons] at hh
  obtain ⟨k, hk, rfl⟩ := Option.map_eq_some_iff.mp hh.symm
  have hkj : k = j := by
    cases k with
    | arr _ => simp [Json.document, value?] at hj
    | obj _ => simp [Json.document, value?] at hj
    | _ => exact Option.some.inj hj
  exact hkj ▸ hk

theorem keeps_of_value? {room : Nat} {found : Json}
    (h : (Document.table members).value? room = some found) : Keeps members found := by
  intro name d j hu hj
  rw [value?] at h
  split at h
  · cases h
  obtain ⟨ms, hms, rfl⟩ := Option.map_eq_some_iff.mp h
  have hl := lookup_of_members? name hms
  rw [hu] at hl
  exact hl.trans (value?_of_leaf hj _)

end Document

/-! ## Numbers and strings -/

namespace Wire

theorem value?_of_integer? {low high i : Int} {d : Document} (h : integer? low high d = some i) :
    d.value? 0 = some (.ofInt i) ∧ low ≤ i ∧ i ≤ high := by
  unfold integer? at h
  split at h
  · split at h
    · cases h
      exact ⟨rfl, ‹_›⟩
    · cases h
  · cases h

theorem value?_of_string {δ : Dialect} {d : Document} {s : String} (h : decode? δ d = some s) :
    d.value? 0 = some (encode s) := by
  cases d with
  | str _ => cases h; rfl
  | _ => cases h

theorem value?_of_int32 {δ : Dialect} {d : Document} {n : Int32} (h : decode? δ d = some n) :
    d.value? 0 = some (encode n) := by
  obtain ⟨i, hi, rfl⟩ := Option.map_eq_some_iff.mp h
  obtain ⟨hv, hlow, hhigh⟩ := value?_of_integer? hi
  have hback := Int32.toInt_ofInt_of_le hlow (Int.lt_add_one_of_le hhigh)
  exact hv.trans (congrArg (some ∘ Json.ofInt) hback.symm)

theorem value?_of_int64 {δ : Dialect} {d : Document} {n : Int64} (h : decode? δ d = some n) :
    d.value? 0 = some (encode n) := by
  obtain ⟨i, hi, rfl⟩ := Option.map_eq_some_iff.mp h
  obtain ⟨hv, hlow, hhigh⟩ := value?_of_integer? hi
  have hback := Int64.toInt_ofInt_of_le hlow (Int.lt_add_one_of_le hhigh)
  exact hv.trans (congrArg (some ∘ Json.ofInt) hback.symm)

end Wire

/-! ## Requests -/

namespace Request
variable {members : List (Option String × Document)} {found : Json} {r : Request}

/-- The reader of requests without a bound on how deep their members may be nested. -/
def ofMembers? (members : List (Option String × Document)) : Option Request := do
  guard (allNamed members)
  match under "type" members with
  | [.str (some kind)] => ofFields? kind (← (← fields? kind).mapM (Field.inTable? members))
  | _ => none

theorem ofDocument?_table (members : List (Option String × Document)) :
    ofDocument? (.table members) =
      if members.all fun m => (m.2.value? room).isSome then ofMembers? members else none := by
  have hguard (p q : Prop) [Decidable p] [Decidable q] (rest : Option Request) :
      (guard (p ∧ q) >>= fun _ => rest) = if q then guard p >>= fun _ => rest else none := by
    by_cases hp : p <;> by_cases hq : q <;> simp [guard, hp, hq]
  exact hguard _ _ _

/-- The fields of a request all have to be there, each once. -/
theorem forall₂_fields {kind : String} {fields : List Field} {read : List (Option Document)}
    (hf : fields? kind = some fields) (h : fields.mapM (Field.inTable? members) = some read) :
    List.Forall₂ (fun f o => ∃ d, o = some d ∧ under f.name members = [d]) fields read := by
  have hrequired : ∀ f ∈ fields, f.presence = .required := by
    unfold fields? at hf
    split at hf <;> cases hf <;> simp
  clear hf
  induction fields generalizing read with
  | nil => cases h; exact .nil
  | cons f fs ih =>
    obtain ⟨hf, hfs⟩ := List.forall_mem_cons.mp hrequired
    simp only [List.mapM_cons, Option.pure_def, Option.bind_eq_bind, Option.bind_eq_some_iff,
      Option.some.injEq] at h
    obtain ⟨o, ho, os, hos, rfl⟩ := h
    refine .cons ?_ (ih hos hfs)
    unfold Field.inTable? at ho
    split at ho
    · rw [if_pos hf] at ho
      cases ho
    · next d hu =>
      cases ho
      exact ⟨d, rfl, hu⟩
    · cases ho

/-- A request that is read from a table stands in it as it is written. -/
theorem includes_of_ofMembers? (hk : Keeps members found) (h : ofMembers? members = some r) :
    found.Includes (encode r) := by
  simp only [ofMembers?, Option.bind_eq_bind, Option.bind_eq_some_iff] at h
  obtain ⟨-, -, h⟩ := h
  split at h
  · next kind hkind =>
    have htype : found.get? "type" = some (.str kind) := hk _ _ _ hkind rfl
    obtain ⟨fields, hfields, h⟩ := Option.bind_eq_some_iff.mp h
    obtain ⟨read, hread, h⟩ := Option.bind_eq_some_iff.mp h
    have hall := forall₂_fields hfields hread
    -- the kinds that have fields
    unfold fields? at hfields
    split at hfields <;> cases hfields
    · obtain _ | ⟨⟨d, rfl, hd⟩, _ | _⟩ := hall
      obtain ⟨millis, hmillis, hr⟩ := Option.bind_eq_some_iff.mp h
      cases hr
      exact Json.includes_obj (by simp [htype, hk _ _ _ hd (value?_of_int64 hmillis)])
    · obtain _ | ⟨⟨d, rfl, hd⟩, _ | ⟨⟨d', rfl, hd'⟩, _ | _⟩⟩ := hall
      obtain ⟨effectId, hid, h⟩ := Option.bind_eq_some_iff.mp h
      obtain ⟨count, hcount, hr⟩ := Option.bind_eq_some_iff.mp h
      cases hr
      have hfirst := hk _ _ _ hd (value?_of_string hid)
      have hsecond := hk _ _ _ hd' (value?_of_int32 hcount)
      exact Json.includes_obj (by simp [htype, hfirst, hsecond])
  · cases h

end Request

/-! ## Names -/

/-- The first letter is small. -/
def camelCase (s : String) : String :=
  match s.toList with
  | [] => ""
  | c :: cs => String.ofList (c.toLower :: cs)

/-- All letters are small. -/
def lowerCase (s : String) : String := String.ofList (s.toList.map Char.toLower)

section Names
variable {α : Type} {s : String}

/-- What is found under a name has that name, if every value is found under its own. -/
theorem find?_name_eq_some {name : α → String} {all : List α} {a : α}
    (h : all.find? (fun b => name b == name a) = some a) :
    all.find? (fun b => name b == s) = some a ↔ s = name a := by
  constructor
  · intro hs
    have hname := List.find?_some (p := fun b => name b == s) hs
    exact (beq_iff_eq.mp hname).symm
  · rintro rfl
    exact h

/-- The text of a string is read as that string. -/
theorem ofText?_text_string [Wire α] (s : String) :
    ofText? α (text s) = decode? .json (.str (some s)) := by
  rw [ofText?, text, Json.read?_text (Lawful.whole s)]
  rfl

end Names

namespace Usage
variable {s : String} {u : Usage}

/-- The name of a usage within its type; its written name is made from it. -/
def identifier : Usage → String
  | .unknown => "Unknown"
  | .alarm => "Alarm"
  | .ring => "Ring"
  | .notification => "Notification"
  | .communication => "Communication"
  | .touch => "Touch"
  | .media => "Media"
  | .physicalFeedback => "PhysicalFeedback"
  | .simulateReality => "SimulateReality"

theorem name_eq_camelCase (u : Usage) : u.name = camelCase u.identifier := by cases u <;> decide

theorem ofName?_eq_some : ofName? s = some u ↔ s = u.name := find?_name_eq_some u.ofName?_name

theorem parse_eq_ok : parse s = .ok u ↔ s = u.name := by
  rw [← ofName?_eq_some, parse]
  cases ofName? s <;> simp

theorem ofText?_eq_some : ofText? Usage (text s) = some u ↔ s = u.name := by
  rw [ofText?_text_string]
  exact ofName?_eq_some

end Usage

namespace Mode
variable {s : String} {m : Mode}

/-- The name of a mode within its type; its written name is made from it. -/
def identifier : Mode → String
  | .time => "Time"
  | .preset => "Preset"

theorem name_eq_lowerCase (m : Mode) : m.name = lowerCase m.identifier := by cases m <;> decide

theorem ofName?_eq_some : ofName? s = some m ↔ s = m.name := find?_name_eq_some m.ofName?_name

theorem parse_eq_ok : parse s = .ok m ↔ s = m.name := by
  rw [← ofName?_eq_some, parse]
  cases ofName? s with
  | some _ => simp
  | none => by_cases hs : s = "" <;> simp [hs]

theorem ofText?_eq_some : ofText? Mode (text s) = some m ↔ s = m.name := by
  rw [ofText?_text_string]
  exact ofName?_eq_some

end Mode

/-! ## Arguments -/

namespace Line.Operation
variable {effect options : Json} {r : Request} {s : String}

theorem integer_encode (name : String) (n : Int64) : integer name (some (encode n)) = .ok n := by
  have hclamp : Json.Number.truncate (.int n.toInt) = Int64.ofInt n.toInt := by
    rw [Json.Number.truncate_int, Json.Number.clamp, min_eq_left n.toInt_le,
      max_eq_right n.minValue_le_toInt]
  exact congrArg Except.ok (hclamp.trans (Int64.ofInt_toInt n))

theorem int32_encode (name : String) (default n : Int32) :
    int32 name default (some (encode n)) = .ok n := by
  have hwide : encode n.toInt64 = encode n := congrArg Json.ofInt n.toInt_toInt64
  have hrange : ¬(n.toInt64 < -2147483648 ∨ 2147483647 < n.toInt64) := by
    have hlow := n.le_toInt
    have hhigh := n.toInt_lt
    rw [Int64.lt_iff_toInt_lt, Int64.lt_iff_toInt_lt, n.toInt_toInt64]
    change ¬(n.toInt < -2147483648 ∨ 2147483647 < n.toInt)
    omega
  change (integer name (some (encode n)) >>= fun i =>
    if i < -2147483648 ∨ 2147483647 < i then throw (.outOfRange name i) else pure i.toInt32) = _
  rw [← hwide, integer_encode]
  change (if _ then _ else _) = _
  rw [if_neg hrange, n.toInt32_toInt64]
  rfl

/-- An effect is read as the request whose written form is part of it. -/
theorem effectRequest_of_includes (h : effect.Includes (encode r)) :
    effectRequest (some effect) = .ok r := by
  cases effect with
  | obj members =>
    cases r with
    | time millis =>
      have htype := h "type" _ rfl
      have hduration := h "duration" _ rfl
      simp [effectRequest, htype, hduration, integer_encode, Except.map, Except.mapError]
    | preset effectId count =>
      have htype := h "type" _ rfl
      have hid : (Json.obj members).get? "effectId" = some (.str effectId) := h "effectId" _ rfl
      have hcount := h "count" _ rfl
      simp [effectRequest, htype, hid, hcount, int32_encode, Except.map, Except.mapError]
  | _ => cases r <;> cases h "type" _ rfl

/-- So is an attribute, whose numbers are given. -/
theorem attributeContext_of_includes {u : Usage} {a b : Int32}
    (h : options.Includes
      (.obj [("usage", .str u.name), ("intensity", encode a), ("frequency", encode b)])) :
    attributeContext (some options) = .ok ⟨u, ⟨a, b⟩⟩ := by
  cases options with
  | obj members =>
    have husage := h "usage" _ rfl
    have hintensity := h "intensity" _ rfl
    have hfrequency := h "frequency" _ rfl
    have hparse : Usage.parse u.name = .ok u := Usage.parse_eq_ok.mpr rfl
    simp [attributeContext, husage, hintensity, hfrequency, hparse, int32_encode, bind,
      Except.bind, pure, Except.pure]
  | _ => cases h "usage" _ rfl

/-- A start with the value as its effect asks for the request, whatever attribute is taken and
whatever comes after. -/
def Starts (effect : Json) (r : Request) : Prop :=
  ∀ id options more c, attributeContext (some options) = .ok c →
    ofMessage ⟨id, "startVibration", effect :: options :: more⟩ = .ok (.startVibration r c)

theorem starts_of_includes (h : effect.Includes (encode r)) : Starts effect r := by
  intro id options more c hc
  have hr := effectRequest_of_includes h
  have hpresent : present (some effect) = some effect := by
    cases effect with
    | null => cases hr
    | _ => rfl
  simp [ofMessage, hpresent, hr, hc, Except.mapError, bind, Except.bind, pure, Except.pure]

/-- The value of a text that is read as a request. -/
theorem starts_of_text {t : String} {d : Document} {room : Nat} {members : List (String × Json)}
    (ht : Json.read? t = some d) (hv : d.value? room = some (.obj members))
    (h : ofText? Request t = some r) : Starts (.obj members) r := by
  have hr : Request.ofDocument? d = some r := by
    rwa [ofText?, ht] at h
  cases d with
  | table read =>
    rw [Request.ofDocument?_table] at hr
    split at hr
    · exact starts_of_includes (Request.includes_of_ofMembers? (keeps_of_value? hv) hr)
    · cases hr
  | list items =>
    rw [value?] at hv
    split at hv
    · cases hv
    · obtain ⟨_, -, hobj⟩ := Option.map_eq_some_iff.mp hv
      cases hobj
  | num n => cases n <;> cases hv
  | str s => cases s <;> cases hv
  | _ => cases hv

theorem attributeContext_usage {u : Usage} :
    attributeContext (some (.obj [("usage", .str s)])) = .ok ⟨u, {}⟩ ↔ s = u.name := by
  rw [← Usage.parse_eq_ok]
  have hread : attributeContext (some (.obj [("usage", .str s)])) =
      (Usage.parse s).map fun v => ⟨v, {}⟩ := by
    cases hp : Usage.parse s <;>
      simp [attributeContext, Json.get?, List.lookup_cons, hp, int32, present, Except.map, bind,
        Except.bind, pure, Except.pure]
  rw [hread]
  cases Usage.parse s <;> simp [Except.map]

theorem ofMessage_stop {op : String} (hop : op = "stop" ∨ op = "stopVibration") {m : Mode}
    (id : Option UInt64) (more : List Json) :
    ofMessage ⟨id, op, .str s :: more⟩ = .ok (.stop (some m)) ↔ s = m.name := by
  have hread : ofMessage ⟨id, op, .str s :: more⟩ =
      (((Mode.parse s).map some).map stop).mapError fun e => .refused (.invalid e) := by
    rcases hop with rfl | rfl <;> rfl
  rw [← Mode.parse_eq_ok, hread]
  cases Mode.parse s <;> simp [Except.map, Except.mapError]

end Line.Operation

/-! ## Agreement -/

open Line Operation

/-- **Both readers agree.** Whatever object the strict reader takes as a request, a start takes as
the same request; the strict reader of documents is that reader with a bound on nesting, and the
value of a text that it takes as a request starts that request too. An effect with the members of a
written request and an attribute with those of a usage and two numbers start exactly these, in
whatever order the members stand and whatever else there is. A string is a usage or a mode for one
reader exactly if it is for the other, and the value is the one whose written name it is. -/
theorem Line.readers_agree :
    (∀ members r, Request.ofMembers? (Json.memberDocuments members) = some r →
      Starts (.obj members) r) ∧
    (∀ members, Request.ofDocument? (.table members) =
      if members.all fun m => (m.2.value? Request.room).isSome then Request.ofMembers? members
      else none) ∧
    (∀ t d room members r, Json.read? t = some d → d.value? room = some (.obj members) →
      ofText? Request t = some r → Starts (.obj members) r) ∧
    (∀ id effect options more r u (a b : Int32), effect.Includes (encode (r : Request)) →
      options.Includes
        (.obj [("usage", .str (Usage.name u)), ("intensity", encode a), ("frequency", encode b)]) →
      ofMessage ⟨id, "startVibration", effect :: options :: more⟩ =
        .ok (.startVibration r ⟨u, ⟨a, b⟩⟩)) ∧
    (∀ s u, (Usage.parse s = .ok u ↔ ofText? Usage (text s) = some u) ∧
      (attributeContext (some (.obj [("usage", .str s)])) = .ok ⟨u, {}⟩ ↔
        ofText? Usage (text s) = some u) ∧
      (ofText? Usage (text s) = some u ↔ s = camelCase u.identifier)) ∧
    (∀ s m, (Mode.parse s = .ok m ↔ ofText? Mode (text s) = some m) ∧
      (∀ id op more, op = "stop" ∨ op = "stopVibration" →
        (ofMessage ⟨id, op, .str s :: more⟩ = .ok (.stop (some m)) ↔
          ofText? Mode (text s) = some m)) ∧
      (ofText? Mode (text s) = some m ↔ s = lowerCase m.identifier)) := by
  refine ⟨fun members r h => ?_, Request.ofDocument?_table, fun t d room members r ht hv h => ?_,
    fun id effect options more r u a b he ho => ?_, fun s u => ?_, fun s m => ?_⟩
  · exact starts_of_includes (Request.includes_of_ofMembers? (keeps_memberDocuments members) h)
  · exact starts_of_text ht hv h
  · exact starts_of_includes he id options more _ (attributeContext_of_includes ho)
  · rw [Usage.parse_eq_ok, Usage.ofText?_eq_some, ← Usage.name_eq_camelCase]
    exact ⟨.rfl, attributeContext_usage, .rfl⟩
  · rw [Mode.parse_eq_ok, Mode.ofText?_eq_some, ← Mode.name_eq_lowerCase]
    exact ⟨.rfl, fun id op more hop => ofMessage_stop hop id more, .rfl⟩

/-- The largest count beside a member that means nothing, an attribute without numbers, a text that
has such a member twice and the lowest number of 64 bits, and an attribute in another order. -/
theorem Line.readers_agree_sample :
    let effect : List (String × Json) := [("count", .num (.int 2147483647)),
      ("effectId", .str "haptic.clock.timer"), ("extra", .arr [.null]), ("type", .str "preset")]
    let options : Json := .obj [("intensity", .null), ("usage", .str "physicalFeedback")]
    let written : Json := .obj [("x", .null), ("type", .str "time"), ("x", .bool true),
      ("duration", .num (.int (-9223372036854775808)))]
    let run : List (String × Json) :=
      [("duration", .num (.int (-9223372036854775808))), ("type", .str "time"), ("x", .bool true)]
    let given : Json := .obj [("frequency", .num (.int (-100))), ("intensity", .num (.int 0)),
      ("usage", .str "alarm"), ("x", .null)]
    Request.ofMembers? (Json.memberDocuments effect) =
        some (.preset "haptic.clock.timer" 2147483647) ∧
      ofMessage ⟨none, "startVibration", [.obj effect, options]⟩ =
        .ok (.startVibration (.preset "haptic.clock.timer" 2147483647) ⟨.physicalFeedback, {}⟩) ∧
      ofText? Request written.text = some (.time (-9223372036854775808)) ∧
      ofMessage ⟨none, "startVibration", [.obj run, options]⟩ =
        .ok (.startVibration (.time (-9223372036854775808)) ⟨.physicalFeedback, {}⟩) ∧
      ofMessage ⟨none, "startVibration", [encode (Request.time 35), given]⟩ =
        .ok (.startVibration (.time 35) ⟨.alarm, ⟨0, -100⟩⟩) ∧
      ofMessage ⟨none, "stop", [.str "time"]⟩ = .ok (.stop (some .time)) := by
  intro effect options written run given
  obtain ⟨hvalue, -, htext, hwritten, -, hmode⟩ := Line.readers_agree
  have hoptions : attributeContext (some options) = .ok ⟨.physicalFeedback, {}⟩ := rfl
  have hpreset : Request.ofMembers? (Json.memberDocuments effect) =
      some (.preset "haptic.clock.timer" 2147483647) := rfl
  have hread := Json.read?_text (j := written) (by decide)
  have htime : ofText? Request written.text = some (.time (-9223372036854775808)) := by
    rw [ofText?, hread]
    rfl
  have hrun : written.document.value? Message.room = some (.obj run) := rfl
  have hgiven : given.Includes (.obj [("usage", .str Usage.alarm.name),
      ("intensity", encode (0 : Int32)), ("frequency", encode (-100 : Int32))]) :=
    Json.includes_obj (List.forall_mem_cons.mpr ⟨rfl, List.forall_mem_cons.mpr ⟨rfl,
      List.forall_mem_cons.mpr ⟨rfl, List.forall_mem_nil _⟩⟩⟩)
  obtain ⟨-, hstop, hname⟩ := hmode "time" .time
  refine ⟨hpreset, hvalue _ _ hpreset none options [] _ hoptions, htime,
    htext _ _ _ run _ hread hrun htime none options [] _ hoptions, ?_, ?_⟩
  · exact hwritten none _ given [] (.time 35) .alarm 0 (-100) .rfl hgiven
  · exact (hstop none "stop" [] (.inl rfl)).mpr (hname.mpr (by decide))

end Haptics
