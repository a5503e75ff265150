import Mathlib.Data.List.Perm.Basic
import Haptics.Proofs.Arguments
import Haptics.Proofs.Encoding

/-! The members of records. A record is read from its members in any order, beside others that mean
nothing to it and in any layout; but none of its members may be there twice. -/

namespace Haptics

open Document Wire

/-! ## Tables with more members than a record has -/

/-- Members that a record of certain names has no use for; they have names and values. -/
def Document.Foreign (known : List String) (others : List (Option String × Document)) : Prop :=
  ∀ m ∈ others, ∃ name, m.1 = some name ∧ name ∉ known ∧ (m.2.value? (Json.deepest - 1)).isSome

/-- A text of a table that has the members of a value, in any order and others among them, with blanks
wherever words meet. -/
structure Json.Mixes (j : Json) (others found : List (Option String × Document)) (s : String) :
    Prop where
  spread : Token.Spread (Document.table found).words s.toList
  members : ∃ members, j = .obj members ∧ found.Perm (memberDocuments members ++ others)

/-- A value of a type that is read by the names of its members, however they stand among others. -/
structure Wire.Unordered {α : Type} [Wire α] (known : List String) (a : α) : Prop where
  reads {s : String} {others found : List (Option String × Document)} :
    (encode a).Mixes others found s → Foreign known others → ofText? α s = some a
  /-- None of the names may be there twice, whatever stands under it. -/
  once {s : String} {others found : List (Option String × Document)} {name : String} :
    (encode a).Mixes others found s → name ∈ known → 1 < (found.map Prod.fst).count (some name) →
    ofText? α s = none

namespace Document

section Members
variable {known : List String} {members : List (String × Json)} {name : String}
  {others found found' : List (Option String × Document)} {fields : List Field}

theorem length_under (name : String) (found : List (Option String × Document)) :
    (under name found).length = (found.map Prod.fst).count (some name) := by
  rw [under, List.length_map, List.count, List.countP_map, List.countP_eq_length_filter]
  rfl

theorem Foreign.under (h : Foreign known others) (hn : name ∈ known) : under name others = [] := by
  have hnone : others.filter (fun m => m.1 == some name) = [] := by
    refine List.filter_eq_nil_iff.mpr fun m hm => ?_
    obtain ⟨n, hname, hnot, -⟩ := h m hm
    have hne : n ≠ name := fun he => hnot (he ▸ hn)
    simpa [hname] using hne
  rw [Document.under, hnone, List.map_nil]

theorem Foreign.allNamed (h : Foreign known others) : allNamed others = true := by
  refine List.all_eq_true.mpr fun m hm => ?_
  obtain ⟨n, hname, -⟩ := h m hm
  rw [hname, Option.isSome_some]

/-- Under a known name there is just what the value has. -/
theorem Foreign.under_perm (ho : Foreign known others) (hn : name ∈ known)
    (hd : (members.map Prod.fst).Nodup)
    (hp : found.Perm (Json.memberDocuments members ++ others)) :
    Document.under name found = Document.under name (Json.memberDocuments members) := by
  have hperm : (Document.under name found).Perm
      (Document.under name (Json.memberDocuments members ++ others)) := (hp.filter _).map _
  rw [under_append, ho.under hn, List.append_nil, under_memberDocuments name hd] at hperm
  rw [under_memberDocuments name hd]
  -- at most one stands there, so the order is the same
  generalize members.lookup name = written at hperm ⊢
  cases written with
  | none => exact List.perm_nil.mp hperm
  | some j => exact List.perm_singleton.mp hperm

theorem Foreign.allNamed_perm (ho : Foreign known others)
    (hp : found.Perm (Json.memberDocuments members ++ others)) : Document.allNamed found = true := by
  have hall := hp.all_eq (f := fun m => m.1.isSome)
  rw [List.all_append] at hall
  exact hall.trans (Bool.and_eq_true_iff.mpr ⟨allNamed_memberDocuments members, ho.allNamed⟩)

/-- Fields are found by their names alone. -/
theorem mapM_inTable?_congr (h : ∀ f ∈ fields, under f.name found = under f.name found') :
    fields.mapM (Field.inTable? found) = fields.mapM (Field.inTable? found') := by
  induction fields with
  | nil => rfl
  | cons f fs ih =>
    obtain ⟨hf, hfs⟩ := List.forall_mem_cons.mp h
    rw [List.mapM_cons, List.mapM_cons, ih hfs, Field.inTable?, Field.inTable?, hf]

theorem mapM_inTable?_twice {f : Field} (hf : f ∈ fields) (h : 1 < (under f.name found).length) :
    fields.mapM (Field.inTable? found) = none := by
  have hnone : f.inTable? found = none := by
    rw [Field.inTable?]
    split
    · next hu => simp [hu] at h
    · next d hu => simp [hu] at h
    · rfl
  induction fields with
  | nil => cases hf
  | cons g gs ih =>
    rw [List.mapM_cons]
    rcases List.mem_cons.mp hf with rfl | hf
    · rw [hnone]
      rfl
    · rw [ih hf]
      cases g.inTable? found <;> rfl

end Members

end Document

/-! ## Records -/

theorem Wire.ofText?_of_mixes {α : Type} [Wire α] {j : Json} {s : String}
    {others found : List (Option String × Document)} (h : j.Mixes others found s) :
    ofText? α s = decode? .json (.table found) := by
  rw [ofText?, Json.read?_of_spread h.spread]
  rfl

namespace Wire.Unordered
variable {α : Type} [Wire α] {known : List String} {fields : List Field}
  {build : List (Option Document) → Option α} {a : α} {members : List (String × Json)}

/-- A record is put together from its fields. -/
theorem of_fields (hb : ∀ d, decode? .json d = record? .json fields d >>= build)
    (hk : fields.map Field.name = known) (he : encode a = .obj members)
    (hn : (members.map Prod.fst).Nodup) (ha : decode? .json (encode a).document = some a) :
    Unordered known a := by
  subst hk
  constructor
  · intro s others found hmixes ho
    obtain ⟨ms, hms, hp⟩ := hmixes.members
    cases he.symm.trans hms
    have hfields : fields.mapM (Field.inTable? found) =
        fields.mapM (Field.inTable? (Json.memberDocuments members)) :=
      mapM_inTable?_congr fun f hf => ho.under_perm (List.mem_map_of_mem hf) hn hp
    rw [ofText?_of_mixes hmixes, hb, record?, if_pos (ho.allNamed_perm hp), hfields, ← ha, hb, he,
      Json.document, record?, if_pos (allNamed_memberDocuments members)]
  · intro s others found name hmixes hname hc
    obtain ⟨f, hf, rfl⟩ := List.mem_map.mp hname
    rw [← length_under] at hc
    rw [ofText?_of_mixes hmixes, hb, record?, mapM_inTable?_twice hf hc, ite_self]
    rfl

theorem of_lawful [Lawful α] (hb : ∀ d, decode? .json d = record? .json fields d >>= build)
    (hk : fields.map Field.name = known) (he : encode a = .obj members)
    (hn : (members.map Prod.fst).Nodup) : Unordered known a :=
  of_fields hb hk he hn (Lawful.decode .json a)

end Wire.Unordered

/-! ## Requests -/

namespace Request
variable {r : Request} {found : List (Option String × Document)} {kind : String}
  {fields : List Field} {members : List (String × Json)}

/-- A table with the members of a request is read by its type and its fields. -/
theorem ofMembers?_of_kind (hall : allNamed found = true)
    (ht : under "type" found = [.str (some kind)]) (hk : fields? kind = some fields) :
    ofMembers? found = fields.mapM (Field.inTable? found) >>= ofFields? kind := by
  simp only [ofMembers?, hall, guard, ht, hk]
  rfl

theorem ofMembers?_twice {name : String} (ht : .str (some kind) ∈ under "type" found)
    (hk : fields? kind = some fields) (hn : name ∈ "type" :: fields.map Field.name)
    (hc : 1 < (under name found).length) : ofMembers? found = none := by
  refine Option.eq_none_iff_forall_ne_some.mpr fun r hr => ?_
  simp only [ofMembers?, Option.bind_eq_bind, Option.bind_eq_some_iff] at hr
  obtain ⟨-, -, hr⟩ := hr
  split at hr
  case h_2 => cases hr
  next other hu =>
    -- the only type there is that of the request, so the repeated name is one of its fields
    rw [hu, List.mem_singleton] at ht
    cases ht
    obtain ⟨f, hf, rfl⟩ : ∃ f ∈ fields, f.name = name := by
      rcases List.mem_cons.mp hn with rfl | hn
      · simp [hu] at hc
      · exact List.mem_map.mp hn
    simp [hk, mapM_inTable?_twice hf hc] at hr

/-- The type of a request may stand anywhere, since everything before it is kept. -/
theorem unordered_of_kind (hk : fields? kind = some fields)
    (he : encode r = .obj (("type", .str kind) :: members))
    (hn : ((("type", Json.str kind) :: members).map Prod.fst).Nodup) :
    Unordered ("type" :: fields.map Field.name) r := by
  have ht : under "type" (Json.memberDocuments (("type", .str kind) :: members)) =
      [.str (some kind)] := by
    rw [under_memberDocuments "type" hn, List.lookup_cons_self]
    rfl
  constructor
  · intro s others found hmixes ho
    obtain ⟨ms, hms, hp⟩ := hmixes.members
    cases he.symm.trans hms
    have hwritten : ofDocument? (encode r).document = some r := Lawful.decode .json r
    rw [he, Json.document, ofDocument?_table, Option.ite_none_right_eq_some] at hwritten
    obtain ⟨hvalues, hwritten⟩ := hwritten
    have hall : found.all (fun m => (m.2.value? room).isSome) = true := by
      rw [hp.all_eq, List.all_append, hvalues, Bool.true_and]
      refine List.all_eq_true.mpr fun m hm => ?_
      obtain ⟨name, -, -, hvalue⟩ := ho m hm
      exact hvalue
    have hfields : fields.mapM (Field.inTable? found) = fields.mapM (Field.inTable? _) :=
      mapM_inTable?_congr fun f hf =>
        ho.under_perm (List.mem_cons_of_mem _ (List.mem_map_of_mem hf)) hn hp
    have htype := (ho.under_perm List.mem_cons_self hn hp).trans ht
    rw [ofMembers?_of_kind (allNamed_memberDocuments _) ht hk] at hwritten
    rw [ofText?_of_mixes hmixes]
    change ofDocument? (.table found) = some r
    rw [ofDocument?_table, if_pos hall, ofMembers?_of_kind (ho.allNamed_perm hp) htype hk, hfields]
    exact hwritten
  · intro s others found name hmixes hname hc
    obtain ⟨ms, hms, hp⟩ := hmixes.members
    cases he.symm.trans hms
    have htype : .str (some kind) ∈ under "type" found := by
      refine List.mem_map.mpr ⟨(some "type", .str (some kind)), List.mem_filter.mpr ⟨?_, rfl⟩, rfl⟩
      exact hp.mem_iff.mpr List.mem_cons_self
    rw [← length_under] at hc
    rw [ofText?_of_mixes hmixes]
    change ofDocument? (.table found) = none
    rw [ofDocument?_table, ofMembers?_twice htype hk hname hc, ite_self]

end Request

/-! ## Every record -/

/-- **Members in any order.** A text that has the members of a value in any order is read as that value,
whatever blanks stand between its words, however its strings are spelled and whatever other members
stand among them: their names only have to be other names than those of the type, and their values have
to be values. So the type of a request may come last, and everything that comes before it is kept until
then. But no name of the type may be there twice. Messages and replies carry values that are free of
floats, a result is not `null`, and none is nested deeper than can be read. -/
theorem read_in_any_order :
    (∀ millis, Unordered ["type", "duration"] (Request.time millis)) ∧
    (∀ effectId count, Unordered ["type", "effectId", "count"] (Request.preset effectId count)) ∧
    (∀ p : Parameter, Unordered ["intensity", "frequency"] p) ∧
    (∀ c : Context, Unordered ["usage", "parameter"] c) ∧
    (∀ e : Effect, Unordered ["id", "duration_ms"] e) ∧
    (∀ r : Rejection, Unordered ["effect_id", "usage"] r) ∧
    (∀ a : Arbitration, Unordered ["incoming_repeat_wins", "lock_repeating_presets",
      "protected_usages", "lowest_priority_usages"] a) ∧
    (∀ s : Shape, Unordered ["code", "message"] s) ∧
    (∀ c : Config, Unordered ["limits", "arbitration", "permission", "actuator", "effects"] c) ∧
    (∀ m : Line.Message, (∀ j ∈ m.args, j.FloatFree) → (encode m).depth ≤ Json.deepest →
      Unordered ["id", "op", "args"] m) ∧
    (∀ r : Line.Reply, (∀ j, r.result = some j → j.FloatFree ∧ j.isNull = false) →
      (encode r).depth ≤ Json.deepest → Unordered ["id", "ok", "result", "error"] r) := by
  refine ⟨fun millis => ?_, fun effectId count => ?_, fun p => ?_, fun c => ?_, fun e => ?_,
    fun r => ?_, fun a => ?_, fun s => ?_, fun c => ?_, fun m h hd => ?_, fun r h hd => ?_⟩
  · have he : encode (Request.time millis) =
      .obj (("type", .str "time") :: [("duration", encode millis)]) := rfl
    exact Request.unordered_of_kind rfl he (by simp)
  · have he : encode (Request.preset effectId count) =
      .obj (("type", .str "preset") :: [("effectId", encode effectId), ("count", encode count)]) := rfl
    exact Request.unordered_of_kind rfl he (by simp)
  · exact .of_lawful (fun _ => rfl) rfl rfl (by simp)
  · exact .of_lawful (fun _ => rfl) rfl rfl (by simp)
  · exact .of_lawful (fun _ => rfl) rfl rfl (by simp)
  · exact .of_lawful (fun _ => rfl) rfl rfl (by simp)
  · exact .of_lawful (fun _ => rfl) rfl rfl (by simp)
  · exact .of_lawful (fun _ => rfl) rfl rfl (by simp)
  · exact .of_lawful (fun _ => rfl) rfl rfl (by simp)
  · exact .of_fields (fun _ => rfl) rfl rfl (by simp) (Line.Message.decode h hd)
  · have hplain := Line.Reply.plain_of_depth h hd
    exact .of_fields (fun _ => rfl) rfl r.encode_eq r.members_nodup hplain.decode

/-- A request that is read from a text with its type at the end, spelled with an escape, after a member
that has a type itself; no request is read once a member is repeated. And a message whose members do
not stand in their own order. -/
theorem read_in_any_order_sample :
    let s := "\t\x7b \"x\": [\x7b\"type\": 1.5e3\x7d], \"duration\": 250,\n\"t\\u0079pe\": \"time\"\x7d "
    let twice := "\x7b\"duration\":1,\"type\":\"time\",\"duration\":2\x7d"
    let mixed := "\x7b\"op\":\"stop\",\"args\":[null],\"more\":[],\"id\":7\x7d"
    let m : Line.Message := ⟨some 7, "stop", [.null]⟩
    (∀ j ∈ m.args, j.FloatFree) ∧ (encode m).depth ≤ Json.deepest ∧
      ofText? Request s = some (.time 250) ∧ ofText? Request twice = none ∧
      ofText? Line.Message mixed = some m := by
  intro s twice mixed m
  obtain ⟨htime, -, -, -, -, -, -, -, -, hmessage, -⟩ := read_in_any_order
  have hargs : ∀ j ∈ m.args, j.FloatFree := by
    intro j hj
    rw [List.mem_singleton.mp hj]
    exact ⟨rfl, rfl⟩
  have hdepth : (encode m).depth ≤ Json.deepest := by decide
  refine ⟨hargs, hdepth, ?_, ?_, ?_⟩
  · let n : Json.Numeral := ⟨false, ['1'], ['5'], some (false, ['3'])⟩
    let x : Option String × Document := (some "x", .list [.table [(some "type", .num n.number?)]])
    let duration : Option String × Document := (some "duration", .num (some (.int 250)))
    let type : Option String × Document := (some "type", .str (some "time"))
    have hdigit (c : Char) (h : c.isDigit = true) : Json.Numeral.Digits [c] :=
      ⟨List.cons_ne_nil c [], List.forall_mem_singleton.mpr h⟩
    have hn : n.Written ['1', '.', '5', 'e', '3'] :=
      .mk (hdigit '1' rfl) (.inr rfl) (.point (hdigit '5' rfl)) (.plain (.inl rfl) (hdigit '3' rfl))
    have htype : Json.Token.Word (.str (some "type"))
        ('"' :: ['t', '\\', 'u', '0', '0', '7', '9', 'p', 'e'] ++ ['"']) := by
      have hy : Json.Token.Quad ['0', '0', '7', '9'] 'y'.toNat := ⟨rfl, List.all_eq_true.mp rfl, rfl⟩
      have hrest : Json.Token.Spelling ['p', 'e'] ['p', 'e'] :=
        .plain (by decide) (by decide) (by decide) (.plain (by decide) (by decide) (by decide) .nil)
      exact .str (.plain (by decide) (by decide) (by decide) (.code hy (.inl (by decide)) hrest))
    have hs : s.toList = '\t' :: '\x7b' :: ' ' :: (Json.quoted "x" ++ ':' :: ' ' :: '[' :: '\x7b' ::
        (Json.quoted "type" ++ ':' :: ' ' :: (['1', '.', '5', 'e', '3'] ++ '\x7d' :: ']' :: ',' ::
        ' ' :: (Json.quoted "duration" ++ ':' :: ' ' :: (Json.Number.text (.int 250) ++ ',' :: '\n' ::
        ('"' :: ['t', '\\', 'u', '0', '0', '7', '9', 'p', 'e'] ++ ['"'] ++ ':' :: ' ' ::
        (Json.quoted "time" ++ ['\x7d', ' ']))))))) := by decide
    have hspread : Json.Token.Spread (Document.table [x, duration, type]).words s.toList := by
      rw [hs]
      -- a step for each blank, mark and word
      repeat first
        | exact .nil
        | refine .blank rfl ?_
        | refine .mark rfl ?_
        | refine .word (.quoted _) (.inr rfl) ?_
        | refine .word (.number rfl) (.inr rfl) ?_
        | refine .word (.num hn) (.inr rfl) ?_
        | refine .word htype (.inr rfl) ?_
    have hperm : [x, duration, type].Perm [type, duration, x] :=
      List.reverse_perm [type, duration, x]
    have hforeign : Foreign ["type", "duration"] [x] := by
      intro m hm
      rw [List.mem_singleton.mp hm]
      exact ⟨"x", rfl, by decide, by decide⟩
    exact (htime 250).reads ⟨hspread, _, rfl, hperm⟩ hforeign
  · let j : Json := .obj [("duration", .int64 1), ("type", .str "time"), ("duration", .int64 2)]
    have ht : twice = j.text := by decide
    have hspread : Json.Token.Spread j.document.words twice.toList := by
      rw [ht, ← Json.tokens_eq_words]
      exact Json.spread_text rfl
    exact (htime 1).once ⟨hspread, _, rfl, .swap _ _ _⟩ (List.mem_cons_of_mem _ List.mem_cons_self)
      (by decide)
  · let j : Json :=
      .obj [("op", .str "stop"), ("args", .arr [.null]), ("more", .arr []), ("id", .num (.int 7))]
    have ht : mixed = j.text := by decide
    have hspread : Json.Token.Spread j.document.words mixed.toList := by
      rw [ht, ← Json.tokens_eq_words]
      exact Json.spread_text rfl
    have hforeign : Foreign ["id", "op", "args"] [(some "more", .list [])] := by
      intro m hm
      rw [List.mem_singleton.mp hm]
      exact ⟨"more", rfl, by decide, by decide⟩
    have hperm : (Json.memberDocuments [("op", .str "stop"), ("args", .arr [.null]),
        ("more", .arr []), ("id", .num (.int 7))]).Perm
          (Json.memberDocuments [("id", .num (.int 7)), ("op", .str "stop"), ("args", .arr [.null])] ++
            [(some "more", .list [])]) :=
      List.perm_append_singleton _ [_, _, _]
    exact (hmessage m hargs hdepth).reads ⟨hspread, _, rfl, hperm⟩ hforeign

end Haptics
