import Mathlib.Algebra.BigOperators.Group.List.Basic
import Haptics.Config.Text
import Haptics.Proofs.Encoding
import Haptics.Proofs.Entries

/-! A configuration that was written to a file is loaded from it. The file is followed section by
section, along with the members that its document has so far. -/

namespace Haptics

open Toml Toml.Members Toml.Builder Wire

namespace Config

section Elements
variable {α : Type} {fuel : Nat} {as : List α} {text : α → List Char}
  {entries : α → List (String × Json)} {path : List String} {key name outer : String}
  {members : List (String × Json)}

theorem takes_elements {place : List Members → Members}
    (hk : ∀ cs, Key.read? (key.toList ++ ']' :: cs) = some (path, name, ']' :: cs))
    (hc : Collects path name place) (h : ∀ a ∈ as, Fills fuel [] (text a) (entries a))
    (items : List Members) (path' : List String) :
    ∃ path'', Takes fuel ⟨place items, path'⟩ (elements key (as.map text))
      ⟨place (((as.map entries).map values).reverse ++ items), path''⟩ := by
  -- Each table is put in front of those before it, which are `items` here.
  induction as generalizing items path' with
  | nil => exact ⟨path', .nil⟩
  | cons a as ih =>
    obtain ⟨hfills, h⟩ := List.forall_mem_cons.mp h
    have ha : Takes fuel ⟨place items, path'⟩ ('\n' :: elementHeader key ++ text a)
        ⟨place (values (entries a) :: items), path ++ [name]⟩ :=
      Takes.empty.trans (takes_element hk hc hfills)
    obtain ⟨path'', has⟩ := ih h (values (entries a) :: items) (path ++ [name])
    refine ⟨path'', ?_⟩
    rw [List.map_cons, List.map_cons, List.map_cons, List.reverse_cons, List.append_assoc,
      List.singleton_append]
    exact ha.trans has

/-- Where there are tables, the last of them is in hand. -/
theorem takes_some_elements {place : List Members → Members}
    (hk : ∀ cs, Key.read? (key.toList ++ ']' :: cs) = some (path, name, ']' :: cs))
    (hc : Collects path name place) (hne : as ≠ [])
    (h : ∀ a ∈ as, Fills fuel [] (text a) (entries a)) (path' : List String) :
    ∃ item items path'', ((as.map entries).map values).reverse = item :: items ∧
      Takes fuel ⟨place [], path'⟩ (elements key (as.map text)) ⟨place (item :: items), path''⟩ := by
  obtain ⟨path'', ht⟩ := takes_elements hk hc h [] path'
  have htables : ((as.map entries).map values).reverse ≠ [] := by simpa using hne
  obtain ⟨item, items, hitems⟩ := List.exists_cons_of_ne_nil htables
  rw [List.append_nil, hitems] at ht
  exact ⟨item, items, path'', hitems, ht⟩

/-- Tables under one header make up a list. -/
theorem adds_elements (hk : Plain name) (hn : members.lookup name = none) (hne : as ≠ [])
    (h : ∀ a ∈ as, Fills fuel [] (text a) (entries a)) :
    Adds fuel members (elements name (as.map text))
      (members ++ [(name, .arr (as.map fun a => .obj (entries a)))]) := by
  intro root path hs
  have hkey (cs : List Char) : Key.read? (name.toList ++ ']' :: cs) = some ([], name, ']' :: cs) :=
    Key.read?_bracket hk
  obtain ⟨item, items, path', hitems, ht⟩ :=
    takes_some_elements hkey (collects_atRoot (hs.lookup_eq_none hn)) hne h path
  refine ⟨_, _, hs.append ?_, ht⟩
  rw [← hitems, tables_document, List.map_map]
  rfl

/-- Tables one level down make up a list in a table of its own. -/
theorem adds_elements_below (ho : Plain outer) (hk : Plain name)
    (hkey : key.toList = outer.toList ++ '.' :: name.toList) (hn : members.lookup outer = none)
    (hne : as ≠ []) (h : ∀ a ∈ as, Fills fuel [] (text a) (entries a)) :
    Adds fuel members (elements key (as.map text))
      (members ++ [(outer, .obj [(name, .arr (as.map fun a => .obj (entries a)))])]) := by
  intro root path hs
  have hkey (cs : List Char) : Key.read? (key.toList ++ ']' :: cs) =
      some ([outer], name, ']' :: cs) := by
    rw [hkey, List.append_assoc, List.cons_append]
    exact Key.read?_dotted ho hk
  obtain ⟨item, items, path', hitems, ht⟩ :=
    takes_some_elements hkey (collects_below (hs.lookup_eq_none hn)) hne h path
  refine ⟨_, _, hs.append ?_, ht⟩
  rw [← hitems, Node.document, Node.memberDocuments, tables_document, List.map_map]
  rfl

end Elements

/-! ## The sections of a configuration -/

/-- Files have no numbers beyond 63 bits. -/
structure Representable (c : Config) : Prop where
  commandBuffer : c.limits.commandBuffer.toNat < Nat.pow 2 63
  effects : ∀ e ∈ c.effects, e.durationMs.toNat < Nat.pow 2 63

def effectEntries (e : Effect) : List Char :=
  entry "id" (quoted e.id) ++ entry "duration_ms" (Decimal.digits e.durationMs.toNat)

def limitsEntries (l : Limits) : List Char :=
  entry "max_duration_ms" (Decimal.integer l.maxDurationMs.toInt) ++
    entry "command_buffer" (Decimal.digits l.commandBuffer.toNat)

theorem natural?_of_lt {n : UInt64} (h : n.toNat < Nat.pow 2 63) :
    natural? n = some (Decimal.digits n.toNat) := if_pos h

theorem natural?_of_le {n : UInt64} (h : ¬ n.toNat < Nat.pow 2 63) : natural? n = none := if_neg h

/-- The sections that are always there. -/
def sectionChars (c : Config) : List Char :=
  (header "limits" ++ limitsEntries c.limits) ++
    ('\n' :: (header "arbitration" ++ arbitrationEntries c.arbitration) ++
      ('\n' :: (header "permission" ++ entry "vibrate_granted" (bool c.granted)) ++
        actuatorSection c.rejected))

/-- The text of a configuration whose numbers files have. -/
def chars (c : Config) : List Char :=
  if c.effects.isEmpty then entry "effects" (list []) ++ '\n' :: c.sectionChars
  else c.sectionChars ++ elements "effects" (c.effects.map effectEntries)

theorem isSome_of_mapM {α β : Type} {f : α → Option β} {as : List α} {bs : List β}
    (h : as.mapM f = some bs) : ∀ a ∈ as, ∃ b, f a = some b := by
  induction as generalizing bs with
  | nil => simp
  | cons a as ih =>
    rw [List.mapM_cons] at h
    obtain ⟨b, hb, h⟩ := Option.bind_eq_some_iff.mp h
    obtain ⟨bs', hbs, -⟩ := Option.bind_eq_some_iff.mp h
    exact List.forall_mem_cons.mpr ⟨⟨b, hb⟩, ih hbs⟩

theorem mapM_effectEntries? {effects : List Effect}
    (h : ∀ e ∈ effects, e.durationMs.toNat < Nat.pow 2 63) :
    effects.mapM effectEntries? = some (effects.map effectEntries) := by
  induction effects with
  | nil => rfl
  | cons e es ih =>
    obtain ⟨he, hes⟩ := List.forall_mem_cons.mp h
    rw [List.mapM_cons, effectEntries?, natural?_of_lt he, ih hes]
    rfl

theorem text?_of_representable {c : Config} (h : c.Representable) :
    c.text? = some (String.ofList c.chars) := by
  have hlimits : limitsEntries? c.limits = some (limitsEntries c.limits) := by
    rw [limitsEntries?, natural?_of_lt h.commandBuffer]
    rfl
  rw [text?, hlimits, mapM_effectEntries? h.effects]
  cases he : c.effects with
  | nil => simp [chars, sectionChars, he, elements]
  | cons e es => simp [chars, sectionChars, he]

theorem text?_of_not_representable {c : Config} (h : ¬ c.Representable) : c.text? = none := by
  rw [Option.eq_none_iff_forall_ne_some]
  intro t ht
  rw [text?] at ht
  obtain ⟨limits, hlimits, ht⟩ := Option.bind_eq_some_iff.mp ht
  obtain ⟨effects, heffects, -⟩ := Option.bind_eq_some_iff.mp ht
  apply h
  constructor
  · by_contra hle
    rw [limitsEntries?, natural?_of_le hle] at hlimits
    cases hlimits
  · intro e he
    by_contra hle
    obtain ⟨w, hw⟩ := isSome_of_mapM heffects e he
    rw [effectEntries?, natural?_of_le hle] at hw
    cases hw

/-! ### Reading the sections -/

section Sections
variable {fuel : Nat} {key : String} {members : List (String × Json)}

theorem documents_usages (us : List Usage) :
    Json.documents (us.map encode) = us.map fun u => .str (some u.name) := by
  induction us with
  | nil => rfl
  | cons u us ih =>
    rw [List.map_cons, Json.documents, ih]
    rfl

theorem reads_usages {us : List Usage} (h : us.length < fuel) :
    Value.Reads (Value.read? fuel Value.room) (list (us.map fun u => quoted u.name))
      (encode us).document := by
  have hlength : (us.map Usage.name).length < fuel := by rwa [List.length_map]
  have hlist : Value.Reads (Value.read? fuel Value.room) _ _ := Value.reads_list hlength
  rw [List.map_map, List.map_map] at hlist
  have hdocument : (encode us).document = .list (us.map fun u => .str (some u.name)) :=
    congrArg Document.list (documents_usages us)
  rw [hdocument]
  exact hlist

theorem fills_bool (hk : Plain key) (hf : members.lookup key = none) (b : Bool) :
    Fills fuel members (entry key (bool b)) (members ++ [(key, encode b)]) :=
  Fills.entry hk hf (Value.reads_bool b)

theorem fills_string (hk : Plain key) (hf : members.lookup key = none) (s : String) :
    Fills fuel members (entry key (quoted s)) (members ++ [(key, encode s)]) :=
  Fills.entry hk hf (Value.reads_quoted s)

theorem fills_usage (hk : Plain key) (hf : members.lookup key = none) (u : Usage) :
    Fills fuel members (entry key (quoted u.name)) (members ++ [(key, encode u)]) :=
  Fills.entry hk hf (Value.reads_quoted u.name)

theorem fills_uint64 (hk : Plain key) (hf : members.lookup key = none) {n : UInt64}
    (h : n.toNat < Nat.pow 2 63) :
    Fills fuel members (entry key (Decimal.digits n.toNat)) (members ++ [(key, encode n)]) :=
  Fills.entry hk hf (Value.reads_digits h)

theorem fills_int64 (hk : Plain key) (hf : members.lookup key = none) {i : Int64} (h : 0 ≤ i) :
    Fills fuel members (entry key (Decimal.integer i.toInt)) (members ++ [(key, encode i)]) := by
  have hpos : 0 ≤ i.toInt := Int64.le_iff_toInt_le.mp h
  obtain ⟨n, hn⟩ := Int.eq_ofNat_of_zero_le hpos
  have hlt : n < Nat.pow 2 63 := by
    have hbound := i.toInt_lt
    have hpow : Nat.pow 2 63 = 9223372036854775808 := rfl
    omega
  have hdocument : (encode i).document = .num (some (.int n)) := by
    rw [← hn]
    rfl
  apply Fills.entry hk hf
  rw [hdocument, hn]
  exact Value.reads_digits hlt

theorem fills_usages (hk : Plain key) (hf : members.lookup key = none) {us : List Usage}
    (h : us.length < fuel) :
    Fills fuel members (entry key (list (us.map fun u => quoted u.name)))
      (members ++ [(key, encode us)]) :=
  Fills.entry hk hf (reads_usages h)

theorem fills_nil (hk : Plain key) (hf : members.lookup key = none) (h : 0 < fuel) :
    Fills fuel members (entry key (list [])) (members ++ [(key, .arr [])]) := by
  have hlist : Value.Reads (Value.read? fuel Value.room) (list (([] : List String).map quoted)) _ :=
    Value.reads_list h
  exact Fills.entry hk hf hlist

theorem fills_effect {e : Effect} (h : e.durationMs.toNat < Nat.pow 2 63) :
    Fills fuel [] (effectEntries e)
      [("id", encode e.id), ("duration_ms", encode e.durationMs)] :=
  (fills_string (by decide) (by rfl) e.id).trans (fills_uint64 (by decide) (by rfl) h)

theorem fills_rejection (r : Rejection) :
    Fills fuel [] (rejectionEntries r)
      [("effect_id", encode r.effectId), ("usage", encode r.usage)] :=
  (fills_string (by decide) (by rfl) r.effectId).trans (fills_usage (by decide) (by rfl) r.usage)

theorem fills_limits {l : Limits} (hmax : 0 ≤ l.maxDurationMs)
    (hbuffer : l.commandBuffer.toNat < Nat.pow 2 63) :
    Fills fuel [] (limitsEntries l)
      [("max_duration_ms", encode l.maxDurationMs), ("command_buffer", encode l.commandBuffer)] :=
  (fills_int64 (by decide) (by rfl) hmax).trans (fills_uint64 (by decide) (by rfl) hbuffer)

theorem fills_arbitration {a : Arbitration} (hguarded : a.guarded.length < fuel)
    (hlowest : a.lowest.length < fuel) :
    Fills fuel [] (arbitrationEntries a)
      [("incoming_repeat_wins", encode a.repeatWins),
        ("lock_repeating_presets", encode a.lockRepeating), ("protected_usages", encode a.guarded),
        ("lowest_priority_usages", encode a.lowest)] :=
  (((fills_bool (by decide) (by rfl) a.repeatWins).trans
    (fills_bool (by decide) (by rfl) a.lockRepeating)).trans
    (fills_usages (by decide) (by rfl) hguarded)).trans
    (fills_usages (by decide) (by rfl) hlowest)

theorem adds_actuator {rejected : List Rejection} (hf : 0 < fuel)
    (hn : members.lookup "actuator" = none) :
    Adds fuel members (actuatorSection rejected)
      (members ++ [("actuator", .obj [("rejected", encode rejected)])]) := by
  cases rejected with
  | nil =>
    have htable : Adds fuel members (header "actuator" ++ entry "rejected" (list [])) _ :=
      Adds.table (by decide) hn (fills_nil (by decide) rfl hf)
    exact htable.emptyLine
  | cons r rs =>
    exact adds_elements_below (by decide) (by decide) (by rfl) hn (List.cons_ne_nil r rs)
      fun r _ => fills_rejection r

/-! ### The whole file -/

theorem lookup_append_none {ms : List (String × Json)} (h : members.lookup key = none)
    (h' : ms.lookup key = none) : (members ++ ms).lookup key = none := by
  rw [List.lookup_append, h, h']
  rfl

/-- The members of the sections that are always there. -/
def sections (c : Config) : List (String × Json) :=
  [("limits", encode c.limits), ("arbitration", encode c.arbitration),
    ("permission", .obj [("vibrate_granted", encode c.granted)]),
    ("actuator", .obj [("rejected", encode c.rejected)])]

/-- A reader that can go through this text. -/
structure Ample (fuel : Nat) (c : Config) : Prop where
  guarded : c.arbitration.guarded.length < fuel
  lowest : c.arbitration.lowest.length < fuel

theorem adds_limits {c : Config} (hmax : 0 ≤ c.limits.maxDurationMs) (hc : c.Representable)
    (hn : members.lookup "limits" = none) :
    Adds fuel members (header "limits" ++ limitsEntries c.limits)
      (members ++ [("limits", encode c.limits)]) :=
  Adds.table (by decide) hn (fills_limits hmax hc.commandBuffer)

theorem adds_arbitration {c : Config} (hf : Ample fuel c)
    (hn : members.lookup "arbitration" = none) :
    Adds fuel members (header "arbitration" ++ arbitrationEntries c.arbitration)
      (members ++ [("arbitration", encode c.arbitration)]) :=
  Adds.table (by decide) hn (fills_arbitration hf.guarded hf.lowest)

theorem adds_permission (granted : Bool) (hn : members.lookup "permission" = none) :
    Adds fuel members (header "permission" ++ entry "vibrate_granted" (bool granted))
      (members ++ [("permission", .obj [("vibrate_granted", encode granted)])]) :=
  Adds.table (by decide) hn (fills_bool (by decide) rfl granted)

theorem adds_sections {c : Config} (hmax : 0 ≤ c.limits.maxDurationMs) (hc : c.Representable)
    (hf : Ample fuel c) (hn : ∀ m ∈ c.sections, members.lookup m.1 = none) :
    Adds fuel members c.sectionChars (members ++ c.sections) := by
  obtain ⟨hlimits, harbitration, hpermission, hactuator⟩ :
      members.lookup "limits" = none ∧ members.lookup "arbitration" = none ∧
        members.lookup "permission" = none ∧ members.lookup "actuator" = none := by
    simpa [sections] using hn
  have hsections : members ++ c.sections = members ++ [("limits", encode c.limits)] ++
      [("arbitration", encode c.arbitration)] ++
      [("permission", .obj [("vibrate_granted", encode c.granted)])] ++
      [("actuator", .obj [("rejected", encode c.rejected)])] := by
    simp [sections]
  rw [hsections]
  refine (adds_limits hmax hc hlimits).trans
    ((adds_arbitration hf ?_).emptyLine.trans
      ((adds_permission c.granted ?_).emptyLine.trans (adds_actuator ?_ ?_)))
  · exact lookup_append_none harbitration rfl
  · exact lookup_append_none (lookup_append_none hpermission rfl) rfl
  · exact Nat.zero_lt_of_lt hf.guarded
  · exact lookup_append_none (lookup_append_none (lookup_append_none hactuator rfl) rfl) rfl

/-- All members in the order in which they are written: an empty list of effects comes first. -/
def saved (c : Config) : List (String × Json) :=
  if c.effects.isEmpty then ("effects", encode c.effects) :: c.sections else c.members

theorem lookup_saved (c : Config) (name : String) : c.saved.lookup name = c.members.lookup name := by
  unfold saved
  split
  · by_cases hname : name = "effects"
    · subst hname
      rfl
    · have hne : (name == "effects") = false := beq_false_of_ne hname
      simp [sections, members, List.lookup_cons, hne]
  · rfl

theorem run_chars {c : Config} (hmax : 0 ≤ c.limits.maxDurationMs) (hc : c.Representable)
    (hf : Ample fuel c) :
    ∃ root path, Stands root c.saved ∧ Takes fuel ⟨[], []⟩ c.chars ⟨root, path⟩ := by
  unfold saved chars
  split
  · rename_i hempty
    have hfills : Fills fuel [] (entry "effects" (list [])) [("effects", .arr [])] :=
      fills_nil (by decide) rfl (Nat.zero_lt_of_lt hf.guarded)
    have heffects : Takes fuel ⟨[], []⟩ (entry "effects" (list [])) _ := hfills [] id Leads.nil
    have hsections : Adds fuel [("effects", .arr [])] c.sectionChars _ :=
      adds_sections hmax hc hf (by simp [sections, List.lookup_cons])
    obtain ⟨root, path, hs, ht⟩ := hsections.emptyLine (values [("effects", .arr [])]) [] rfl
    refine ⟨root, path, ?_, heffects.trans ht⟩
    rw [List.isEmpty_iff.mp hempty]
    exact hs
  · rename_i hempty
    have hsections : Adds fuel [] c.sectionChars ([] ++ c.sections) :=
      adds_sections hmax hc hf (by simp)
    have heffects : Adds fuel c.sections (elements "effects" (c.effects.map effectEntries))
        (c.sections ++ [("effects", encode c.effects)]) := by
      apply adds_elements (by decide) rfl
      · simpa using hempty
      · exact fun e he => fills_effect (hc.effects e he)
    exact (hsections.trans heffects) [] [] rfl

end Sections

/-! ## Files are read back -/

theorem length_le_list (ws : List (List Char)) : ws.length ≤ (list ws).length := by
  unfold list
  split
  · exact Nat.zero_le _
  · simp
  · have hlines : ws.length ≤
        (ws.flatMap fun w => ['\n', ' ', ' ', ' ', ' '] ++ w ++ [',']).length := by
      rw [List.length_flatMap]
      refine Nat.le_trans (Nat.le_of_eq (List.length_map _).symm) (List.length_le_sum_of_one_le _ ?_)
      intro n hn
      obtain ⟨w, -, rfl⟩ := List.mem_map.mp hn
      simp
    simp only [List.cons_append, List.length_cons, List.length_append] at hlines ⊢
    omega

theorem ample_chars (c : Config) : Ample (c.chars.length + 1) c := by
  have hguarded := length_le_list (c.arbitration.guarded.map fun u => quoted u.name)
  have hlowest := length_le_list (c.arbitration.lowest.map fun u => quoted u.name)
  rw [List.length_map] at hguarded hlowest
  have hsections : c.sectionChars.length ≤ c.chars.length := by
    unfold chars
    split <;> simp
    omega
  constructor <;> simp [sectionChars, arbitrationEntries, entry] at hsections <;> omega

theorem head_chars (c : Config) : c.chars.head? = some 'e' ∨ c.chars.head? = some '[' := by
  unfold chars
  split
  · exact .inl rfl
  · exact .inr rfl

theorem read?_chars {c : Config} (hmax : 0 ≤ c.limits.maxDurationMs) (hc : c.Representable) :
    Toml.read? (String.ofList c.chars) = some (Json.obj c.saved).document := by
  obtain ⟨root, path, hs, ht⟩ := run_chars hmax hc c.ample_chars
  have hrun : run (c.chars.length + 1) (c.chars.length + 1) {} c.chars = some ⟨root, path⟩ :=
    ht.run (Nat.le_succ _)
  unfold Toml.read?
  rw [String.toList_ofList]
  split
  · rename_i hmark
    rcases c.head_chars with hhead | hhead
    · rw [hmark] at hhead
      exact absurd (Option.some.inj hhead) (by decide)
    · rw [hmark] at hhead
      exact absurd (Option.some.inj hhead) (by decide)
  · dsimp only
    rw [hrun, Option.map_some, hs.document_eq]

/-- From its own text a configuration is loaded as it is. -/
theorem ofText_chars {c : Config} (h : c.fault? = none) (hmax : 0 ≤ c.limits.maxDurationMs)
    (hc : c.Representable) : ofText (String.ofList c.chars) = .ok c := by
  have hnames : (c.saved.map Prod.fst).Nodup := by
    unfold saved
    split
    · show ["effects", "limits", "arbitration", "permission", "actuator"].Nodup
      decide
    · show ["limits", "arbitration", "permission", "actuator", "effects"].Nodup
      decide
  have hdecode : Wire.decode? .file (Json.obj c.saved).document = some c :=
    decode_members .file c hnames c.lookup_saved
  rw [ofText, read?_chars hmax hc, Option.bind_eq_bind, Option.bind_some, hdecode]
  simp only [h]

/-- **A configuration that was written to a file is loaded from it.** If its limits pass their check,
it can be written unless the size of the command buffer or the duration of an effect is a number that
files do not have, and from what was written it is loaded as it was, whatever lists are empty and
whatever stands in the names of effects. -/
theorem loads_as_saved (c : Config) (h : c.fault? = none) :
    (c.text? = none ↔ Nat.pow 2 63 ≤ c.limits.commandBuffer.toNat ∨
      ∃ e ∈ c.effects, Nat.pow 2 63 ≤ e.durationMs.toNat) ∧
    ∀ t, c.text? = some t → ofText t = .ok c := by
  have hmax : 0 ≤ c.limits.maxDurationMs := by
    rw [fault?] at h
    split at h
    · cases h
    · rename_i hle
      exact Int64.le_of_lt (Int64.not_le.mp hle)
  by_cases hc : c.Representable
  · have htext := text?_of_representable hc
    constructor
    · constructor
      · intro hnone
        rw [htext] at hnone
        cases hnone
      · rintro (hbuffer | ⟨e, he, hduration⟩)
        · exact absurd hc.commandBuffer (Nat.not_lt.mpr hbuffer)
        · exact absurd (hc.effects e he) (Nat.not_lt.mpr hduration)
    · intro t ht
      rw [htext] at ht
      cases ht
      exact ofText_chars h hmax hc
  · have htext := text?_of_not_representable hc
    constructor
    · constructor
      · intro _
        by_contra hsmall
        rw [not_or] at hsmall
        apply hc
        refine ⟨Nat.not_le.mp hsmall.1, fun e he => ?_⟩
        exact Nat.not_le.mp fun hle => hsmall.2 ⟨e, he, hle⟩
      · intro _
        exact htext
    · intro t ht
      rw [htext] at ht
      cases ht

/-- Names with every kind of quotes, a line break, a backslash and control characters, a name twice,
an empty one, and a list without rejections; then a duration beyond 63 bits. -/
theorem loads_as_saved_sample :
    let c : Config := { rejected := [], effects := [⟨"a\"b\\\n'''\"\"\"", 0⟩, ⟨"\x00\x7f\t\r\n", 1⟩,
      ⟨"", 7⟩, ⟨"it's", 9223372036854775807⟩, ⟨"it's", 2⟩] }
    let d : Config := { effects := [⟨"", 9223372036854775808⟩] }
    c.fault? = none ∧ d.fault? = none ∧ (∃ t, c.text? = some t ∧ ofText t = .ok c) ∧
      d.text? = none := by
  intro c d
  have hc : c.fault? = none := by decide
  have hd : d.fault? = none := by decide
  obtain ⟨hfails, hloads⟩ := loads_as_saved c hc
  obtain ⟨t, ht⟩ := Option.ne_none_iff_exists'.mp fun hnone => absurd (hfails.mp hnone) (by decide)
  exact ⟨hc, hd, ⟨t, ht, hloads t ht⟩, (loads_as_saved d hd).1.mpr (by decide)⟩

end Config

end Haptics
