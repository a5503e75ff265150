import Haptics.Proofs.Keys
import Haptics.Proofs.Saving

/-! Files that give some of the keys of a configuration. For every choice of keys, and of sections
that are shown without one, there is such a file; whatever file gives these keys and no others is read
as the configuration that has its own values for them and the defaults for the rest. -/

namespace Haptics

open Toml Toml.Members Toml.Builder Wire

namespace Key

def all : List Key := [maxDurationMs, commandBuffer, repeatWins, lockRepeating, guarded, lowest,
  granted, rejected, effects]

theorem mem_all (k : Key) : k ∈ all := by cases k <;> decide

/-- The keys of a section. -/
def ofSection (home : String) : List Key := all.filter fun k => k.home? = some home

theorem sections_nodup : sections.Nodup := by decide

theorem effects_not_mem_sections : "effects" ∉ sections := by decide

theorem plain_name (k : Key) : Plain k.name := by cases k <;> decide

theorem name_injective {k k' : Key} (h : k.name = k'.name) : k = k' := by
  cases k <;> cases k' <;> first | rfl | exact absurd h (by decide)

instance (k : Key) : Lawful k.Value :=
  match k with
  | maxDurationMs => inferInstanceAs (Lawful Int64)
  | commandBuffer => inferInstanceAs (Lawful UInt64)
  | repeatWins | lockRepeating | granted => inferInstanceAs (Lawful Bool)
  | guarded | lowest => inferInstanceAs (Lawful (List Usage))
  | rejected => inferInstanceAs (Lawful (List Rejection))
  | effects => inferInstanceAs (Lawful (List Effect))

end Key

namespace Config

/-! ## Writing some of the keys -/

/-- What is written after a key on its line. Lists of tables have lines of their own. -/
def word (c : Config) : Key → List Char
  | .maxDurationMs => Decimal.integer c.limits.maxDurationMs.toInt
  | .commandBuffer => Decimal.digits c.limits.commandBuffer.toNat
  | .repeatWins => bool c.arbitration.repeatWins
  | .lockRepeating => bool c.arbitration.lockRepeating
  | .guarded => list (c.arbitration.guarded.map fun u => quoted u.name)
  | .lowest => list (c.arbitration.lowest.map fun u => quoted u.name)
  | .granted => bool c.granted
  | .rejected | .effects => []

/-- The lines of some keys. -/
def keyLines (c : Config) (keys : List Key) : List Char :=
  keys.flatMap fun k => entry k.name (c.word k)

/-- What stands for some keys in a document. -/
def keyMembers (c : Config) (keys : List Key) : List (String × Json) :=
  keys.map fun k => (k.name, encode (c.get k))

/-- The given keys of a section. -/
def givenIn (given : Key → Bool) (home : String) : List Key := (Key.ofSection home).filter given

/-- Whether a section is there: it has a given key, or it is shown without one. -/
def present (given : Key → Bool) (shown : String → Bool) (home : String) : Bool :=
  !(givenIn given home).isEmpty || shown home

def sectionLines (c : Config) (given : Key → Bool) (home : String) : List Char :=
  if home = "actuator" ∧ given .rejected then actuatorSection c.rejected
  else '\n' :: (header home ++ c.keyLines (givenIn given home))

/-- The sections of a file. -/
def sectionsLines (c : Config) (given : Key → Bool) (shown : String → Bool) (homes : List String) :
    List Char :=
  (homes.filter (present given shown)).flatMap (c.sectionLines given)

def sectionsMembers (c : Config) (given : Key → Bool) (shown : String → Bool)
    (homes : List String) : List (String × Json) :=
  (homes.filter (present given shown)).map fun home =>
    (home, .obj (c.keyMembers (givenIn given home)))

/-- An empty list of effects is written before all sections. -/
def leads (c : Config) (given : Key → Bool) : Bool := given .effects && c.effects.isEmpty

/-- Other effects are written as tables, after all sections. -/
def trails (c : Config) (given : Key → Bool) : Bool := given .effects && !c.effects.isEmpty

def effectsMember (c : Config) (there : Bool) : List (String × Json) :=
  if there then [("effects", encode c.effects)] else []

/-- A file with the given keys; it begins with an empty line. -/
def excerpt (c : Config) (given : Key → Bool) (shown : String → Bool) : List Char :=
  '\n' :: ((if c.leads given then entry "effects" (list []) else []) ++
    (c.sectionsLines given shown Key.sections ++
      if c.trails given then elements "effects" (c.effects.map effectEntries) else []))

def excerptMembers (c : Config) (given : Key → Bool) (shown : String → Bool) :
    List (String × Json) :=
  c.effectsMember (c.leads given) ++ c.sectionsMembers given shown Key.sections ++
    c.effectsMember (c.trails given)

section Reading
variable {c : Config} {fuel : Nat} {members : List (String × Json)} {given : Key → Bool}
  {shown : String → Bool}

/-! ## Reading them -/

theorem fills_key (hmax : 0 ≤ c.limits.maxDurationMs) (hc : c.Representable) {k : Key}
    (hr : k ≠ .rejected) (he : k ≠ .effects) (hn : members.lookup k.name = none)
    (hf : (c.word k).length < fuel) :
    Fills fuel members (entry k.name (c.word k)) (members ++ [(k.name, encode (c.get k))]) := by
  have hplain := k.plain_name
  have husages (us : List Usage) (h : (list (us.map fun u => quoted u.name)).length < fuel) :
      us.length < fuel := by
    have hle := length_le_list (us.map fun u => quoted u.name)
    rw [List.length_map] at hle
    exact Nat.lt_of_le_of_lt hle h
  cases k with
  | maxDurationMs => exact fills_int64 hplain hn hmax
  | commandBuffer => exact fills_uint64 hplain hn hc.commandBuffer
  | repeatWins | lockRepeating | granted => exact fills_bool hplain hn _
  | guarded | lowest => exact fills_usages hplain hn (husages _ hf)
  | rejected => exact absurd rfl hr
  | effects => exact absurd rfl he

/-- The lines of keys fill a table, whatever is in it under other names. -/
theorem fills_keys (hmax : 0 ≤ c.limits.maxDurationMs) (hc : c.Representable) {keys : List Key}
    (hr : .rejected ∉ keys) (he : .effects ∉ keys) (hd : keys.Nodup)
    (hn : ∀ k ∈ keys, members.lookup k.name = none) (hf : (c.keyLines keys).length < fuel) :
    Fills fuel members (c.keyLines keys) (members ++ c.keyMembers keys) := by
  induction keys generalizing members with
  | nil =>
    rw [keyMembers, List.map_nil, List.append_nil]
    exact fun _ _ _ => .nil
  | cons k keys ih =>
    obtain ⟨hk, hd⟩ := List.nodup_cons.mp hd
    obtain ⟨hkn, hn⟩ := List.forall_mem_cons.mp hn
    simp only [keyLines, List.flatMap_cons, List.length_append] at hf
    have hword : (c.word k).length < fuel := by
      simp only [entry, List.length_append] at hf
      omega
    have hkey := fills_key hmax hc (Ne.symm (List.ne_of_not_mem_cons hr))
      (Ne.symm (List.ne_of_not_mem_cons he)) hkn hword
    have hnext : ∀ k' ∈ keys,
        (members ++ [(k.name, encode (c.get k))]).lookup k'.name = none := by
      intro k' hk'
      have hne : k'.name ≠ k.name := fun hname => hk (Key.name_injective hname ▸ hk')
      exact lookup_append_none (hn k' hk') (by simp [List.lookup_cons, beq_false_of_ne hne])
    have hrest := ih (List.not_mem_of_not_mem_cons hr) (List.not_mem_of_not_mem_cons he) hd hnext
      (by unfold keyLines; omega)
    have hboth := hkey.trans hrest
    rwa [List.append_assoc] at hboth

theorem mem_givenIn {home : String} {k : Key} :
    k ∈ givenIn given home ↔ k.home? = some home ∧ given k = true := by
  simp [givenIn, Key.ofSection, Key.mem_all, and_comm]

theorem nodup_givenIn (given : Key → Bool) (home : String) : (givenIn given home).Nodup := by
  have hall : Key.all.Nodup := by decide
  exact (hall.filter _).filter _

theorem adds_section (hmax : 0 ≤ c.limits.maxDurationMs) (hc : c.Representable) {home : String}
    (hh : home ∈ Key.sections) (hn : members.lookup home = none)
    (hf : (c.sectionLines given home).length < fuel) :
    Adds fuel members (c.sectionLines given home)
      (members ++ [(home, .obj (c.keyMembers (givenIn given home)))]) := by
  unfold sectionLines at hf ⊢
  split
  · rename_i hactuator
    obtain ⟨rfl, hg⟩ := hactuator
    have hkeys : givenIn given "actuator" = [.rejected] := by
      have hsection : Key.ofSection "actuator" = [.rejected] := by decide
      rw [givenIn, hsection, List.filter_cons_of_pos hg]
      rfl
    rw [hkeys]
    exact adds_actuator (Nat.zero_lt_of_lt hf) hn
  · rename_i hactuator
    rw [if_neg hactuator] at hf
    have hplain : Plain home := by
      have hall : ∀ home ∈ Key.sections, Plain home := by decide
      exact hall home hh
    have hfills : Fills fuel [] (c.keyLines (givenIn given home))
        ([] ++ c.keyMembers (givenIn given home)) := by
      refine fills_keys hmax hc (fun hr => ?_) (fun he => ?_) (nodup_givenIn given home)
        (fun _ _ => rfl) ?_
      · obtain ⟨hhome, hg⟩ := mem_givenIn.mp hr
        exact absurd ⟨(Option.some.inj hhome).symm, hg⟩ hactuator
      · cases (mem_givenIn.mp he).1
      · simp only [List.length_cons, List.length_append] at hf
        omega
    exact (Adds.table hplain hn hfills).emptyLine

/-- Sections follow one another. -/
theorem adds_homes (hmax : 0 ≤ c.limits.maxDurationMs) (hc : c.Representable) {homes : List String}
    (hh : ∀ home ∈ homes, home ∈ Key.sections) (hd : homes.Nodup)
    (hn : ∀ home ∈ homes, members.lookup home = none)
    (hf : (homes.flatMap (c.sectionLines given)).length < fuel) :
    Adds fuel members (homes.flatMap (c.sectionLines given))
      (members ++ homes.map fun home => (home, .obj (c.keyMembers (givenIn given home)))) := by
  induction homes generalizing members with
  | nil =>
    intro root path hs
    exact ⟨root, path, by simpa using hs, .nil⟩
  | cons home homes ih =>
    obtain ⟨hsection, hh⟩ := List.forall_mem_cons.mp hh
    obtain ⟨hfresh, hn⟩ := List.forall_mem_cons.mp hn
    obtain ⟨hnot, hd⟩ := List.nodup_cons.mp hd
    rw [List.flatMap_cons, List.length_append] at hf
    have hone : Adds fuel members (c.sectionLines given home) _ :=
      adds_section hmax hc hsection hfresh (by omega)
    have hnext : ∀ home' ∈ homes, (members ++
        [(home, Json.obj (c.keyMembers (givenIn given home)))]).lookup home' = none := by
      intro home' hm
      have hne : home' ≠ home := fun h => hnot (h ▸ hm)
      exact lookup_append_none (hn home' hm) (by simp [List.lookup_cons, beq_false_of_ne hne])
    have hboth := hone.trans (ih hh hd hnext (by omega))
    rwa [List.append_assoc] at hboth

theorem takes_leading (h : c.leads given) (hf : 0 < fuel) :
    Takes fuel ⟨[], []⟩ (entry "effects" (list [])) ⟨values (c.effectsMember true), []⟩ := by
  have hempty : c.effects = [] := by
    have hboth := Bool.and_eq_true_iff.mp h
    simpa using hboth.2
  have hfills : Fills fuel [] (entry "effects" (list [])) [("effects", .arr [])] :=
    fills_nil (by decide) rfl hf
  rw [effectsMember, hempty]
  exact hfills [] id Leads.nil

theorem adds_trailing (hc : c.Representable) (h : c.trails given)
    (hn : members.lookup "effects" = none) :
    Adds fuel members (elements "effects" (c.effects.map effectEntries))
      (members ++ c.effectsMember true) := by
  have hne : c.effects ≠ [] := by
    have hboth := Bool.and_eq_true_iff.mp h
    simpa using hboth.2
  exact adds_elements (by decide) hn hne fun e hm => fills_effect (hc.effects e hm)

theorem stands_values (members : List (String × Json)) : Stands (values members) members := by
  rw [Stands, values, List.map_map]
  rfl

theorem lookup_sectionsMembers {name : String} {homes : List String} (h : name ∉ homes) :
    (c.sectionsMembers given shown homes).lookup name = none := by
  refine List.lookup_eq_none_iff.mpr fun m hm => ?_
  obtain ⟨home, hhome, rfl⟩ := List.mem_map.mp hm
  have hne : name ≠ home := fun hname => h (hname ▸ List.mem_of_mem_filter hhome)
  simpa using hne

theorem takes_excerpt (hmax : 0 ≤ c.limits.maxDurationMs) (hc : c.Representable)
    (given : Key → Bool) (shown : String → Bool) (hf : (c.excerpt given shown).length ≤ fuel) :
    ∃ root path, Stands root (c.excerptMembers given shown) ∧
      Takes fuel ⟨[], []⟩ (c.excerpt given shown) ⟨root, path⟩ := by
  unfold excerpt at hf ⊢
  simp only [List.length_cons, List.length_append] at hf
  have hfirst : Takes fuel ⟨[], []⟩ (if c.leads given then entry "effects" (list []) else [])
      ⟨values (c.effectsMember (c.leads given)), []⟩ := by
    cases hl : c.leads given with
    | true => exact takes_leading hl (by omega)
    | false => exact .nil
  have hsections : Adds fuel (c.effectsMember (c.leads given))
      (c.sectionsLines given shown Key.sections)
      (c.effectsMember (c.leads given) ++ c.sectionsMembers given shown Key.sections) := by
    refine adds_homes hmax hc (fun home hm => List.mem_of_mem_filter hm)
      (Key.sections_nodup.filter _) (fun home hm => ?_) (by unfold sectionsLines at hf; omega)
    have hne := ne_of_mem_of_not_mem (List.mem_of_mem_filter hm) Key.effects_not_mem_sections
    unfold effectsMember
    split
    · simp [List.lookup_cons, beq_false_of_ne hne]
    · rfl
  have hlast : Adds fuel
      (c.effectsMember (c.leads given) ++ c.sectionsMembers given shown Key.sections)
      (if c.trails given then elements "effects" (c.effects.map effectEntries) else [])
      (c.excerptMembers given shown) := by
    unfold excerptMembers
    cases ht : c.trails given with
    | true =>
      refine adds_trailing hc ht
        (lookup_append_none ?_ (lookup_sectionsMembers Key.effects_not_mem_sections))
      have hl : c.leads given = false := by
        simp only [trails, leads, Bool.and_eq_true, Bool.not_eq_true'] at ht ⊢
        rw [ht.2, Bool.and_false]
      rw [hl]
      rfl
    | false => exact fun root path hs => ⟨root, path, by simpa [effectsMember] using hs, .nil⟩
  obtain ⟨root, path, hs, htakes⟩ := hsections.trans hlast _ [] (stands_values _)
  exact ⟨root, path, hs, Takes.empty.trans (hfirst.trans htakes)⟩

theorem read?_excerpt (hmax : 0 ≤ c.limits.maxDurationMs) (hc : c.Representable)
    (given : Key → Bool) (shown : String → Bool) :
    Toml.read? (String.ofList (c.excerpt given shown)) =
      some (Json.obj (c.excerptMembers given shown)).document := by
  obtain ⟨root, path, hs, ht⟩ := takes_excerpt hmax hc given shown (Nat.le_succ _)
  have hrun := ht.run (Nat.le_succ _)
  unfold Toml.read?
  rw [String.toList_ofList]
  split
  · rename_i hmark
    exact absurd (List.cons.inj hmark).1 (by decide)
  · dsimp only
    rw [hrun, Option.map_some, hs.document_eq]

/-! ## What such a file gives -/

section Gives
variable {ι : Type} [DecidableEq ι]

theorem memberDocuments_append (ms ms' : List (String × Json)) :
    Json.memberDocuments (ms ++ ms') = Json.memberDocuments ms ++ Json.memberDocuments ms' := by
  induction ms with
  | nil => rfl
  | cons m ms ih =>
    rw [List.cons_append, Json.memberDocuments, ih]
    rfl

/-- Under one of several names there is what belongs to it, and nothing under another. -/
theorem under_map {f : ι → String} (hf : ∀ i i', f i = f i' → i = i') (g : ι → Json) {is : List ι}
    (hd : is.Nodup) (i : ι) :
    Document.under (f i) (Json.memberDocuments (is.map fun i => (f i, g i))) =
      if i ∈ is then [(g i).document] else [] := by
  induction is with
  | nil => rfl
  | cons i' is ih =>
    obtain ⟨hn, hd⟩ := List.nodup_cons.mp hd
    have hi := ih hd
    rw [List.map_cons, Json.memberDocuments]
    unfold Document.under at hi ⊢
    by_cases he : i = i'
    · subst he
      rw [if_neg hn] at hi
      rw [List.filter_cons_of_pos (by simp), List.map_cons, hi, if_pos List.mem_cons_self]
    · have hne : f i' ≠ f i := fun h => he (hf i' i h).symm
      rw [List.filter_cons_of_neg (by simpa using hne), hi]
      simp [he]

end Gives

theorem under_section (c : Config) (given : Key → Bool) (shown : String → Bool) {home : String}
    (hh : home ∈ Key.sections) :
    Document.under home (Json.memberDocuments (c.excerptMembers given shown)) =
      if present given shown home then
        [.table (Json.memberDocuments (c.keyMembers (givenIn given home)))] else [] := by
  have hne := ne_of_mem_of_not_mem hh Key.effects_not_mem_sections
  have heffects (there : Bool) :
      Document.under home (Json.memberDocuments (c.effectsMember there)) = [] := by
    unfold effectsMember
    split
    · simp [Json.memberDocuments, Document.under, hne.symm]
    · rfl
  have hunder := under_map (fun _ _ h => h)
    (fun home => Json.obj (c.keyMembers (givenIn given home)))
    (Key.sections_nodup.filter (present given shown)) home
  rw [excerptMembers, memberDocuments_append, memberDocuments_append, Document.under_append,
    Document.under_append,
    heffects, heffects, List.nil_append, List.append_nil, sectionsMembers]
  refine hunder.trans ?_
  simp only [List.mem_filter, hh, true_and]
  rfl

theorem sectionMembers_excerpt (c : Config) (given : Key → Bool) (shown : String → Bool)
    {home : String} (hh : home ∈ Key.sections) :
    sectionMembers home (Json.memberDocuments (c.excerptMembers given shown)) =
      Json.memberDocuments (c.keyMembers (givenIn given home)) := by
  rw [sectionMembers, under_section c given shown hh]
  split
  · exact List.flatMap_singleton ..
  · rename_i hpresent
    have hnone : givenIn given home = [] := by
      simp only [present, Bool.or_eq_true, not_or] at hpresent
      simpa using hpresent.1
    rw [hnone]
    rfl

theorem under_effects (c : Config) (given : Key → Bool) (shown : String → Bool) :
    Document.under "effects" (Json.memberDocuments (c.excerptMembers given shown)) =
      if given .effects then [(encode c.effects).document] else [] := by
  have hunder := under_map (fun _ _ h => h)
    (fun home => Json.obj (c.keyMembers (givenIn given home)))
    (Key.sections_nodup.filter (present given shown)) "effects"
  have hnot : "effects" ∉ Key.sections.filter (present given shown) :=
    fun hm => Key.effects_not_mem_sections (List.mem_of_mem_filter hm)
  rw [if_neg hnot] at hunder
  have heffects (there : Bool) :
      Document.under "effects" (Json.memberDocuments (c.effectsMember there)) =
        if there then [(encode c.effects).document] else [] := by
    cases there <;> rfl
  rw [excerptMembers, memberDocuments_append, memberDocuments_append, Document.under_append,
    Document.under_append,
    heffects, heffects, sectionsMembers, hunder, List.append_nil]
  unfold leads trails
  cases given .effects <;> cases c.effects.isEmpty <;> rfl

/-- Such a file gives the given keys and no others. -/
theorem gives_excerpt (c : Config) (given : Key → Bool) (shown : String → Bool) :
    Gives c given (Json.memberDocuments (c.excerptMembers given shown)) := by
  have hfound (k : Key) :
      k.found (Json.memberDocuments (c.excerptMembers given shown)) =
        if given k then [(encode (c.get k)).document] else [] := by
    unfold Key.found
    cases hk : k.home? with
    | none =>
      cases k <;> cases hk
      exact under_effects c given shown
    | some home =>
      have hh : home ∈ Key.sections := by
        cases k <;> cases hk <;> decide
      dsimp only
      rw [sectionMembers_excerpt c given shown hh]
      refine (under_map (fun _ _ => Key.name_injective) (fun k => encode (c.get k))
        (nodup_givenIn given home) k).trans ?_
      simp only [mem_givenIn, hk, true_and]
  refine ⟨Document.allNamed_memberDocuments _, fun home hh => ?_, fun k hg => ?_, fun k hg => ?_⟩
  · rw [under_section c given shown hh]
    split
    · exact .inr ⟨_, rfl, Document.allNamed_memberDocuments _⟩
    · exact .inl rfl
  · exact ⟨_, by rw [hfound, if_pos hg], Lawful.decode .file (c.get k)⟩
  · rw [hfound, if_neg (by simp [hg])]

end Reading

/-- **Absent keys have their defaults.** Let the limits of a configuration pass their check, and let a
file give some of its keys, whatever else is in it and however it is laid out. Then the file is
loaded, and what is loaded has the values of that configuration under the given keys and the defaults
under all others, each key on its own; sections without keys may be absent or empty. If files have the
numbers of the configuration there is such a file for every choice of keys and of empty sections. -/
theorem absent_keys_default (c : Config) (h : c.fault? = none) (given : Key → Bool) :
    (∀ t members, Toml.read? t = some (.table members) → Gives c given members →
      ∃ c', ofText t = .ok c' ∧ ∀ k, c'.get k = (if given k then c else {}).get k) ∧
    (c.Representable → ∀ shown : String → Bool, ∃ members,
      Toml.read? (String.ofList (c.excerpt given shown)) = some (.table members) ∧
      Gives c given members ∧ ∀ home ∈ Key.sections, (Document.under home members = [] ↔
        shown home = false ∧ ∀ k, k.home? = some home → given k = false)) := by
  constructor
  · intro t members ht hg
    exact ⟨_, hg.ofText h ht, get_ofKeys (c.pick given)⟩
  · intro hc shown
    have hmax : 0 ≤ c.limits.maxDurationMs := Int64.le_of_lt (Int64.not_le.mp (limits_of_fault? h).1)
    refine ⟨_, read?_excerpt hmax hc given shown, c.gives_excerpt given shown, fun home hh => ?_⟩
    rw [under_section c given shown hh]
    have hnone : givenIn given home = [] ↔ ∀ k, k.home? = some home → given k = false := by
      rw [List.eq_nil_iff_forall_not_mem]
      refine forall_congr' fun k => ?_
      rw [mem_givenIn, not_and, Bool.not_eq_true]
    rw [← hnone]
    cases hs : shown home <;> cases hk : givenIn given home <;> simp [present, hs, hk]

/-- A file that gives an empty list for the lowest usages and the size of the buffer, and has a section
that is empty: the list stays empty, and all other keys have their defaults. -/
theorem absent_keys_default_sample :
    let c : Config := { limits := { commandBuffer := 7 }, arbitration := { lowest := [] } }
    let given : Key → Bool := fun k => k = .lowest || k = .commandBuffer
    let t := "\n\n[limits]\ncommand_buffer = 7\n\n[arbitration]\nlowest_priority_usages = []\n" ++
      "\n[permission]\n"
    c.fault? = none ∧ c.Representable ∧ t = String.ofList (c.excerpt given (· = "permission")) ∧
      ∃ c', ofText t = .ok c' ∧ c'.arbitration.lowest = [] ∧ c'.limits.commandBuffer = 7 ∧
        c'.arbitration.guarded = [.alarm] ∧ c'.effects = Effect.builtin := by
  intro c given t
  have hc : c.fault? = none := by decide
  have hr : c.Representable := ⟨by decide, by decide⟩
  have ht : t = String.ofList (c.excerpt given (· = "permission")) := by decide
  obtain ⟨hloads, hexists⟩ := absent_keys_default c hc given
  obtain ⟨members, hread, hg, -⟩ := hexists hr (· = "permission")
  obtain ⟨c', hc', hget⟩ := hloads t members (ht ▸ hread) hg
  exact ⟨hc, hr, ht, c', hc', hget .lowest, hget .commandBuffer, hget .guarded, hget .effects⟩

end Config

end Haptics
