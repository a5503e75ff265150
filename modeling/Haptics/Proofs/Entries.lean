import Haptics.Toml.Reader
import Haptics.Proofs.Words

/-! The lines of a written configuration file, and what each of them does to the table that is being
filled. A piece of text is described by the state it leads to, whatever comes after it. -/

namespace Haptics.Toml

/-! ## Lines -/

namespace Statement
variable {fuel : Nat} {key : String} {rest : List Char}

/-- What does not begin with a bracket is an assignment. -/
theorem read?_of_bare {c : Char} {cs : List Char} (hc : isBareChar c = true) :
    read? fuel (c :: cs) = do
      let (path, name, cs) ← Key.read? (c :: cs)
      let (value, cs) ← Value.read? fuel Value.room (skipBlanks (← Scalar.mark? '=' cs))
      return (.assignment path name value, cs) := by
  have hopen : c ≠ '[' := ne_of_bare hc (by decide)
  unfold read?
  split
  · rename_i heq
    cases heq
    exact absurd rfl hopen
  · rename_i heq
    cases heq
    exact absurd rfl hopen
  · rfl

theorem read?_entry {w : List Char} {d : Document} (hk : Plain key)
    (hv : Value.Reads (Value.read? fuel Value.room) w d) :
    read? fuel (entry key w ++ rest) = some (.assignment [] key d, '\n' :: rest) := by
  have htext : entry key w ++ rest = key.toList ++ ' ' :: '=' :: ' ' :: (w ++ '\n' :: rest) := by
    simp [entry]
  have hkey : Key.read? (key.toList ++ ' ' :: '=' :: ' ' :: (w ++ '\n' :: rest)) =
      some ([], key, '=' :: ' ' :: (w ++ '\n' :: rest)) := by
    apply Key.read?_plain hk
    · intro c hc
      cases hc
      decide
    · intro hdot
      exact absurd (Option.some.inj hdot) (by decide)
  have hblank : skipBlanks (' ' :: (w ++ '\n' :: rest)) = w ++ '\n' :: rest := by
    obtain ⟨c, cs, rfl, hc⟩ := hv.head
    rw [List.cons_append]
    show List.dropWhile isBlank (c :: _) = _
    rw [List.dropWhile_cons, hc]
    rfl
  have hvalue := hv.read ('\n' :: rest) ⟨'\n', by decide, rfl⟩
  obtain ⟨c, cs, hcs, hc⟩ := hk.head
  rw [htext, hcs, List.cons_append, read?_of_bare hc, ← List.cons_append, ← hcs, hkey]
  simp [Scalar.mark?, hblank, hvalue]

theorem read?_header (hk : Plain key) :
    read? fuel (Toml.header key ++ rest) = some (.header [] key, '\n' :: rest) := by
  have htext : Toml.header key ++ rest = '[' :: (key.toList ++ ']' :: '\n' :: rest) := by
    simp [Toml.header]
  have hkey : Key.read? (key.toList ++ ']' :: '\n' :: rest) =
      some ([], key, ']' :: '\n' :: rest) := Key.read?_bracket hk
  obtain ⟨c, cs, hcs, hc⟩ := hk.head
  have hopen : c ≠ '[' := ne_of_bare hc (by decide)
  rw [htext]
  unfold read?
  split
  · rename_i heq
    rw [hcs] at heq
    cases heq
    exact absurd rfl hopen
  · rename_i heq
    cases heq
    rw [hkey]
    rfl
  · rename_i hne
    exact absurd rfl (hne _)

theorem read?_element {path : List String} {name : String}
    (hk : ∀ cs, Key.read? (key.toList ++ ']' :: cs) = some (path, name, ']' :: cs)) :
    read? fuel (elementHeader key ++ rest) = some (.element path name, '\n' :: rest) := by
  have htext : elementHeader key ++ rest =
      '[' :: '[' :: (key.toList ++ ']' :: ']' :: '\n' :: rest) := by
    simp [elementHeader]
  rw [htext, read?, hk]
  rfl

end Statement

namespace Builder
variable {fuel lines : Nat} {b b' b'' : Builder} {cs cs' rest : List Char}

theorem run_nil : run fuel lines b [] = some b := by
  cases lines <;> rfl

/-- More lines than a text has do no harm. -/
theorem run_succ (h : run fuel lines b cs = some b') : run fuel (lines + 1) b cs = some b' := by
  -- Both take the same line first; the one that is left over is not needed at the end of the text.
  induction lines generalizing b cs with
  | zero =>
    rw [run] at h
    split at h
    · rename_i hcs
      rw [List.isEmpty_iff.mp hcs, run_nil]
      exact h
    · cases h
  | succ lines ih =>
    rw [run] at h ⊢
    cases hcs : skipBlanks cs with
    | nil =>
      rw [hcs] at h
      exact h
    | cons c cs =>
      simp only [hcs] at h ⊢
      split at h
      · rename_i hempty
        obtain ⟨rest, hrest, h⟩ := Option.bind_eq_some_iff.mp h
        rw [if_pos hempty, hrest]
        exact ih h
      · rename_i hempty
        obtain ⟨⟨s, rest⟩, hs, h⟩ := Option.bind_eq_some_iff.mp h
        obtain ⟨c, hc, h⟩ := Option.bind_eq_some_iff.mp h
        obtain ⟨rest', hrest, h⟩ := Option.bind_eq_some_iff.mp h
        rw [if_neg hempty, hs]
        simp only [Option.bind_eq_bind, Option.bind_some, hc, hrest]
        exact ih h

theorem run_add (h : run fuel lines b cs = some b') (k : Nat) :
    run fuel (lines + k) b cs = some b' := by
  induction k with
  | zero => exact h
  | succ k ih => exact run_succ ih

/-- A line that begins with a key or a bracket has a statement. -/
theorem run_line {s : Statement} {c : Char} (hc : isBareChar c = true ∨ c = '[')
    (hs : Statement.read? fuel (c :: cs) = some (s, '\n' :: rest)) (hb : b.apply s = some b') :
    run fuel (lines + 1) b (c :: cs) = run fuel lines b' rest := by
  have hother {d : Char} (hd : isBareChar d = false) (hne : '[' ≠ d) : c ≠ d := by
    rcases hc with hc | rfl
    · exact ne_of_bare hc hd
    · exact hne
  have hspace : c ≠ ' ' := hother (by decide) (by decide)
  have htab : c ≠ '\t' := hother (by decide) (by decide)
  have hbreak : c ≠ '\n' := hother (by decide) (by decide)
  have hreturn : c ≠ '\r' := hother (by decide) (by decide)
  have hcomment : c ≠ '#' := hother (by decide) (by decide)
  have hblank : skipBlanks (c :: cs) = c :: cs := by
    simp [skipBlanks, isBlank, hspace, htab]
  have hempty : ¬ Statement.isEmptyLine (c :: cs) = true := by
    unfold Statement.isEmptyLine
    split <;> simp_all
  rw [run]
  simp only [hblank]
  rw [if_neg hempty, hs]
  simp only [Option.bind_eq_bind, Option.bind_some, hb]
  rfl

/-- A piece of text leads from one state of the builder to another, whatever follows. -/
def Takes (fuel : Nat) (b : Builder) (cs : List Char) (b' : Builder) : Prop :=
  ∀ rest lines r, run fuel lines b' rest = some r →
    run fuel (lines + cs.length) b (cs ++ rest) = some r

namespace Takes

theorem nil : Takes fuel b [] b := by
  intro rest lines r hr
  exact hr

theorem trans (h : Takes fuel b cs b') (h' : Takes fuel b' cs' b'') :
    Takes fuel b (cs ++ cs') b'' := by
  intro rest lines r hr
  have hrun := h _ _ r (h' rest lines r hr)
  rw [List.append_assoc, List.length_append, Nat.add_comm cs.length, ← Nat.add_assoc]
  exact hrun

theorem empty : Takes fuel b ['\n'] b := by
  intro rest lines r hr
  exact hr

theorem run (h : Takes fuel b cs b') (hf : cs.length ≤ lines) :
    Builder.run fuel lines b cs = some b' := by
  have hrun := h [] (lines - cs.length) b' run_nil
  rwa [List.append_nil, Nat.sub_add_cancel hf] at hrun

/-- A line with a statement. -/
theorem statement {s : Statement} {c : Char} (hc : isBareChar c = true ∨ c = '[')
    (hs : ∀ rest, Statement.read? fuel (c :: cs ++ rest) = some (s, '\n' :: rest))
    (hb : b.apply s = some b') : Takes fuel b (c :: cs) b' := by
  intro rest lines r hr
  have hline : Builder.run fuel (lines + cs.length + 1) b (c :: cs ++ rest) =
      Builder.run fuel (lines + cs.length) b' rest := run_line hc (hs rest) hb
  exact hline.trans (run_add hr cs.length)

end Takes

end Builder

/-! ## Tables -/

namespace Members
variable {ms : Members} {name : String} {n m : Node}

/-- A name that is not in the first part is put into the second. -/
theorem set_append (h : ms.lookup name = none) (ms' : Members) :
    set name n (ms ++ ms') = ms ++ set name n ms' := by
  induction ms with
  | nil => rfl
  | cons e ms ih =>
    obtain ⟨k, m⟩ := e
    rw [List.lookup_cons] at h
    split at h
    · cases h
    · rename_i hne
      have hk : ¬ k = name := by
        rintro rfl
        simp at hne
      rw [List.cons_append, set, if_neg hk, ih h, List.cons_append]

theorem set_fresh (h : ms.lookup name = none) : set name n ms = ms ++ [(name, n)] := by
  have hset := set_append (n := n) h []
  rwa [List.append_nil] at hset

theorem set_last (h : ms.lookup name = none) :
    set name n (ms ++ [(name, m)]) = ms ++ [(name, n)] := by
  rw [set_append h, set, if_pos rfl]

theorem lookup_last (h : ms.lookup name = none) : (ms ++ [(name, n)]).lookup name = some n := by
  rw [List.lookup_append, h, List.lookup_cons_self]
  rfl

/-- The path leads to the table in the hole, and a change to it is put back into the hole. -/
def Leads (path : List String) (hole : Members → Members) : Prop :=
  ∀ (f : Members → Option Members) origin sub,
    change false (fun _ ms => f ms) path origin (hole sub) = (f sub).map hole

namespace Leads
variable {path : List String} {hole : Members → Members}

theorem nil : Leads [] id := by
  intro f origin sub
  rw [Option.map_id]
  rfl

theorem table (hn : ms.lookup name = none) {origin : Origin} (h : Leads path hole) :
    Leads (name :: path) fun sub => ms ++ [(name, .table origin (hole sub))] := by
  intro f _ sub
  rw [change, lookup_last hn]
  simp [h f, set_last hn, Function.comp_def]

theorem tables (hn : ms.lookup name = none) {before : List Members} (h : Leads path hole) :
    Leads (name :: path) fun sub => ms ++ [(name, .tables (hole sub :: before))] := by
  intro f _ sub
  rw [change, lookup_last hn]
  simp [h f, set_last hn, Function.comp_def]

end Leads

/-- A table whose members are values. -/
def values (members : List (String × Json)) : Members :=
  members.map fun m => (m.1, .value m.2.document)

theorem lookup_values (name : String) (members : List (String × Json)) :
    (values members).lookup name = (members.lookup name).map fun j => .value j.document := by
  induction members with
  | nil => rfl
  | cons m ms ih =>
    rw [values, List.map_cons, List.lookup_cons, List.lookup_cons, ← values, ih]
    split <;> rfl

theorem memberDocuments_values (members : List (String × Json)) :
    Node.memberDocuments (values members) = Json.memberDocuments members := by
  induction members with
  | nil => rfl
  | cons m ms ih =>
    rw [values, List.map_cons, Node.memberDocuments, ← values, ih]
    rfl

/-- The last table stands first. -/
theorem tableDocuments_eq (items : List Members) (done : List Document) :
    Node.tableDocuments items done = (items.map document).reverse ++ done := by
  induction items generalizing done with
  | nil => rfl
  | cons ms items ih =>
    rw [Node.tableDocuments, ih, List.map_cons, List.reverse_cons, List.append_assoc]
    rfl

theorem tables_document (tables : List (List (String × Json))) :
    (Node.tables (tables.map values).reverse).document = (Json.arr (tables.map .obj)).document := by
  rw [Node.document, tableDocuments_eq, List.append_nil, List.map_reverse, List.reverse_reverse,
    List.map_map, Json.document]
  apply congrArg Document.list
  induction tables with
  | nil => rfl
  | cons ms tables ih =>
    rw [List.map_cons, List.map_cons, Json.documents, ih]
    rw [Function.comp_apply, document, memberDocuments_values, Json.document]

end Members

namespace Builder
variable {fuel : Nat} {path : List String} {key : String} {root : Members}
  {members members' members'' : List (String × Json)} {cs cs' w : List Char} {j : Json}

open Members

/-- A piece of text adds members to whatever table is being filled. -/
def Fills (fuel : Nat) (members : List (String × Json)) (cs : List Char)
    (members' : List (String × Json)) : Prop :=
  ∀ path hole, Leads path hole →
    Takes fuel ⟨hole (values members), path⟩ cs ⟨hole (values members'), path⟩

namespace Fills

theorem trans (h : Fills fuel members cs members') (h' : Fills fuel members' cs' members'') :
    Fills fuel members (cs ++ cs') members'' :=
  fun path hole hp => (h path hole hp).trans (h' path hole hp)

theorem entry (hk : Plain key) (hf : members.lookup key = none)
    (hv : Value.Reads (Value.read? fuel Value.room) w j.document) :
    Fills fuel members (entry key w) (members ++ [(key, j)]) := by
  intro path hole hp
  have hfresh : (values members).lookup key = none := by
    rw [lookup_values, hf]
    rfl
  have hassign : assign [] key j.document (values members) = some (values (members ++ [(key, j)])) := by
    rw [assign, change, hfresh, if_neg (by simp), set_fresh hfresh, values, values, List.map_append]
    rfl
  have happly : apply ⟨hole (values members), path⟩ (.assignment [] key j.document) =
      some ⟨hole (values (members ++ [(key, j)])), path⟩ := by
    rw [apply]
    simp [hp (fun ms => ms.assign [] key j.document), hassign]
  obtain ⟨c, cs, hcs, hc⟩ := hk.head
  have hs (rest : List Char) : Statement.read? fuel (Toml.entry key w ++ rest) =
      some (.assignment [] key j.document, '\n' :: rest) := Statement.read?_entry hk hv
  unfold Toml.entry at hs ⊢
  rw [hcs] at hs ⊢
  exact Takes.statement (.inl hc) hs happly

end Fills

/-- The table with nothing in it is there once its header has been read. -/
theorem takes_header (hk : Plain key) (hn : root.lookup key = none)
    (h : Fills fuel [] cs members) :
    Takes fuel ⟨root, path⟩ (header key ++ cs)
      ⟨root ++ [(key, .table .declared (values members))], [key]⟩ := by
  have hdeclare : apply ⟨root, path⟩ (.header [] key) =
      some ⟨root ++ [(key, .table .declared (values []))], [key]⟩ := by
    simp [apply, change, declare, hn, set_fresh hn, values]
  have hheader : Takes fuel ⟨root, path⟩ (header key)
      ⟨root ++ [(key, .table .declared (values []))], [key]⟩ :=
    Takes.statement (.inr rfl) (fun _ => Statement.read?_header hk) hdeclare
  exact hheader.trans (h [key] _ (Leads.nil.table hn))

/-! ### Tables under one header -/

/-- Where tables under one double-bracketed header are collected, last one first; before the first
of them the place may not be there. -/
structure Collects (path : List String) (name : String) (place : List Members → Members) :
    Prop where
  grows : ∀ items, change false (fun _ ms => append name ms) path .declared (place items) =
    some (place ([] :: items))
  leads : ∀ items, Leads (path ++ [name]) fun sub => place (sub :: items)

/-- The place at the top of a file. -/
def atRoot (root : Members) (name : String) : List Members → Members
  | [] => root
  | items => root ++ [(name, .tables items)]

/-- The place one level down, in a table without a header of its own. -/
def below (root : Members) (outer name : String) : List Members → Members
  | [] => root
  | items => root ++ [(outer, .table .implied [(name, .tables items)])]

theorem collects_atRoot {name : String} (hn : root.lookup name = none) :
    Collects [] name (atRoot root name) := by
  constructor
  · intro items
    cases items with
    | nil => simp [change, append, atRoot, hn, set_fresh hn]
    | cons item items => simp [change, append, atRoot, lookup_last hn, set_last hn]
  · intro items
    exact Leads.nil.tables hn

theorem collects_below {outer name : String} (hn : root.lookup outer = none) :
    Collects [outer] name (below root outer name) := by
  constructor
  · intro items
    cases items with
    | nil => simp [change, append, below, hn, set_fresh hn, Members.set]
    | cons item items => simp [change, append, below, lookup_last hn, set_last hn, Members.set]
  · intro items
    have hinner : Leads [name] fun sub => [] ++ [(name, .tables (id sub :: items))] :=
      Leads.nil.tables rfl
    exact hinner.table hn

theorem takes_element {place : List Members → Members} {items : List Members} {path' : List String}
    {name : String} (hk : ∀ cs, Key.read? (key.toList ++ ']' :: cs) = some (path, name, ']' :: cs))
    (hc : Collects path name place) (h : Fills fuel [] cs members) :
    Takes fuel ⟨place items, path'⟩ (elementHeader key ++ cs)
      ⟨place (values members :: items), path ++ [name]⟩ := by
  have happend : apply ⟨place items, path'⟩ (.element path name) =
      some ⟨place (values [] :: items), path ++ [name]⟩ := by
    simp [apply, hc.grows items, values]
  have hheader : Takes fuel ⟨place items, path'⟩ (elementHeader key)
      ⟨place (values [] :: items), path ++ [name]⟩ :=
    Takes.statement (.inr rfl) (fun _ => Statement.read?_element hk) happend
  exact hheader.trans (h _ _ (hc.leads items))

end Builder

/-! ## Sections of a file -/

section Sections

open Members

/-- What a document shows of a table: the names of its members in order, and what they hold. -/
def Stands (root : Members) (members : List (String × Json)) : Prop :=
  root.map (fun m => (m.1, m.2.document)) = members.map fun m => (m.1, m.2.document)

namespace Stands
variable {root : Members} {members : List (String × Json)} {name : String} {n : Node} {j : Json}

theorem lookup_eq_none (h : Stands root members) (hn : members.lookup name = none) :
    root.lookup name = none := by
  have hnames : root.map Prod.fst = members.map Prod.fst := by
    have hnames := congrArg (List.map Prod.fst) h
    rwa [List.map_map, List.map_map] at hnames
  rw [List.lookup_eq_none_iff] at hn ⊢
  intro m hm
  have hmem : m.1 ∈ members.map Prod.fst := by
    rw [← hnames]
    exact List.mem_map_of_mem hm
  obtain ⟨i, hi, hname⟩ := List.mem_map.mp hmem
  rw [← hname]
  exact hn i hi

theorem append (h : Stands root members) (hd : n.document = j.document) :
    Stands (root ++ [(name, n)]) (members ++ [(name, j)]) := by
  rw [Stands, List.map_append, List.map_append, h, List.map_singleton, List.map_singleton, hd]

theorem document_eq (h : Stands root members) : root.document = (Json.obj members).document := by
  have hroot : Node.memberDocuments root =
      (root.map fun m => (m.1, m.2.document)).map fun m => (some m.1, m.2) := by
    clear h
    induction root with
    | nil => rfl
    | cons m ms ih =>
      rw [Node.memberDocuments, ih]
      rfl
  have hmembers : Json.memberDocuments members =
      (members.map fun m => (m.1, m.2.document)).map fun m => (some m.1, m.2) := by
    clear h
    induction members with
    | nil => rfl
    | cons m ms ih =>
      rw [Json.memberDocuments, ih]
      rfl
  rw [document, Json.document, hroot, hmembers, h]

end Stands

variable {fuel : Nat} {key name outer : String} {cs cs' : List Char}
  {members members' members'' sub : List (String × Json)}

/-- A piece of text adds members to the document of a file. -/
def Adds (fuel : Nat) (members : List (String × Json)) (cs : List Char)
    (members' : List (String × Json)) : Prop :=
  ∀ root path, Stands root members →
    ∃ root' path', Stands root' members' ∧ Builder.Takes fuel ⟨root, path⟩ cs ⟨root', path'⟩

namespace Adds

theorem trans (h : Adds fuel members cs members') (h' : Adds fuel members' cs' members'') :
    Adds fuel members (cs ++ cs') members'' := by
  intro root path hs
  obtain ⟨root', path', hs', ht⟩ := h root path hs
  obtain ⟨root'', path'', hs'', ht'⟩ := h' root' path' hs'
  exact ⟨root'', path'', hs'', ht.trans ht'⟩

theorem emptyLine (h : Adds fuel members cs members') : Adds fuel members ('\n' :: cs) members' := by
  intro root path hs
  obtain ⟨root', path', hs', ht⟩ := h root path hs
  exact ⟨root', path', hs', Builder.Takes.empty.trans ht⟩

theorem table (hk : Plain key) (hn : members.lookup key = none) (h : Builder.Fills fuel [] cs sub) :
    Adds fuel members (header key ++ cs) (members ++ [(key, .obj sub)]) := by
  intro root path hs
  refine ⟨_, _, hs.append ?_, Builder.takes_header hk (hs.lookup_eq_none hn) h⟩
  rw [Node.document, memberDocuments_values, Json.document]

end Adds

end Sections

end Haptics.Toml
