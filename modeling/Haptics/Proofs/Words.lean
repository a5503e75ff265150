import Haptics.Toml.Value
import Haptics.Proofs.Quoting
import Haptics.Proofs.Scanning

/-! The values and keys of a written configuration file are read back: truth values, whole numbers,
strings and lists of strings, and keys without quotes. What follows a value tells where it ends. -/

namespace Haptics.Toml

section Text
variable {p : Char → Bool} {w rest : List Char}

/-- What follows a word does not belong to it. -/
def Stops (p : Char → Bool) (rest : List Char) : Prop := ∀ c, rest.head? = some c → p c = false

theorem takeWhile_of_stops (h : Stops p rest) : rest.takeWhile p = [] := by
  cases rest with
  | nil => rfl
  | cons c cs => rw [List.takeWhile_cons, h c rfl]; rfl

theorem dropWhile_of_stops (h : Stops p rest) : rest.dropWhile p = rest := by
  cases rest with
  | nil => rfl
  | cons c cs => rw [List.dropWhile_cons, h c rfl]; rfl

theorem takeWhile_word (hw : ∀ c ∈ w, p c = true) (h : Stops p rest) :
    (w ++ rest).takeWhile p = w := by
  rw [List.takeWhile_append_of_pos hw, takeWhile_of_stops h, List.append_nil]

theorem dropWhile_word (hw : ∀ c ∈ w, p c = true) (h : Stops p rest) :
    (w ++ rest).dropWhile p = rest := by
  rw [List.dropWhile_append_of_pos hw, dropWhile_of_stops h]

end Text

/-! ## Values of one word -/

/-- A value in a written file is followed by the end of its line or of its place in a list. -/
def Ends (rest : List Char) : Prop := ∃ c ∈ ['\n', ',', ']'], rest.head? = some c

theorem Ends.stops {rest : List Char} (h : Ends rest) {p : Char → Bool}
    (hp : ['\n', ',', ']'].any p = false) : Stops p rest := by
  obtain ⟨c, hc, hh⟩ := h
  intro d hd
  rw [hh] at hd
  cases hd
  rw [← Bool.not_eq_true]
  exact List.any_eq_false.mp hp c hc

theorem Ends.unquoted {rest : List Char} (h : Ends rest) : Quoted.Unquoted rest := by
  obtain ⟨c, hc, hh⟩ := h
  rw [Quoted.Unquoted, hh]
  simp only [List.mem_cons, List.not_mem_nil, or_false] at hc
  rcases hc with rfl | rfl | rfl <;> decide

namespace Scalar

theorem word_append {w rest : List Char} (hw : ∀ c ∈ w, isWordChar c = true) (hr : Ends rest) :
    word (w ++ rest) = (w, rest) := by
  have hs : Stops isWordChar rest := hr.stops (by decide)
  rw [word, takeWhile_word hw hs, dropWhile_word hw hs]
  obtain ⟨c, hc, hh⟩ := hr
  split
  · cases hh
    exact absurd hc (by decide)
  · rfl

theorem read?_word {w rest : List Char} {d : Document} (hw : ∀ c ∈ w, isWordChar c = true)
    (hd : document? w = some d) (hr : Ends rest) : read? (w ++ rest) = some (d, rest) := by
  rw [read?, word_append hw hr]
  simp [hd]

theorem document?_bool (b : Bool) : document? (bool b) = some (.bool b) := by
  cases b <;> rfl

/-! ### Whole numbers -/

section Digits
variable {cs : List Char}

theorem field?_digits {count low high n : Nat} {rest : List Char}
    (h : ∀ c ∈ cs, c.isDigit = true) (hf : field? count low high cs = some (n, rest)) :
    ∀ c ∈ rest, c.isDigit = true := by
  simp only [field?] at hf
  split at hf
  · cases hf
    exact fun c hc => h c (List.mem_of_mem_drop hc)
  · cases hf

theorem mark?_digits {c : Char} (hc : c.isDigit = false) (h : ∀ c ∈ cs, c.isDigit = true) :
    mark? c cs = none := by
  cases cs with
  | nil => rfl
  | cons d ds =>
    rw [mark?, if_neg]
    rintro rfl
    exact absurd (h c List.mem_cons_self) (by rw [hc]; decide)

/-- Digits alone are no date and no time: those have marks after their first number. -/
theorem isDateTime_digits (h : ∀ c ∈ cs, c.isDigit = true) : isDateTime cs = false := by
  have hdate : date? cs = none := by
    rw [date?]
    cases hf : field? 4 0 9999 cs with
    | none => rfl
    | some r =>
      simp [mark?_digits (c := '-') (by decide) (field?_digits h hf)]
  have htime : time? cs = none := by
    rw [time?]
    cases hf : field? 2 0 23 cs with
    | none => rfl
    | some r =>
      simp [mark?_digits (c := ':') (by decide) (field?_digits h hf)]
  rw [isDateTime, hdate, htime]
  rfl

theorem ungrouped?_digits (hne : cs ≠ []) (h : ∀ c ∈ cs, c.isDigit = true) :
    ungrouped? Char.isDigit cs = some cs := by
  have hu : ∀ c ∈ cs, c ≠ '_' := by
    rintro c hc rfl
    exact absurd (h _ hc) (by decide)
  have hd : ungrouped?.doubled cs = false := by
    clear hne h
    induction cs with
    | nil => rfl
    | cons c cs ih =>
      rw [ungrouped?.doubled]
      · exact ih fun d hd => hu d (List.mem_cons_of_mem _ hd)
      · rintro rest rfl
        exact fun _ => hu '_' List.mem_cons_self rfl
  have hf : cs.filter (· ≠ '_') = cs := List.filter_eq_self.mpr fun c hc => decide_eq_true (hu c hc)
  rw [ungrouped?]
  simp only [hf]
  rw [if_pos]
  refine ⟨hne, List.all_eq_true.mpr h, fun hh => ?_, fun hl => ?_, by rw [hd]; rfl⟩
  · exact hu _ (List.mem_of_mem_head? hh) rfl
  · exact hu _ (List.mem_of_mem_getLast? hl) rfl

end Digits

theorem whole?_digits (n : Nat) : whole? (Decimal.digits n) = some (Decimal.digits n) := by
  rw [whole?, ungrouped?_digits (Decimal.digits_ne_nil n) fun _ => Decimal.isDigit_of_mem_digits]
  by_cases hn : n = 0
  · subst hn
    rfl
  · simp [Decimal.head_digits hn]

theorem sign_digits {cs : List Char} (h : ∀ c ∈ cs, c.isDigit = true) : sign cs = (false, cs) := by
  unfold sign
  split
  · exact absurd (h '+' List.mem_cons_self) (by decide)
  · exact absurd (h '-' List.mem_cons_self) (by decide)
  · rfl

theorem integer?_digits {n : Nat} (h : n < Nat.pow 2 63) :
    integer? (Decimal.digits n) = some (n : Int) := by
  by_cases hn : n = 0
  · subst hn
    rfl
  · have hhead := Decimal.head_digits hn
    have hsign := sign_digits fun c => Decimal.isDigit_of_mem_digits (n := n) (c := c)
    have hrange : Int64.minValue.toInt ≤ (n : Int) ∧ (n : Int) ≤ Int64.maxValue.toInt := by
      have hmin : Int64.minValue.toInt = -Nat.pow 2 63 := by decide
      have hmax : Int64.maxValue.toInt = Nat.pow 2 63 - 1 := by decide
      omega
    -- Only a number that begins with a zero may be one in another base.
    unfold integer?
    dsimp only
    split
    · rename_i heq
      exact absurd (by rw [heq]; rfl) hhead
    · rename_i heq
      exact absurd (by rw [heq]; rfl) hhead
    · rename_i heq
      exact absurd (by rw [heq]; rfl) hhead
    · simp only [hsign, whole?_digits, Option.bind_eq_bind, Option.bind_some,
        Decimal.value_digits]
      exact if_pos hrange

theorem document?_digits {n : Nat} (h : n < Nat.pow 2 63) :
    document? (Decimal.digits n) = some (.num (some (.int n))) := by
  have hd : ∀ c ∈ Decimal.digits n, c.isDigit = true := fun _ => Decimal.isDigit_of_mem_digits
  have hword {c : Char} {cs : List Char} (hc : c.isDigit = false) : Decimal.digits n ≠ c :: cs := by
    intro heq
    rw [heq] at hd
    exact absurd (hd c List.mem_cons_self) (by rw [hc]; decide)
  rw [document?, if_neg (hword (by decide)), if_neg (hword (by decide)), isDateTime_digits hd,
    integer?_digits h]
  rfl

theorem isWordChar_of_isDigit {c : Char} (h : c.isDigit = true) : isWordChar c = true := by
  simp [isWordChar, Char.isAlphanum, h]

end Scalar

/-! ## Values -/

theorem quoted_head (s : String) : ∃ c cs, quoted s = c :: cs ∧ (c = '"' ∨ c = '\'') := by
  unfold quoted
  dsimp only
  split
  · exact ⟨_, _, rfl, .inl rfl⟩
  · exact ⟨_, _, rfl, .inr rfl⟩
  · exact ⟨_, _, rfl, .inl rfl⟩
  · exact ⟨_, _, rfl, .inr rfl⟩

namespace Value
variable {item : Reader} {fuel room : Nat} {w cs rest : List Char} {d : Document}
  {done : List Document}

/-- A reader takes a written value from the front of a text; no blank is part of it. -/
structure Reads (item : Reader) (w : List Char) (d : Document) : Prop where
  head : ∃ c cs, w = c :: cs ∧ isBlank c = false
  read : ∀ rest, Ends rest → item (w ++ rest) = some (d, rest)

theorem read?_scalar {c : Char} (h : isWordChar c = true) :
    read? fuel room (c :: cs) = Scalar.read? (c :: cs) := by
  have hopen {d : Char} (hd : isWordChar d = false) : c ≠ d := by
    rintro rfl
    exact Bool.false_ne_true (hd.symm.trans h)
  have hlist : c ≠ '[' := hopen (by decide)
  have hbrace : c ≠ '\x7b' := hopen (by decide)
  have hdouble : c ≠ '"' := hopen (by decide)
  have hsingle : c ≠ '\'' := hopen (by decide)
  unfold read?
  split <;> simp_all

theorem isBlank_of_isWordChar {c : Char} (h : isWordChar c = true) : isBlank c = false := by
  rw [← Bool.not_eq_true]
  intro hb
  rcases Bool.or_eq_true_iff.mp hb with hc | hc
  · rw [of_decide_eq_true hc] at h
    exact absurd h (by decide)
  · rw [of_decide_eq_true hc] at h
    exact absurd h (by decide)

theorem reads_word (hne : w ≠ []) (hw : ∀ c ∈ w, isWordChar c = true)
    (hd : Scalar.document? w = some d) : Reads (read? fuel room) w d := by
  obtain ⟨c, cs, rfl⟩ := List.exists_cons_of_ne_nil hne
  have hc := hw c List.mem_cons_self
  constructor
  · exact ⟨c, cs, rfl, isBlank_of_isWordChar hc⟩
  · intro rest hr
    exact (read?_scalar hc).trans (Scalar.read?_word hw hd hr)

theorem reads_bool (b : Bool) : Reads (read? fuel room) (bool b) (.bool b) := by
  have hword : (bool b).all isWordChar = true := by cases b <;> rfl
  apply reads_word _ (List.all_eq_true.mp hword) (Scalar.document?_bool b)
  cases b <;> decide

theorem reads_digits {n : Nat} (h : n < Nat.pow 2 63) :
    Reads (read? fuel room) (Decimal.digits n) (.num (some (.int n))) := by
  apply reads_word (Decimal.digits_ne_nil n) _ (Scalar.document?_digits h)
  intro c hc
  exact Scalar.isWordChar_of_isDigit (Decimal.isDigit_of_mem_digits hc)

theorem read?_quote {c : Char} (h : c = '"' ∨ c = '\'') :
    read? fuel room (c :: cs) =
      (Quoted.read? (c :: cs)).map fun r => (.str (some r.1), r.2) := by
  cases room <;> rcases h with rfl | rfl <;> rfl

theorem reads_quoted (s : String) : Reads (read? fuel room) (quoted s) (.str (some s)) := by
  obtain ⟨c, cs, hs, hc⟩ := quoted_head s
  constructor
  · refine ⟨c, cs, hs, ?_⟩
    rcases hc with rfl | rfl <;> rfl
  · intro rest hr
    have hq := Quoted.read?_quoted s hr.unquoted
    rw [hs, List.cons_append] at hq ⊢
    rw [read?_quote hc, hq]
    rfl

/-! ### Lists of strings -/

theorem items_gap {c : Char} (h : c = ' ' ∨ c = '\n') :
    items item fuel done (c :: cs) = items item fuel done cs := by
  cases fuel with
  | zero => rfl
  | succ fuel => rcases h with rfl | rfl <;> rfl

theorem items_close : items item (fuel + 1) done (']' :: cs) = some (.list done.reverse, cs) := rfl

/-- Before an item the list does not end. -/
theorem items_item {s : String} (h : Reads item (quoted s) d) (hr : Ends rest) :
    items item (fuel + 1) done (quoted s ++ rest) =
      match skipGap false rest with
      | ']' :: cs => some (.list (d :: done).reverse, cs)
      | ',' :: cs => items item fuel (d :: done) cs
      | _ => none := by
  have hread := h.read rest hr
  obtain ⟨c, cs, hs, hc⟩ := quoted_head s
  have hgap : skipGap false (c :: (cs ++ rest)) = c :: (cs ++ rest) := by
    rcases hc with rfl | rfl <;> rfl
  rw [hs, List.cons_append] at hread ⊢
  rw [items, hgap]
  split
  · rename_i heq
    cases heq
    rcases hc with hc | hc <;> cases hc
  · rw [hread]
    rfl

theorem items_comma {s : String} (h : Reads item (quoted s) d) :
    items item (fuel + 1) done (quoted s ++ ',' :: cs) = items item fuel (d :: done) cs :=
  items_item h ⟨',', by decide, rfl⟩

theorem items_last {s : String} (h : Reads item (quoted s) d) :
    items item (fuel + 1) done (quoted s ++ ']' :: cs) = some (.list (d :: done).reverse, cs) :=
  items_item h ⟨']', by decide, rfl⟩

theorem items_line {s : String} (h : Reads item (quoted s) d) :
    items item (fuel + 1) done ((['\n', ' ', ' ', ' ', ' '] ++ quoted s ++ [',']) ++ cs) =
      items item fuel (d :: done) cs := by
  simp only [List.cons_append, List.nil_append, List.append_assoc]
  rw [items_gap (.inr rfl), items_gap (.inl rfl), items_gap (.inl rfl), items_gap (.inl rfl),
    items_gap (.inl rfl), items_comma h]

/-- Items on a line each. -/
theorem items_lines (hi : ∀ s, Reads item (quoted s) (.str (some s))) {ss : List String}
    (h : ss.length < fuel) :
    items item fuel done ((ss.map quoted).flatMap
      (fun w => ['\n', ' ', ' ', ' ', ' '] ++ w ++ [',']) ++ '\n' :: ']' :: rest) =
        some (.list (done.reverse ++ ss.map fun s => .str (some s)), rest) := by
  induction ss generalizing fuel done with
  | nil =>
    obtain ⟨fuel, rfl⟩ := Nat.exists_eq_succ_of_ne_zero (Nat.ne_of_gt h)
    rw [List.map_nil, List.flatMap_nil, List.nil_append, items_gap (.inr rfl), items_close,
      List.map_nil, List.append_nil]
  | cons s ss ih =>
    obtain ⟨fuel, rfl⟩ := Nat.exists_eq_succ_of_ne_zero (Nat.ne_of_gt (Nat.zero_lt_of_lt h))
    rw [List.map_cons, List.flatMap_cons, List.append_assoc, items_line (hi s),
      ih (Nat.lt_of_succ_lt_succ h), List.reverse_cons, List.append_assoc, List.singleton_append,
      List.map_cons]

theorem reads_list {ss : List String} (h : ss.length < fuel) :
    Reads (read? fuel (room + 1)) (list (ss.map quoted))
      (.list (ss.map fun s => .str (some s))) := by
  have hi : ∀ s, Reads (read? fuel room) (quoted s) (.str (some s)) := reads_quoted
  obtain ⟨fuel, rfl⟩ := Nat.exists_eq_succ_of_ne_zero (Nat.ne_of_gt (Nat.zero_lt_of_lt h))
  match ss with
  | [] => exact ⟨⟨_, _, rfl, rfl⟩, fun rest hr => rfl⟩
  | [s] =>
    refine ⟨⟨_, _, rfl, rfl⟩, fun rest hr => ?_⟩
    simp only [List.map_cons, List.map_nil, list, List.cons_append, List.append_assoc,
      List.nil_append]
    exact items_last (hi s)
  | s :: t :: ss =>
    refine ⟨⟨_, _, rfl, rfl⟩, fun rest hr => ?_⟩
    simp only [List.map_cons, list, List.cons_append, List.append_assoc, List.nil_append]
    exact items_lines hi h

end Value

/-! ## Keys -/

/-- A name that may stand for a key without quotes. -/
def Plain (name : String) : Prop := name.toList ≠ [] ∧ ∀ c ∈ name.toList, isBareChar c = true

instance (name : String) : Decidable (Plain name) :=
  decidable_of_iff (name.toList ≠ [] ∧ name.toList.all isBareChar = true)
    (by rw [List.all_eq_true, Plain])

theorem Plain.head {name : String} (h : Plain name) :
    ∃ c cs, name.toList = c :: cs ∧ isBareChar c = true := by
  obtain ⟨c, cs, hcs⟩ := List.exists_cons_of_ne_nil h.1
  exact ⟨c, cs, hcs, h.2 c (by rw [hcs]; exact List.mem_cons_self)⟩

/-- No character that stands between words is one of a name. -/
theorem ne_of_bare {c d : Char} (h : isBareChar c = true) (hd : isBareChar d = false) : c ≠ d := by
  rintro rfl
  exact Bool.false_ne_true (hd.symm.trans h)

theorem isBlank_of_bare {c : Char} (h : isBareChar c = true) : isBlank c = false := by
  have hspace : c ≠ ' ' := ne_of_bare h (by decide)
  have htab : c ≠ '\t' := ne_of_bare h (by decide)
  simp [isBlank, hspace, htab]

namespace Key
variable {name : String} {rest : List Char}

theorem part?_plain (h : Plain name) (hr : Stops isBareChar rest) :
    part? (name.toList ++ rest) = some (name, rest) := by
  obtain ⟨c, cs, hcs, hc⟩ := h.head
  have hdouble : c ≠ '"' := ne_of_bare hc (by decide)
  have hsingle : c ≠ '\'' := ne_of_bare hc (by decide)
  have hempty : ¬ name.toList.isEmpty = true := by simpa using h.1
  have hw := takeWhile_word h.2 hr
  have hd := dropWhile_word h.2 hr
  rw [hcs] at hw hd hempty ⊢
  unfold part?
  split
  · rename_i heq
    cases heq
    exact absurd rfl hdouble
  · rename_i heq
    cases heq
    exact absurd rfl hsingle
  · rw [hw, hd, if_neg hempty, ← hcs, String.ofList_toList]

theorem skipBlanks_plain (h : Plain name) : skipBlanks (name.toList ++ rest) = name.toList ++ rest := by
  obtain ⟨c, cs, hcs, hc⟩ := h.head
  apply dropWhile_of_stops
  intro d hd
  rw [hcs] at hd
  cases hd
  exact isBlank_of_bare hc

theorem parts?_last (h : Plain name) (hr : Stops isBareChar rest)
    (hdot : (skipBlanks rest).head? ≠ some '.') (n : Nat) :
    parts? (n + 1) (name.toList ++ rest) = some ([name], skipBlanks rest) := by
  simp only [parts?, skipBlanks_plain h, part?_plain h hr, Option.bind_eq_bind, Option.bind_some]
  split
  · rename_i heq
    exact absurd (by rw [heq]; rfl) hdot
  · rfl

theorem parts?_dot (h : Plain name) {n : Nat} {names : List String} {cs : List Char}
    (hp : parts? n rest = some (names, cs)) :
    parts? (n + 1) (name.toList ++ '.' :: rest) = some (name :: names, cs) := by
  have hr : Stops isBareChar ('.' :: rest) := by
    intro c hc
    cases hc
    decide
  have hdot : skipBlanks ('.' :: rest) = '.' :: rest := rfl
  simp only [parts?, skipBlanks_plain h, part?_plain h hr, hdot, hp, Option.bind_eq_bind,
    Option.bind_some]
  rfl

theorem read?_plain (h : Plain name) (hr : Stops isBareChar rest)
    (hdot : (skipBlanks rest).head? ≠ some '.') :
    read? (name.toList ++ rest) = some ([], name, skipBlanks rest) := by
  rw [read?, room, parts?_last h hr hdot]
  rfl

/-- In a header the closing bracket follows. -/
theorem read?_bracket (h : Plain name) :
    read? (name.toList ++ ']' :: rest) = some ([], name, ']' :: rest) := by
  apply read?_plain h
  · intro c hc
    cases hc
    decide
  · intro hdot
    exact absurd (Option.some.inj hdot) (by decide)

theorem read?_dotted {outer : String} (ho : Plain outer) (h : Plain name) :
    read? (outer.toList ++ '.' :: (name.toList ++ ']' :: rest)) =
      some ([outer], name, ']' :: rest) := by
  have hlast : parts? 78 (name.toList ++ ']' :: rest) = some ([name], ']' :: rest) := by
    apply parts?_last h
    · intro c hc
      cases hc
      decide
    · intro hdot
      exact absurd (Option.some.inj hdot) (by decide)
  rw [read?, room, parts?_dot ho hlast]
  rfl

end Key

end Haptics.Toml
