import Mathlib.Tactic.SplitIfs
import Haptics.Toml.Quoted
import Haptics.Toml.Writer

/-! Strings in configuration files are read back, in whichever of the four ways they are written. The
reader goes through a string character by character. Between two characters it may hold some quotes
of which it cannot tell yet whether they belong to the string or close it. -/

namespace Haptics.Toml

/-! ## Runs of a character -/

theorem hasRun_iff {c : Char} {count : Nat} {cs : List Char} :
    hasRun c count cs = true ↔ List.replicate count c <:+: cs := by
  induction cs with
  | nil => simp [hasRun]
  | cons d ds ih =>
    rw [hasRun, Bool.or_eq_true, beq_iff_eq, ih, List.infix_cons_iff, List.prefix_iff_eq_take,
      List.length_replicate, eq_comm]

/-- A text without long runs has none further on. -/
theorem hasRun_of_append {c : Char} {count : Nat} (cs : List Char) {ds : List Char}
    (h : hasRun c count (cs ++ ds) = false) : hasRun c count ds = false := by
  rw [← Bool.not_eq_true, hasRun_iff] at h ⊢
  exact fun hi => h (hi.trans (List.suffix_append cs ds).isInfix)

theorem hasRun_one {c : Char} {cs : List Char} (h : c ∉ cs) : hasRun c 1 cs = false := by
  rw [← Bool.not_eq_true, hasRun_iff]
  exact fun hi => h (hi.subset (by simp))

theorem lt_of_hasRun_replicate {c : Char} {count n : Nat} {cs : List Char}
    (h : hasRun c count (List.replicate n c ++ cs) = false) : n < count := by
  rw [← Bool.not_eq_true, hasRun_iff] at h
  refine Nat.lt_of_not_le fun hn => h ?_
  rw [← Nat.add_sub_cancel' hn, ← List.replicate_append_replicate, List.append_assoc]
  exact (List.prefix_append _ _).isInfix

namespace Quotation

def style : Quotation → Quoted.Style
  | .basic => ⟨'"', false⟩
  | .literal => ⟨'\'', false⟩
  | .basicLines => ⟨'"', true⟩
  | .literalLines => ⟨'\'', true⟩

end Quotation

namespace Quoted

namespace Style

/-- The most quotes that may stand side by side within a string. -/
def row (s : Style) : Nat := if s.lines then 2 else 0

/-- The quotes on either side of a string. -/
def marks (s : Style) : List Char := List.replicate (if s.lines then 3 else 1) s.quote

end Style

/-- In the text of a string, with so many quotes in hand. -/
def holding : Nat → Place
  | 0 => .text
  | n + 1 => .quotes (n + 1)

section Body
variable {s : Style} {n : Nat} {c : Char} {done cs rest : List Char}

theorem body_text (h : c ≠ s.quote) :
    body s .text done (c :: cs) = (text? s done c).bind fun r => body s r.1 r.2 cs := by
  rw [body, if_neg h]
  rfl

/-- Quotes in hand belong to the string once something else follows. -/
theorem body_holding (hn : n ≤ s.row) (h : c ≠ s.quote) :
    body s (holding n) done (c :: cs) =
      body s .text (List.replicate n s.quote ++ done) (c :: cs) := by
  cases n with
  | zero => rfl
  | succ n =>
    have hlt : ¬ 3 ≤ n + 1 := by
      unfold Style.row at hn
      split at hn <;> omega
    rw [body_text h, holding, body, if_neg h, if_neg hlt]
    rfl

theorem body_holding_append {w : List Char} (hn : n ≤ s.row) (hw : w ≠ [])
    (h : w.head? ≠ some s.quote) :
    body s (holding n) done (w ++ cs) = body s .text (List.replicate n s.quote ++ done) (w ++ cs) := by
  cases w with
  | nil => exact absurd rfl hw
  | cons d ds => exact body_holding hn fun hd => h (by rw [hd, List.head?_cons])

theorem body_holding_quote (hl : s.lines = true) (hn : n < 5) :
    body s (holding n) done (s.quote :: cs) = body s (holding (n + 1)) done cs := by
  cases n with
  | zero =>
    rw [holding, body, if_pos rfl, if_pos hl]
    rfl
  | succ n =>
    rw [holding, body, if_pos rfl, if_pos hn]
    rfl

theorem body_quotes_close (hn : 3 ≤ n) (h : rest.head? ≠ some s.quote) :
    body s (.quotes n) done rest =
      some ((List.replicate (n - 3) s.quote ++ done).reverse, rest) := by
  cases rest with
  | nil => rw [body, if_pos hn]
  | cons c cs =>
    have hc : c ≠ s.quote := fun hc => h (by rw [hc, List.head?_cons])
    rw [body, if_neg hc, if_pos hn]

/-- The closing quotes end a string; those in hand before them belong to it. -/
theorem body_marks (hn : n ≤ s.row) (h : rest.head? ≠ some s.quote) :
    body s (holding n) done (s.marks ++ rest) =
      some ((List.replicate n s.quote ++ done).reverse, rest) := by
  unfold Style.row at hn
  unfold Style.marks
  split at hn
  · rename_i hl
    rw [if_pos hl, List.replicate_succ, List.cons_append, body_holding_quote hl (by omega),
      List.replicate_succ, List.cons_append, body_holding_quote hl (by omega),
      List.replicate_succ, List.cons_append, body_holding_quote hl (by omega)]
    exact body_quotes_close (by omega) h
  · rename_i hl
    obtain rfl : n = 0 := by omega
    rw [if_neg hl, holding, List.replicate_one, List.singleton_append, body, if_pos rfl, if_neg hl]
    rfl

/-! ## Strings without escapes -/

theorem isPlain_of_not_control (hc : isControl c = false) (hn : c ≠ '\n') : isPlain c = true := by
  simp only [isControl, Bool.or_eq_false_iff, Bool.and_eq_false_imp, Bool.and_eq_true,
    decide_eq_true_eq, decide_eq_false_iff_not, and_imp] at hc
  simp only [isPlain, isVisible, Bool.or_eq_true, Bool.and_eq_true, decide_eq_true_eq]
  by_cases ht : c = '\t'
  · exact .inl ht
  · exact .inr ⟨Char.not_lt.mp fun hlt => hc.1 hlt ht hn, hc.2⟩

theorem text?_plain (hb : s.escapes = true → c ≠ '\\') (hc : isControl c = false)
    (hn : c = '\n' → s.lines = true) : text? s done c = some (.text, c :: done) := by
  have hr : c ≠ '\r' := by
    rintro rfl
    exact absurd hc (by decide)
  rw [text?, if_neg fun h => hb h.2 h.1]
  by_cases hl : c = '\n'
  · rw [if_pos ⟨hl, hn hl⟩]
  · rw [if_neg fun h => hl h.1, if_neg fun h => hr h.1, if_pos (isPlain_of_not_control hc hl)]

/-- What may stand as it is between the quotes of a string, after so many quotes in a row. -/
structure Bare (s : Style) (n : Nat) (cs : List Char) : Prop where
  chars : ∀ c ∈ cs, isControl c = false ∧ (c = '\n' → s.lines = true)
  runs : hasRun s.quote (s.row + 1) (List.replicate n s.quote ++ cs) = false

namespace Bare

theorem le_row (h : Bare s n cs) : n ≤ s.row := Nat.le_of_lt_succ (lt_of_hasRun_replicate h.runs)

theorem quote (h : Bare s n (s.quote :: cs)) : Bare s (n + 1) cs := by
  refine ⟨fun c hc => h.chars c (List.mem_cons_of_mem _ hc), ?_⟩
  have hr := h.runs
  rwa [List.append_cons, ← List.replicate_succ'] at hr

theorem other (h : Bare s n (c :: cs)) : Bare s 0 cs := by
  refine ⟨fun d hd => h.chars d (List.mem_cons_of_mem _ hd), ?_⟩
  have hr := h.runs
  rw [List.append_cons] at hr
  exact hasRun_of_append _ hr

end Bare

theorem lines_of_row_pos (h : 0 < s.row) : s.lines = true ∧ s.row = 2 := by
  unfold Style.row at h ⊢
  split at h
  · rename_i hl
    exact ⟨hl, if_pos hl⟩
  · exact absurd h (Nat.lt_irrefl 0)

/-- A string without escapes is what stands between its quotes. -/
theorem body_bare (he : s.escapes = false) (hr : rest.head? ≠ some s.quote) (h : Bare s n cs) :
    body s (holding n) done (cs ++ (s.marks ++ rest)) =
      some ((List.replicate n s.quote ++ done).reverse ++ cs, rest) := by
  induction cs generalizing n done with
  | nil => rw [List.nil_append, body_marks h.le_row hr, List.append_nil]
  | cons c cs ih =>
    by_cases hc : c = s.quote
    · subst hc
      have hn := h.quote.le_row
      obtain ⟨hl, hrow⟩ := lines_of_row_pos (s := s) (by omega)
      rw [List.cons_append, body_holding_quote hl (by omega), ih h.quote, List.replicate_succ,
        List.cons_append, List.reverse_cons, List.append_assoc, List.singleton_append]
    · obtain ⟨hplain, hbreak⟩ := h.chars c List.mem_cons_self
      have ht (done : List Char) : text? s done c = some (.text, c :: done) :=
        text?_plain (by simp [he]) hplain hbreak
      rw [List.cons_append, body_holding h.le_row hc, body_text hc, ht, Option.bind_some]
      refine (ih h.other).trans ?_
      simp

end Body

/-! ## Strings with escapes -/

theorem hex_control : ∀ n < 128, n < 32 ∨ n = 127 →
    Decimal.isHexDigit (hexDigit (n / 16)) = true ∧ Decimal.isHexDigit (hexDigit (n % 16)) = true ∧
      Decimal.valueIn 16 ['0', '0', hexDigit (n / 16), hexDigit (n % 16)] = n := by decide

theorem charOf?_toNat (c : Char) : charOf? c.toNat = some c := by
  have hc : c.toNat.isValidChar := c.valid
  rw [charOf?, if_pos hc, Char.ofNat_toNat]

section Escaped
variable {s : Style} {q : Quotation} {c : Char} {done cs rest : List Char}

theorem body_backslash (he : s.escapes = true) :
    body s .text done ('\\' :: cs) = body s .escape done cs := by
  have hq : s.quote = '"' := of_decide_eq_true he
  rw [body_text (by rw [hq]; decide), text?, if_pos ⟨rfl, he⟩]
  rfl

theorem body_simple (he : s.escapes = true) {d : Char} (hd : simple? d = some c) :
    body s .text done ('\\' :: d :: cs) = body s .text (c :: done) cs := by
  have hu : d ≠ 'u' := by rintro rfl; cases hd
  have hU : d ≠ 'U' := by rintro rfl; cases hd
  rw [body_backslash he, body, escape?, if_neg hu, if_neg hU, hd]
  rfl

theorem body_hex {left : Nat} {digits : List Char} :
    body s (.hex left digits) done (c :: cs) =
      (hex? done left digits c).bind fun r => body s r.1 r.2 cs := by
  rw [body]
  rfl

theorem body_control (he : s.escapes = true) (hc : c.toNat < 32 ∨ c.toNat = 127) :
    body s .text done ('\\' :: 'u' :: '0' :: '0' :: hexDigit (c.toNat / 16) ::
      hexDigit (c.toNat % 16) :: cs) = body s .text (c :: done) cs := by
  obtain ⟨hhigh, hlow, hvalue⟩ := hex_control c.toNat (by omega) hc
  have hzero : Decimal.isHexDigit '0' = true := by decide
  rw [body_backslash he, body, escape?, if_pos rfl]
  simp [body_hex, hex?, hzero, hhigh, hlow, hvalue, charOf?_toNat]

/-- Every character but a quote is read back from its escape. -/
theorem body_escape (hq : q.style.escapes = true) (hc : c ≠ '"') :
    body q.style .text done (escape q c ++ cs) = body q.style .text (c :: done) cs := by
  have hquote : q.style.quote = '"' := of_decide_eq_true hq
  have hplain (hb : c ≠ '\\') (hn : isControl c = false) (hl : c = '\n' → q.style.lines = true) :
      body q.style .text done ([c] ++ cs) = body q.style .text (c :: done) cs := by
    rw [List.singleton_append, body_text (by rwa [hquote]), text?_plain (fun _ => hb) hn hl]
    rfl
  unfold escape
  split_ifs with h₁ h₂ h₃ h₄ h₅ h₆ h₇ h₈
  · exact body_simple hq (h₁ ▸ rfl)
  · exact body_simple hq (h₂ ▸ rfl)
  · have hplain := hplain (by rw [h₃]; decide) (by rw [h₃]; decide) fun _ => by rw [h₄]; rfl
    rwa [h₃] at hplain ⊢
  · exact body_simple hq (h₃ ▸ rfl)
  · exact body_simple hq (h₅ ▸ rfl)
  · exact body_simple hq (h₆ ▸ rfl)
  · exact body_simple hq (by rw [h₇]; rfl)
  · refine body_control hq ?_
    rcases Bool.or_eq_true_iff.mp h₈ with hlow | hdel
    · exact .inl (of_decide_eq_true (Bool.and_eq_true_iff.mp (Bool.and_eq_true_iff.mp hlow).1).1)
    · exact .inr (by rw [of_decide_eq_true hdel]; rfl)
  · exact hplain h₇ (Bool.eq_false_iff.mpr h₈) fun h => absurd h h₃

theorem escape_ne_nil (q : Quotation) (c : Char) : escape q c ≠ [] := by
  unfold escape
  split_ifs <;> exact List.cons_ne_nil _ _

theorem head?_escape (q : Quotation) {c : Char} (hc : c ≠ '"') : (escape q c).head? ≠ some '"' := by
  unfold escape
  split_ifs <;> simp [hc]

theorem quotesInARow_eq_row (hq : q.style.escapes = true) : q.quotesInARow = q.style.row := by
  cases q with
  | basic | basicLines => rfl
  | literal | literalLines => exact absurd hq (by decide)

/-- A string with escapes is what they stand for. -/
theorem body_escaped (hq : q.style.escapes = true) (hr : rest.head? ≠ some '"') {n : Nat}
    (hn : n ≤ q.style.row) :
    body q.style (holding n) done (escaped q n cs ++ (q.style.marks ++ rest)) =
      some ((List.replicate n '"' ++ done).reverse ++ cs, rest) := by
  have hquote : q.style.quote = '"' := of_decide_eq_true hq
  -- Of a row of quotes the reader does not know yet whether it closes the string: `n` of them are
  -- in hand when the rest is read.
  induction cs generalizing n done with
  | nil =>
    rw [escaped, List.nil_append, body_marks hn (by rwa [hquote]), hquote, List.append_nil]
  | cons c cs ih =>
    have hzero : 0 ≤ q.style.row := Nat.zero_le _
    rw [escaped, quotesInARow_eq_row hq]
    by_cases hc : c = '"'
    · subst hc
      rw [if_pos rfl]
      by_cases hlt : n < q.style.row
      · obtain ⟨hl, hrow⟩ := lines_of_row_pos (s := q.style) (by omega)
        have hstep (cs : List Char) : body q.style (holding n) done ('"' :: cs) =
            body q.style (holding (n + 1)) done cs := by
          rw [← hquote]
          exact body_holding_quote hl (by omega)
        rw [if_pos hlt, List.cons_append, hstep, ih (by omega), List.replicate_succ,
          List.cons_append, List.reverse_cons, List.append_assoc, List.singleton_append]
      · rw [if_neg hlt, List.cons_append, List.cons_append, body_holding hn (by rw [hquote]; decide),
          body_simple hq rfl, hquote]
        refine (ih hzero).trans ?_
        simp
    · rw [if_neg hc, List.append_assoc, body_holding_append hn (escape_ne_nil q c)
        (by rw [hquote]; exact head?_escape q hc), body_escape hq hc, hquote]
      refine (ih hzero).trans ?_
      simp

end Escaped

/-! ## Written strings -/

/-- What comes after a word does not go on with quotes. -/
def Unquoted (rest : List Char) : Prop := rest.head? ≠ some '"' ∧ rest.head? ≠ some '\''

section Written
variable {cs rest : List Char}

theorem finish_of_body {s : Style} {text : String}
    (h : body s .text [] cs = some (text.toList, rest)) : finish s cs = some (text, rest) := by
  rw [finish, h]
  exact congrArg (fun s => some (s, rest)) String.ofList_toList

/-- Fewer than three quotes open a string of one line. -/
theorem read?_line {c : Char} (hc : c = '"' ∨ c = '\'') (h : ¬ [c, c] <+: cs) :
    read? (c :: cs) = line? (c :: cs) := by
  unfold read?
  split
  · rename_i heq
    obtain ⟨rfl, rfl⟩ := List.cons_eq_cons.mp heq
    exact absurd (List.prefix_append ['"', '"'] _) h
  · rename_i heq
    obtain ⟨rfl, rfl⟩ := List.cons_eq_cons.mp heq
    exact absurd (List.prefix_append ['\'', '\''] _) h
  · rfl

theorem firstBreak_of_head (hn : cs.head? ≠ some '\n') (hr : cs.head? ≠ some '\r') :
    firstBreak cs = cs := by
  unfold firstBreak
  split
  · exact absurd rfl hn
  · exact absurd rfl hr
  · rfl

/-- The line break that was put in front of a string of several lines is not part of it. -/
theorem firstBreak_first {put : Bool}
    (h : put = false → cs.head? ≠ some '\n' ∧ cs.head? ≠ some '\r') :
    firstBreak ((if put then ['\n'] else []) ++ cs) = cs := by
  cases put with
  | true => rfl
  | false => exact firstBreak_of_head (h rfl).1 (h rfl).2

theorem not_doubled {c : Char} {w : List Char} (hw : w.head? ≠ some c) (hr : rest.head? ≠ some c) :
    ¬ [c, c] <+: w ++ c :: rest := by
  rintro ⟨tail, ht⟩
  cases w with
  | nil =>
    obtain ⟨-, ht⟩ := List.cons_eq_cons.mp ht
    exact hr (by rw [← ht]; rfl)
  | cons d ds =>
    obtain ⟨hd, -⟩ := List.cons_eq_cons.mp ht
    exact hw (by rw [← hd]; rfl)

theorem head?_escaped_basic (cs : List Char) : (escaped .basic 0 cs).head? ≠ some '"' := by
  cases cs with
  | nil => simp [escaped]
  | cons c cs =>
    rw [escaped]
    by_cases hc : c = '"'
    · simp [hc, Quotation.quotesInARow]
    · obtain ⟨d, ds, hd⟩ := List.exists_cons_of_ne_nil (escape_ne_nil .basic c)
      have hh := head?_escape .basic hc
      rw [if_neg hc, hd]
      rwa [hd] at hh

theorem head?_escaped_lines {w : List Char} (hw : w.head? = some '"') (hn : '\n' ∉ cs) :
    (escaped .basicLines 0 cs ++ w).head? ≠ some '\n' ∧
      (escaped .basicLines 0 cs ++ w).head? ≠ some '\r' := by
  cases cs with
  | nil =>
    rw [escaped, List.nil_append, hw]
    decide
  | cons c cs =>
    rw [escaped]
    by_cases hc : c = '"'
    · simp [hc, Quotation.quotesInARow]
    · have hbreak : c ≠ '\n' := fun h => hn (h ▸ List.mem_cons_self)
      rw [if_neg hc, List.append_assoc]
      unfold escape
      split_ifs <;> simp_all

/-! ### The choice between the ways -/

theorem not_control_of_any {c : Char} (h : (!cs.any isControl) = true) (hc : c ∈ cs) :
    isControl c = false := by
  rw [Bool.not_eq_true', List.any_eq_false] at h
  exact Bool.eq_false_iff.mpr (h c hc)

theorem bare_of_literal (h : Quotation.of cs = .literal) : Bare Quotation.literal.style 0 cs := by
  simp only [Quotation.of] at h
  split_ifs at h with h₁ h₂
  simp only [Bool.and_eq_true] at h₂
  have hquote : '\'' ∉ cs := by simpa using h₂.1.2
  refine ⟨fun c hc => ⟨not_control_of_any h₂.1.1 hc, ?_⟩, hasRun_one hquote⟩
  rintro rfl
  simp [hc] at h₂

theorem bare_of_literalLines (h : Quotation.of cs = .literalLines) :
    Bare Quotation.literalLines.style 0 cs := by
  simp only [Quotation.of] at h
  split_ifs at h with h₁ h₂ h₃ h₄
  simp only [Bool.and_eq_true] at h₄
  have hruns : hasRun '\'' 3 cs = false := by simpa using h₄.2
  exact ⟨fun c hc => ⟨not_control_of_any h₄.1 hc, fun _ => rfl⟩, hruns⟩

theorem finish_escaped {q : Quotation} (hq : q.style.escapes = true) (hr : rest.head? ≠ some '"')
    (s : String) :
    finish q.style (escaped q 0 s.toList ++ (q.style.marks ++ rest)) = some (s, rest) :=
  finish_of_body (body_escaped hq hr (Nat.zero_le _))

theorem finish_bare {q : Quotation} (hq : q.style.escapes = false)
    (hr : rest.head? ≠ some q.style.quote) {s : String} (h : Bare q.style 0 s.toList) :
    finish q.style (s.toList ++ (q.style.marks ++ rest)) = some (s, rest) :=
  finish_of_body (body_bare hq hr h)

theorem Bare.head?_ne_quote {s : Style} (hl : s.lines = false) (h : Bare s 0 cs) :
    cs.head? ≠ some s.quote := by
  intro hh
  obtain ⟨ds, rfl⟩ := List.head?_eq_some_iff.mp hh
  have hrow := h.quote.le_row
  simp [Style.row, hl] at hrow

theorem Bare.head?_ne_break {s : Style} (h : Bare s 0 cs) {w : List Char}
    (hw : w.head? = some '\'') (hn : '\n' ∉ cs) :
    (cs ++ w).head? ≠ some '\n' ∧ (cs ++ w).head? ≠ some '\r' := by
  cases cs with
  | nil =>
    rw [List.nil_append, hw]
    decide
  | cons c cs =>
    have hc := (h.chars c List.mem_cons_self).1
    refine ⟨fun hh => hn ?_, fun hh => ?_⟩
    · cases hh
      exact List.mem_cons_self
    · cases hh
      exact absurd hc (by decide)

/-- **A written string is read back**, and what follows it is left over. -/
theorem read?_quoted (s : String) (hr : Unquoted rest) :
    read? (quoted s ++ rest) = some (s, rest) := by
  unfold quoted
  dsimp only
  split
  · simp only [List.cons_append, List.append_assoc, List.nil_append]
    rw [read?_line (.inl rfl) (not_doubled (head?_escaped_basic _) hr.1)]
    exact finish_escaped (q := .basic) rfl hr.1 s
  · rename_i hq
    have hb := bare_of_literal hq
    have hh : s.toList.head? ≠ some '\'' := hb.head?_ne_quote rfl
    simp only [List.cons_append, List.append_assoc, List.nil_append]
    rw [read?_line (.inr rfl) (not_doubled hh hr.2)]
    exact finish_bare (q := .literal) rfl hr.2 hb
  · simp only [List.cons_append, List.append_assoc, List.nil_append]
    change finish ⟨'"', true⟩ (firstBreak _) = _
    rw [firstBreak_first fun hp => head?_escaped_lines rfl (by simpa using hp)]
    exact finish_escaped (q := .basicLines) rfl hr.1 s
  · rename_i hq
    have hb := bare_of_literalLines hq
    simp only [List.cons_append, List.append_assoc, List.nil_append]
    change finish ⟨'\'', true⟩ (firstBreak _) = _
    rw [firstBreak_first fun hp => hb.head?_ne_break rfl (by simpa using hp)]
    exact finish_bare (q := .literalLines) rfl hr.2 hb

end Written

end Quoted

end Haptics.Toml
