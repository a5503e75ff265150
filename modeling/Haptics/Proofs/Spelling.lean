import Mathlib.Data.List.Basic
import Mathlib.Data.List.TakeWhile
import Mathlib.Data.Option.Basic
import Haptics.Json.Reader

/-! The words of a JSON text and how they may be spelled. Strings and numbers have more than one
spelling, and blanks may stand before, between and after the words; a text is taken apart into its
words whichever way it is spelled. -/

namespace Haptics.Json

/-! ## Spelling -/

namespace Numeral

/-- At least one digit. -/
def Digits (ds : List Char) : Prop := ds ≠ [] ∧ ∀ d ∈ ds, d.isDigit = true

/-- What may be written for the digits of a fraction: nothing, or a point in front of them. -/
inductive Fraction : List Char → List Char → Prop
  | none : Fraction [] []
  | point {ds : List Char} : Digits ds → Fraction ds ('.' :: ds)

/-- What may be written for an exponent: nothing, or a letter, a sign and digits; a plus may be left
out. -/
inductive Exponent : Option (Bool × List Char) → List Char → Prop
  | none : Exponent none []
  | plain {c : Char} {ds : List Char} : c = 'e' ∨ c = 'E' → Digits ds →
      Exponent (some (false, ds)) (c :: ds)
  | plus {c : Char} {ds : List Char} : c = 'e' ∨ c = 'E' → Digits ds →
      Exponent (some (false, ds)) (c :: '+' :: ds)
  | minus {c : Char} {ds : List Char} : c = 'e' ∨ c = 'E' → Digits ds →
      Exponent (some (true, ds)) (c :: '-' :: ds)

/-- How a number is written. No zero stands in front of other digits. -/
inductive Written : Numeral → List Char → Prop
  | mk {negative : Bool} {whole fraction fs es : List Char} {exponent : Option (Bool × List Char)} :
      Digits whole → whole.head? ≠ some '0' ∨ whole.length = 1 → Fraction fraction fs →
      Exponent exponent es → Written ⟨negative, whole, fraction, exponent⟩
        ((if negative then ['-'] else []) ++ (whole ++ (fs ++ es)))

end Numeral

namespace Token

/-- A number of four hexadecimal digits. -/
structure Quad (ds : List Char) (n : Nat) : Prop where
  length : ds.length = 4
  digits : ∀ d ∈ ds, Decimal.isHexDigit d = true
  value : Decimal.valueIn 16 ds = n

/-- How what stands between two quotes spells the characters of a string. -/
inductive Spelling : List Char → List Char → Prop
  | nil : Spelling [] []
  | plain {c : Char} {cs body : List Char} : c ≠ '"' → c ≠ '\\' → ' ' ≤ c →
      Spelling cs body → Spelling (c :: cs) (c :: body)
  | simple {c x : Char} {cs body : List Char} : simpleEscape? c = some x →
      Spelling cs body → Spelling ('\\' :: c :: cs) (x :: body)
  | code {ds : List Char} {n : Nat} {cs body : List Char} : Quad ds n → n < 0xD800 ∨ 0xE000 ≤ n →
      Spelling cs body → Spelling ('\\' :: 'u' :: ds ++ cs) (Char.ofNat n :: body)
  /-- A character above the first 65536 is spelled as two halves. -/
  | pair {ds ds' : List Char} {high low : Nat} {cs body : List Char} :
      Quad ds (0xD800 + high) → Quad ds' (0xDC00 + low) → high < 0x400 → low < 0x400 →
      Spelling cs body → Spelling ('\\' :: 'u' :: ds ++ '\\' :: 'u' :: ds' ++ cs)
        (Char.ofNat (0x10000 + high * 0x400 + low) :: body)

/-- How a word is spelled that is not a mark. -/
inductive Word : Token → List Char → Prop
  | null : Word .null ['n', 'u', 'l', 'l']
  | yes : Word (.bool true) ['t', 'r', 'u', 'e']
  | no : Word (.bool false) ['f', 'a', 'l', 's', 'e']
  | num {n : Numeral} {cs : List Char} : n.Written cs → Word (.num n.number?) cs
  | str {cs body : List Char} : Spelling cs body →
      Word (.str (some (String.ofList body))) ('"' :: cs ++ ['"'])

/-- Where a word may be over: at a blank, at a mark or at the end of the text. -/
def Ends : List Char → Prop
  | [] => True
  | c :: _ => isBlank c = true ∨ (punctuation? c).isSome

/-- A text that has certain words, with blanks before, between and after them. -/
inductive Spread : List Token → List Char → Prop
  | nil : Spread [] []
  | blank {c : Char} {ts : List Token} {cs : List Char} : isBlank c = true →
      Spread ts cs → Spread ts (c :: cs)
  | mark {t : Token} {c : Char} {ts : List Token} {cs : List Char} : punctuation? c = some t →
      Spread ts cs → Spread (t :: ts) (c :: cs)
  | word {t : Token} {w : List Char} {ts : List Token} {cs : List Char} : Word t w → Ends cs →
      Spread ts cs → Spread (t :: ts) (w ++ cs)

theorem Word.spread {t : Token} {w : List Char} (h : Word t w) : Spread [t] w := by
  have hend : Ends [] := trivial
  simpa using Spread.word h hend .nil

theorem Ends.append {cs cs' : List Char} (h : Ends cs) (h' : Ends cs') : Ends (cs ++ cs') := by
  cases cs with
  | nil => exact h'
  | cons c cs => exact h

theorem Spread.append {ts ts' : List Token} {cs cs' : List Char} (h : Spread ts cs)
    (he : Ends cs') (h' : Spread ts' cs') : Spread (ts ++ ts') (cs ++ cs') := by
  induction h with
  | nil => exact h'
  | blank hc _ ih => exact .blank hc ih
  | mark hc _ ih => exact .mark hc ih
  | word hw hends _ ih =>
    rw [List.append_assoc]
    exact .word hw (hends.append he) ih

/-! ## Words in a text -/

/-- The words before a place in a text where no letter and no digit follows. -/
structure Ready (ts : List Token) (s : State) : Prop where
  finish : finish s = some ts.reverse
  step : ∀ c, isLetter c = false → isNumeric c = false → step s c = begin? ts c

/-- A text is read as certain words, wherever it stands. -/
def Spells (cs : List Char) (words : List Token) : Prop :=
  ∀ ts, ∃ s, cs.foldlM Token.step (ts, .between) = some s ∧ Ready (words.reverse ++ ts) s

section Ready
variable {ts : List Token} {cs : List Char} {c : Char} {t : Token} {s : State}

theorem ready_between (ts : List Token) : Ready ts (ts, .between) := ⟨rfl, fun _ _ _ => rfl⟩

theorem ready_letters (h : word? cs.reverse = some t) : Ready (t :: ts) (ts, .letters cs) :=
  ⟨by simp [Token.finish, h], fun c hc _ => by simp [Token.step, hc, h]⟩

theorem ready_number (h : number? cs = some t) : Ready (t :: ts) (ts, .number cs) :=
  ⟨by simp [Token.finish, h], fun c _ hc => by simp [Token.step, hc, h]⟩

/-- A mark begins nothing that could go on, and ends what stands before it. -/
theorem begin?_mark (h : punctuation? c = some t) (ts : List Token) :
    isLetter c = false ∧ isNumeric c = false ∧ begin? ts c = some (t :: ts, .between) := by
  unfold punctuation? at h
  split at h <;> cases h <;> exact ⟨by decide, by decide, rfl⟩

/-- Where a word is over, reading goes on as if nothing had been begun. -/
theorem Ready.foldlM (h : Ready ts s) (hcs : Ends (c :: cs)) :
    (c :: cs).foldlM Token.step s = (c :: cs).foldlM Token.step (ts, .between) := by
  have hc : isLetter c = false ∧ isNumeric c = false := by
    rcases hcs with hblank | hmark
    · simp only [isBlank, Bool.or_eq_true, decide_eq_true_eq] at hblank
      rcases hblank with ((rfl | rfl) | rfl) | rfl <;> exact ⟨by decide, by decide⟩
    · obtain ⟨t, ht⟩ := Option.isSome_iff_exists.mp hmark
      obtain ⟨hl, hn, -⟩ := begin?_mark ht ts
      exact ⟨hl, hn⟩
  rw [List.foldlM_cons, List.foldlM_cons, h.step c hc.1 hc.2]
  rfl

end Ready

theorem Spells.scan? {cs : List Char} {words : List Token} (h : Spells cs words) :
    scan? cs = some words := by
  obtain ⟨s, hs, hr⟩ := h []
  rw [Token.scan?, hs, Option.bind_eq_bind, Option.bind_some, hr.finish]
  simp

/-! ### Numbers -/

theorem isNumeric_of_isDigit {c : Char} (h : c.isDigit = true) : isNumeric c = true := by
  simp [isNumeric, h]

theorem begin?_number {c : Char} (h : c.isDigit = true ∨ c = '-') (ts : List Token) :
    begin? ts c = some (ts, .number [c]) := by
  rcases h with h | rfl
  · have hb : isBlank c = false := by
      simp only [isBlank, Bool.or_eq_false_iff, decide_eq_false_iff_not]
      refine ⟨⟨⟨?_, ?_⟩, ?_⟩, ?_⟩ <;> rintro rfl <;> cases h
    have hl : isLetter c = false := by
      simp only [isLetter, Char.isDigit, Bool.and_eq_true, decide_eq_true_eq, Char.le_def,
        UInt32.le_iff_toNat_le, Bool.and_eq_false_imp, decide_eq_false_iff_not] at h ⊢
      intro ha
      have : (97 : Nat) ≤ c.val.toNat := ha
      have : c.val.toNat ≤ 57 := h.2
      omega
    simp [begin?, hb, hl, h]
  · rfl

theorem foldlM_number {cs : List Char} (h : ∀ c ∈ cs, isNumeric c = true) (ts : List Token)
    (done : List Char) :
    cs.foldlM step (ts, .number done) = some (ts, .number (cs.reverse ++ done)) := by
  induction cs generalizing done with
  | nil => rfl
  | cons c cs ih =>
    obtain ⟨hc, hcs⟩ := List.forall_mem_cons.mp h
    rw [List.foldlM_cons, step, if_pos hc, List.reverse_cons, List.append_assoc]
    exact ih hcs (c :: done)

end Token

namespace Numeral
variable {cs ds rest fraction : List Char} {n : Numeral} {exponent : Option (Bool × List Char)}

open Token

theorem Digits.isNumeric (h : Digits ds) : ∀ c ∈ ds, isNumeric c = true :=
  fun c hc => isNumeric_of_isDigit (h.2 c hc)

theorem Fraction.isNumeric (h : Fraction fraction cs) : ∀ c ∈ cs, isNumeric c = true := by
  cases h with
  | none => simp
  | point hds =>
    have hpoint : Token.isNumeric '.' = true := rfl
    exact List.forall_mem_cons.mpr ⟨hpoint, hds.isNumeric⟩

theorem Exponent.head (h : Exponent exponent cs) : ∀ c ∈ cs.head?, c = 'e' ∨ c = 'E' := by
  cases h with
  | none => simp
  | plain hc | plus hc | minus hc => simpa using hc

theorem Exponent.isNumeric (h : Exponent exponent cs) : ∀ c ∈ cs, isNumeric c = true := by
  have hletter (c : Char) (hc : c = 'e' ∨ c = 'E') : Token.isNumeric c = true := by
    rcases hc with rfl | rfl <;> rfl
  have hplus : Token.isNumeric '+' = true := rfl
  have hminus : Token.isNumeric '-' = true := rfl
  cases h with
  | none => simp
  | plain hc hds => exact List.forall_mem_cons.mpr ⟨hletter _ hc, hds.isNumeric⟩
  | plus hc hds =>
    exact List.forall_mem_cons.mpr ⟨hletter _ hc, List.forall_mem_cons.mpr ⟨hplus, hds.isNumeric⟩⟩
  | minus hc hds =>
    exact List.forall_mem_cons.mpr ⟨hletter _ hc, List.forall_mem_cons.mpr ⟨hminus, hds.isNumeric⟩⟩

/-- A number begins with its sign or with a digit, and nothing in it ends a number. -/
theorem Written.chars (h : Written n cs) :
    ∃ c rest, cs = c :: rest ∧ (c.isDigit = true ∨ c = '-') ∧ ∀ x ∈ rest, isNumeric x = true := by
  obtain @⟨negative, whole, fraction, fs, es, exponent, hw, -, hf, he⟩ := h
  have hrest : ∀ x ∈ fs ++ es, isNumeric x = true :=
    List.forall_mem_append.mpr ⟨hf.isNumeric, he.isNumeric⟩
  have hall : ∀ x ∈ whole ++ (fs ++ es), isNumeric x = true :=
    List.forall_mem_append.mpr ⟨hw.isNumeric, hrest⟩
  cases negative with
  | true => exact ⟨'-', _, rfl, .inr rfl, hall⟩
  | false =>
    obtain ⟨hne, hd⟩ := hw
    obtain ⟨d, ds, rfl⟩ := List.exists_cons_of_ne_nil hne
    exact ⟨d, _, rfl, .inl (hd d List.mem_cons_self), fun x hx => hall x (List.mem_cons_of_mem d hx)⟩

theorem digits?_append (h : Digits ds) (hr : ∀ c ∈ rest.head?, c.isDigit = false) :
    digits? (ds ++ rest) = some (ds, rest) := by
  obtain ⟨hne, hd⟩ := h
  have hstop : rest.takeWhile Char.isDigit = [] ∧ rest.dropWhile Char.isDigit = rest := by
    cases rest with
    | nil => exact ⟨rfl, rfl⟩
    | cons c cs => simp [hr c rfl]
  have hempty : ds.isEmpty = false := by simpa using hne
  rw [digits?, List.takeWhile_append_of_pos hd, List.dropWhile_append_of_pos hd, hstop.1, hstop.2,
    List.append_nil]
  simp only [hempty]
  rfl

theorem Exponent.read (h : Exponent exponent cs) : exponent? cs = some exponent := by
  have hd (ds : List Char) (h : Digits ds) : digits? ds = some (ds, []) := by
    have happend : digits? (ds ++ []) = some (ds, []) := digits?_append h (by simp)
    rwa [List.append_nil] at happend
  cases h with
  | none => rfl
  | @plain c ds hc hds =>
    obtain ⟨hne, hdigits⟩ := hds
    obtain ⟨d, ds, rfl⟩ := List.exists_cons_of_ne_nil hne
    have hfirst := hdigits d List.mem_cons_self
    have hplus : d ≠ '+' := by
      rintro rfl
      cases hfirst
    have hminus : d ≠ '-' := by
      rintro rfl
      cases hfirst
    simp only [exponent?, guard, if_pos hc, Option.bind_eq_bind]
    split
    · next heq => exact absurd (List.cons.inj heq).1 hplus
    · next heq => exact absurd (List.cons.inj heq).1 hminus
    · rw [hd _ ⟨hne, hdigits⟩]
      rfl
  | plus hc hds => simp [exponent?, hc, hd _ hds, guard]
  | minus hc hds => simp [exponent?, hc, hd _ hds, guard]

theorem Written.read (h : Written n cs) : ofChars? cs = some n := by
  obtain @⟨negative, whole, fraction, fs, es, exponent, hw, hz, hf, he⟩ := h
  have hes : ∀ c ∈ es.head?, c.isDigit = false := by
    intro c hc
    rcases he.head c hc with rfl | rfl <;> rfl
  have hstop : ∀ c ∈ (fs ++ es).head?, c.isDigit = false := by
    cases hf with
    | none => exact hes
    | point hds => simp
  have hwhole := digits?_append hw hstop
  unfold ofChars?
  split
  next sign body hsign =>
  obtain ⟨rfl, rfl⟩ : sign = negative ∧ body = whole ++ (fs ++ es) := by
    cases negative with
    | true =>
      cases hsign
      exact ⟨rfl, rfl⟩
    | false =>
      split at hsign
      · next heq =>
        -- a digit is not a sign
        obtain ⟨hne, hd⟩ := hw
        obtain ⟨d, ds, rfl⟩ := List.exists_cons_of_ne_nil hne
        have hfirst := hd d List.mem_cons_self
        rw [(List.cons.inj heq).1] at hfirst
        cases hfirst
      · cases hsign
        exact ⟨rfl, rfl⟩
  simp only [hwhole, guard, if_pos hz, Option.bind_eq_bind, Option.pure_def, Option.bind_some]
  cases hf with
  | none =>
    split
    · next heq =>
      -- neither is a point the letter of an exponent
      have hfirst : es.head? = some '.' := congrArg List.head? heq
      rcases he.head '.' hfirst with h | h <;> cases h
    · simp [he.read]
  | point hds => simp [digits?_append hds hes, he.read]

end Numeral

namespace Token

/-! ### Strings -/

section Strings
variable {cs body : List Char}

theorem step_plain {c : Char} (hq : c ≠ '"') (hb : c ≠ '\\') (hc : ¬c < ' ') (ts : List Token)
    (body : List Char) :
    step (ts, .string (some body) none) c = some (ts, .string (some (c :: body)) none) := by
  rw [step, if_neg hq, if_neg hb, if_neg hc]
  rfl

theorem Quad.foldlM {ds : List Char} {n : Nat} (h : Quad ds n) (ts : List Token) (body : Body)
    (high : Option Nat) : ('\\' :: 'u' :: ds).foldlM step (ts, .string body high) =
      some (ts, afterHex body high n) := by
  obtain ⟨hlength, hd, hv⟩ := h
  obtain ⟨a, b, c, d, rfl⟩ := List.length_eq_four.mp hlength
  simp only [List.forall_mem_cons] at hd
  obtain ⟨ha, hb, hc, hd, -⟩ := hd
  have hopen : ('\\' :: 'u' :: [a, b, c, d]).foldlM step (ts, .string body high) =
      [a, b, c, d].foldlM step (ts, .hex body high []) := rfl
  rw [hopen, ← hv]
  simp [step, ha, hb, hc, hd]

/-- A string is read back from any spelling of it. -/
theorem Spelling.foldlM (h : Spelling cs body) (ts : List Token) (done : List Char) :
    cs.foldlM step (ts, .string (some done) none) =
      some (ts, .string (some (body.reverse ++ done)) none) := by
  induction h generalizing done with
  | nil => rfl
  | plain hq hb hc _ ih =>
    rw [List.foldlM_cons, step_plain hq hb (Char.not_lt.mpr hc)]
    simpa using ih _
  | @simple c x cs body hx _ ih =>
    have hu : c ≠ 'u' := by
      rintro rfl
      cases hx
    have hs : step (ts, .escape (some done) none) c = some (ts, .string (some (x :: done)) none) := by
      rw [step, if_neg hu, hx]
      rfl
    have ho : step (ts, .string (some done) none) '\\' = some (ts, .escape (some done) none) := rfl
    simp only [List.foldlM_cons, ho, hs, Option.bind_eq_bind, Option.bind_some, ih]
    simp
  | @code ds n cs body hn hr _ ih =>
    have ha : afterHex (some done) none n = .string (some (Char.ofNat n :: done)) none := by
      rw [afterHex, if_neg (by omega), if_neg (by omega)]
      rfl
    rw [List.foldlM_append, hn.foldlM, ha]
    simpa using ih _
  | @pair ds ds' high low cs body hh hl hhigh hlow _ ih =>
    have ha : afterHex (some done) none (0xD800 + high) =
        .string (some done) (some (0xD800 + high)) := by
      rw [afterHex, if_neg (by omega), if_pos (by omega)]
      rfl
    have hb : afterHex (some done) (some (0xD800 + high)) (0xDC00 + low) =
        .string (some (Char.ofNat (0x10000 + high * 0x400 + low) :: done)) none := by
      rw [afterHex, if_pos (by omega)]
      simp
    simp only [List.foldlM_append, hh.foldlM, ha, hl.foldlM, hb, Option.bind_eq_bind,
      Option.bind_some, ih]
    simp

end Strings

/-! ### All words -/

section Words
variable {t : Token} {ts : List Token} {cs : List Char}

theorem Word.spells (h : Word t cs) : Spells cs [t] := by
  intro ts
  cases h with
  | null | yes | no => exact ⟨_, rfl, ready_letters rfl⟩
  | @num n cs hn =>
    obtain ⟨c, rest, hc, hfirst, hrest⟩ := hn.chars
    refine ⟨(ts, .number cs.reverse), ?_, ready_number ?_⟩
    · rw [hc, List.foldlM_cons, step, begin?_number hfirst, List.reverse_cons]
      exact foldlM_number hrest ts [c]
    · rw [number?, List.reverse_reverse, hn.read]
      rfl
  | @str cs body hs =>
    refine ⟨(.str (some (String.ofList body)) :: ts, .between), ?_, ready_between _⟩
    have hb : begin? ts '"' = some (ts, .string (some []) none) := rfl
    have he : step (ts, .string (some body.reverse) none) '"' =
        some (.str (some (String.ofList body.reverse.reverse)) :: ts, .between) := rfl
    rw [List.cons_append, List.foldlM_cons, step, hb]
    simp only [Option.bind_eq_bind, Option.bind_some, List.foldlM_append, hs.foldlM,
      List.append_nil, List.foldlM_cons, he, List.foldlM_nil, List.reverse_reverse]
    rfl

theorem Spread.spells (h : Spread ts cs) : Spells cs ts := by
  induction h with
  | nil => exact fun done => ⟨_, rfl, ready_between done⟩
  | @blank c ts cs hc _ ih =>
    intro done
    obtain ⟨s, hs, hr⟩ := ih done
    refine ⟨s, ?_, hr⟩
    rw [List.foldlM_cons, step, begin?, if_pos hc]
    exact hs
  | @mark t c ts cs hc _ ih =>
    intro done
    obtain ⟨s, hs, hr⟩ := ih (t :: done)
    obtain ⟨-, -, hb⟩ := begin?_mark hc done
    refine ⟨s, ?_, by simpa using hr⟩
    rw [List.foldlM_cons, step, hb]
    exact hs
  | @word t w ts cs hw hends _ ih =>
    intro done
    obtain ⟨s, hs, hr⟩ := hw.spells done
    obtain ⟨s', hs', hr'⟩ := ih (t :: done)
    rw [List.foldlM_append, hs]
    cases cs with
    | nil =>
      cases hs'
      have hnone : t :: done = ts.reverse ++ t :: done :=
        List.reverse_injective (Option.some.inj hr'.finish)
      exact ⟨s, rfl, by simpa [← hnone] using hr⟩
    | cons c cs => exact ⟨s', (hr.foldlM hends).trans hs', by simpa using hr'⟩

end Words

end Token

end Haptics.Json
