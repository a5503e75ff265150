import Haptics.Proofs.Spelling

/-! The words of written JSON. A value whose numbers are all whole is written without control
characters, and its text is taken apart again into the words that it was put together from. -/

namespace Haptics

/-! ## Digits -/

namespace Decimal

theorem digits_of_lt {n : Nat} (h : n < 10) : digits n = [n.digitChar] := Nat.toDigits_of_lt_base h

theorem digits_of_le {n : Nat} (h : 10 ≤ n) : digits n = digits (n / 10) ++ [(n % 10).digitChar] :=
  Nat.toDigits_of_base_le (by decide) h

theorem isDigit_of_mem_digits {n : Nat} {c : Char} (h : c ∈ digits n) : c.isDigit = true :=
  Nat.isDigit_of_mem_toDigits (by decide) (by decide) h

theorem digits_ne_nil (n : Nat) : digits n ≠ [] := Nat.toDigits_ne_nil

theorem value_digitChar : ∀ n < 10, value [n.digitChar] = n := by decide

theorem value_digits (n : Nat) : value (digits n) = n := by
  induction n using Nat.strongRecOn with
  | ind n ih =>
    rcases Nat.lt_or_ge n 10 with h | h
    · rw [digits_of_lt h, value_digitChar n h]
    · have hd := value_digitChar (n % 10) (Nat.mod_lt n (by decide))
      have hi := ih (n / 10) (by omega)
      rw [digits_of_le h, value, valueIn_append_one]
      rw [value] at hd hi
      rw [hd, hi, Nat.div_add_mod]

/-- Only the number 0 is written with a zero in front. -/
theorem head_digits {n : Nat} (h : n ≠ 0) : (digits n).head? ≠ some '0' := by
  induction n using Nat.strongRecOn with
  | ind n ih =>
    rcases Nat.lt_or_ge n 10 with hn | hn
    · rw [digits_of_lt hn]
      simpa using h
    · obtain ⟨c, cs, hc⟩ := List.exists_cons_of_ne_nil (digits_ne_nil (n / 10))
      have hi := ih (n / 10) (by omega) (by omega)
      rw [hc] at hi
      rw [digits_of_le hn, hc]
      exact hi

theorem value_hexPair : ∀ n < 32, valueIn 16 ('0' :: '0' :: Json.hexPair n) = n := by decide

end Decimal

namespace Json

/-! ## Values without fractions -/

/-- Whether a number is whole and fits into 64 bits. -/
def Number.whole : Number → Bool
  | .int i => -9223372036854775808 ≤ i && i < 18446744073709551616
  | .float _ => false

mutual

/-- Whether all numbers in a value are whole. -/
def whole : Json → Bool
  | .null | .bool _ | .str _ => true
  | .num n => n.whole
  | .arr items => wholeItems items
  | .obj members => wholeMembers members

def wholeItems : List Json → Bool
  | [] => true
  | j :: js => j.whole && wholeItems js

def wholeMembers : List (String × Json) → Bool
  | [] => true
  | (_, j) :: ms => j.whole && wholeMembers ms

end

mutual

/-- The words of a value. -/
def tokens : Json → List Token
  | .null => [.null]
  | .bool b => [.bool b]
  | .num n => [.num (some n)]
  | .str s => [.str (some s)]
  | .arr items => .openList :: itemTokens items ++ [.closeList]
  | .obj members => .openTable :: memberTokens members ++ [.closeTable]

def itemTokens : List Json → List Token
  | [] => []
  | [j] => j.tokens
  | j :: js => j.tokens ++ .comma :: itemTokens js

def memberTokens : List (String × Json) → List Token
  | [] => []
  | [(name, j)] => .str (some name) :: .colon :: j.tokens
  | (name, j) :: ms => .str (some name) :: .colon :: j.tokens ++ .comma :: memberTokens ms

end

/-! ## Numbers -/

namespace Numeral

theorem digits_digits (n : Nat) : Digits (Decimal.digits n) :=
  ⟨Decimal.digits_ne_nil n, fun _ => Decimal.isDigit_of_mem_digits⟩

/-- Whole numbers are written in digits, with a sign in front if they are negative. -/
theorem written_digits (negative : Bool) (n : Nat) :
    Written ⟨negative, Decimal.digits n, [], none⟩
      ((if negative then ['-'] else []) ++ Decimal.digits n) := by
  have hz : (Decimal.digits n).head? ≠ some '0' ∨ (Decimal.digits n).length = 1 := by
    rcases Nat.eq_zero_or_pos n with rfl | hn
    · exact .inr (by decide)
    · exact .inl (Decimal.head_digits hn.ne')
  have hw : Written ⟨negative, Decimal.digits n, [], none⟩
      ((if negative then ['-'] else []) ++ (Decimal.digits n ++ ([] ++ []))) :=
    .mk (digits_digits n) hz .none .none
  simpa using hw

theorem number?_of_nat {n : Nat} (h : n < UInt64.size) :
    number? ⟨false, Decimal.digits n, [], none⟩ = some (.int n) := by
  simp [number?, Decimal.value_digits, h]

theorem number?_of_neg {n : Nat} (hn : 0 < n) (h : n ≤ Nat.pow 2 63) :
    number? ⟨true, Decimal.digits n, [], none⟩ = some (.int (-n)) := by
  simp only [number?, Decimal.value_digits, and_self, ↓reduceIte]
  rw [if_pos ⟨hn, h⟩]

end Numeral

theorem Number.written {n : Number} (h : n.whole = true) :
    ∃ numeral : Numeral, numeral.Written n.text ∧ numeral.number? = some n := by
  cases n with
  | float x => cases h
  | int i =>
    simp only [Number.whole, Bool.and_eq_true, decide_eq_true_eq] at h
    cases i with
    | ofNat n =>
      have hn : n < UInt64.size := Int.ofNat_lt.mp h.2
      exact ⟨_, Numeral.written_digits false n, Numeral.number?_of_nat hn⟩
    | negSucc n =>
      have hn : n + 1 ≤ Nat.pow 2 63 := by simp; omega
      exact ⟨_, Numeral.written_digits true (n + 1), Numeral.number?_of_neg n.succ_pos hn⟩

namespace Token

/-! ## Words -/

theorem Word.number {n : Number} (h : n.whole = true) : Word (.num (some n)) n.text := by
  obtain ⟨numeral, hw, hn⟩ := Number.written h
  exact hn ▸ .num hw

theorem isHexDigit_hexPair : ∀ n < 32, (hexPair n).all Decimal.isHexDigit = true := by decide

theorem quad_hexPair {n : Nat} (h : n < 32) : Quad ('0' :: '0' :: hexPair n) n where
  length := rfl
  digits := by
    have hd := List.all_eq_true.mp (isHexDigit_hexPair n h)
    exact List.forall_mem_cons.mpr ⟨rfl, List.forall_mem_cons.mpr ⟨rfl, hd⟩⟩
  value := Decimal.value_hexPair n h

theorem Spelling.escape (c : Char) {cs body : List Char} (h : Spelling cs body) :
    Spelling (escape c ++ cs) (c :: body) := by
  unfold Json.escape
  split_ifs with h₁ h₂ h₃ h₄ h₅ h₆ h₇ h₈
  case pos | pos | pos | pos | pos | pos | pos => subst_vars; exact .simple rfl h
  case pos =>
    have hn : c.toNat < 32 := h₈
    have hc := Spelling.code (quad_hexPair hn) (.inl (by omega)) h
    rwa [Char.ofNat_toNat] at hc
  case neg => exact .plain h₁ h₂ (Char.not_lt.mp h₈) h

theorem Spelling.escapes (cs : List Char) : Spelling (cs.flatMap Json.escape) cs := by
  induction cs with
  | nil => exact .nil
  | cons c cs ih =>
    rw [List.flatMap_cons]
    exact ih.escape c

theorem Word.quoted (s : String) : Word (.str (some s)) (quoted s) := by
  have hw := Word.str (Spelling.escapes s.toList)
  rwa [String.ofList_toList] at hw

end Token

/-! ## Values -/

open Token

mutual

theorem chars_spread : ∀ j : Json, j.whole = true → Spread j.tokens j.chars
  | .null, _ => Word.null.spread
  | .bool true, _ => Word.yes.spread
  | .bool false, _ => Word.no.spread
  | .num _, h => (Word.number h).spread
  | .str s, _ => (Word.quoted s).spread
  | .arr items, h => .mark rfl ((itemChars_spread items h).append (.inr rfl) (.mark rfl .nil))
  | .obj members, h => .mark rfl ((memberChars_spread members h).append (.inr rfl) (.mark rfl .nil))

theorem itemChars_spread : ∀ items : List Json, wholeItems items = true →
    Spread (itemTokens items) (itemChars items)
  | [], _ => .nil
  | [j], h => chars_spread j (by simpa [wholeItems] using h)
  | j :: j' :: js, h => by
    obtain ⟨hj, hjs⟩ := Bool.and_eq_true_iff.mp h
    have hrest := itemChars_spread (j' :: js) hjs
    exact (chars_spread j hj).append (.inr rfl) (.mark (c := ',') rfl hrest)

theorem memberChars_spread : ∀ members : List (String × Json), wholeMembers members = true →
    Spread (memberTokens members) (memberChars members)
  | [], _ => .nil
  | [(name, j)], h => by
    have hj := chars_spread j (by simpa [wholeMembers] using h)
    exact .word (.quoted name) (.inr rfl) (.mark rfl hj)
  | (name, j) :: m :: ms, h => by
    obtain ⟨hj, hms⟩ := Bool.and_eq_true_iff.mp h
    have hrest := memberChars_spread (m :: ms) hms
    have hfirst : Spread (.str (some name) :: .colon :: j.tokens) (quoted name ++ ':' :: j.chars) :=
      .word (.quoted name) (.inr rfl) (.mark rfl (chars_spread j hj))
    exact hfirst.append (.inr rfl) (.mark (c := ',') rfl hrest)

end

/-- A written value has the words that it was put together from. -/
theorem spread_text {j : Json} (h : j.whole = true) : Spread j.tokens j.text.toList := by
  rw [text, String.toList_ofList]
  exact chars_spread j h

/-! ## No control characters -/

/-- A text is on one line and has no control characters. -/
def Printable (cs : List Char) : Prop := ∀ c ∈ cs, ' ' ≤ c

namespace Printable
variable {c : Char} {cs cs' : List Char}

theorem cons (hc : ' ' ≤ c) (h : Printable cs) : Printable (c :: cs) :=
  List.forall_mem_cons.mpr ⟨hc, h⟩

theorem append (h : Printable cs) (h' : Printable cs') : Printable (cs ++ cs') :=
  List.forall_mem_append.mpr ⟨h, h'⟩

theorem of_all (h : cs.all (' ' ≤ ·) = true) : Printable cs := by simpa [Printable] using h

end Printable

theorem le_of_isNumeric {c : Char} (h : isNumeric c = true) : ' ' ≤ c := by
  simp only [isNumeric, Char.isDigit, Bool.or_eq_true, Bool.and_eq_true, decide_eq_true_eq] at h
  rcases h with ((((h | rfl) | rfl) | rfl) | rfl) | rfl
  case inl => exact UInt32.le_trans (by decide) h.1
  all_goals decide

theorem hexPair_printable : ∀ n < 32, (hexPair n).all (' ' ≤ ·) = true := by decide

theorem escape_printable (c : Char) : Printable (escape c) := by
  unfold escape
  split_ifs with h₁ h₂ h₃ h₄ h₅ h₆ h₇ h₈
  case pos | pos | pos | pos | pos | pos | pos => exact .of_all (by decide)
  case pos =>
    have hp : Printable (hexPair c.toNat) := .of_all (hexPair_printable c.toNat h₈)
    exact (((hp.cons (by decide)).cons (by decide)).cons (by decide)).cons (by decide)
  case neg => exact Printable.cons (Char.not_lt.mp h₈) nofun

theorem quoted_printable (s : String) : Printable (quoted s) := by
  have he : Printable (s.toList.flatMap escape) := fun c hc => by
    obtain ⟨x, -, hx⟩ := List.mem_flatMap.mp hc
    exact escape_printable x c hx
  exact (he.cons (by decide)).append (.cons (by decide) nofun)

theorem number_printable {n : Number} (h : n.whole = true) : Printable n.text := by
  obtain ⟨numeral, hw, -⟩ := Number.written h
  obtain ⟨c, cs, hc, hfirst, hcs⟩ := hw.chars
  rw [hc]
  refine Printable.cons ?_ fun x hx => le_of_isNumeric (hcs x hx)
  rcases hfirst with hd | rfl
  · exact le_of_isNumeric (isNumeric_of_isDigit hd)
  · decide

mutual

theorem chars_printable : ∀ j : Json, j.whole = true → Printable j.chars
  | .null, _ | .bool true, _ | .bool false, _ => .of_all (by decide)
  | .num _, h => number_printable h
  | .str s, _ => quoted_printable s
  | .arr items, h =>
    ((itemChars_printable items h).cons (by decide)).append (.cons (by decide) nofun)
  | .obj members, h =>
    ((memberChars_printable members h).cons (by decide)).append (.cons (by decide) nofun)

theorem itemChars_printable : ∀ items : List Json, wholeItems items = true →
    Printable (itemChars items)
  | [], _ => nofun
  | [j], h => chars_printable j (by simpa [wholeItems] using h)
  | j :: j' :: js, h => by
    obtain ⟨hj, hjs⟩ := Bool.and_eq_true_iff.mp h
    exact (chars_printable j hj).append ((itemChars_printable (j' :: js) hjs).cons (by decide))

theorem memberChars_printable : ∀ members : List (String × Json), wholeMembers members = true →
    Printable (memberChars members)
  | [], _ => nofun
  | [(name, j)], h =>
    (quoted_printable name).append
      ((chars_printable j (by simpa [wholeMembers] using h)).cons (by decide))
  | (name, j) :: m :: ms, h => by
    obtain ⟨hj, hms⟩ := Bool.and_eq_true_iff.mp h
    have hm := (quoted_printable name).append (.cons (c := ':') (by decide) (chars_printable j hj))
    exact hm.append (.cons (c := ',') (by decide) (memberChars_printable (m :: ms) hms))

end

/-- Written values have no line breaks nor other control characters in them. -/
theorem text_printable {j : Json} (h : j.whole = true) : ∀ c ∈ j.text.toList, ' ' ≤ c := by
  rw [text, String.toList_ofList]
  exact chars_printable j h

end Json

end Haptics
