import Mathlib.Data.List.Basic
import Haptics.Daemon

/-! Lines. The service cuts its input into lines byte by byte. For a text these are the bytes of the
lines that the text has, and what the service writes has the lines that it was put together from. -/

namespace Haptics.Daemon

/-! ## The lines of a text -/

/-- A line without the carriage return that belongs to its line break. -/
def chomped (cs : List Char) : List Char := if cs.getLast? = some '\r' then cs.dropLast else cs

/-- The lines of a text. What follows the last line break is a line only if there is something. -/
def linesOf (cs : List Char) : List (List Char) :=
  let parts := cs.splitOn '\n'
  parts.dropLast.map chomped ++ parts.getLast?.toList.filter fun part => !part.isEmpty

def textLines (s : String) : List String := (linesOf s.toList).map String.ofList

theorem linesOf_last {cs : List Char} (h : '\n' ∉ cs) (hne : cs ≠ []) : linesOf cs = [cs] := by
  simp [linesOf, List.splitOn_eq_singleton h, hne]

theorem linesOf_append {cs : List Char} (h : '\n' ∉ cs) (rest : List Char) :
    linesOf (cs ++ '\n' :: rest) = chomped cs :: linesOf rest := by
  obtain ⟨part, parts, hp⟩ := List.exists_cons_of_ne_nil (List.splitOn_ne_nil '\n' rest)
  simp [linesOf, List.splitOn_append_cons_self_of_not_mem h, hp]

/-- A text is gone through line by line. -/
theorem line_induction {P : List Char → Prop} (nil : P [])
    (last : ∀ cs, '\n' ∉ cs → cs ≠ [] → P cs)
    (more : ∀ cs rest, '\n' ∉ cs → P rest → P (cs ++ '\n' :: rest)) (cs : List Char) : P cs := by
  induction hn : cs.length using Nat.strongRecOn generalizing cs with
  | ind n ih =>
    by_cases hm : '\n' ∈ cs
    · obtain ⟨line, rest, rfl, hl⟩ := List.eq_append_cons_of_mem hm
      rw [List.length_append, List.length_cons] at hn
      exact more line rest hl (ih rest.length (by omega) rest rfl)
    · by_cases hne : cs = []
      · rw [hne]
        exact nil
      · exact last cs hm hne

/-! ## Bytes -/

/-- The bytes of a text. -/
def bytesOf (cs : List Char) : List UInt8 := cs.flatMap String.utf8EncodeChar

theorem toUTF8_toList (s : String) : s.toUTF8.data.toList = bytesOf s.toList := by
  rw [String.toUTF8_eq_toByteArray, ← String.utf8Encode_toList, List.utf8Encode, List.data_toByteArray]
  rfl

theorem fromUTF8?_toUTF8 (s : String) : String.fromUTF8? ⟨s.toUTF8.data.toList.toArray⟩ = some s := by
  rw [Array.toArray_toList, String.toUTF8_eq_toByteArray]
  exact dif_pos s.isValidUTF8

theorem bytesOf_append (cs cs' : List Char) : bytesOf (cs ++ cs') = bytesOf cs ++ bytesOf cs' :=
  List.flatMap_append

theorem bytesOf_ne_nil {cs : List Char} (h : cs ≠ []) : bytesOf cs ≠ [] := by
  obtain ⟨c, cs, rfl⟩ := List.exists_cons_of_ne_nil h
  exact List.append_ne_nil_of_left_ne_nil (String.utf8EncodeChar_ne_nil) _

/-- A byte below 128 stands for a character of its own. -/
theorem toNat_of_mem_encode {c : Char} {b : UInt8} (h : b ∈ String.utf8EncodeChar c) (hb : b < 128) :
    c.toNat = b.toNat := by
  have hlt : b.toNat < 128 := hb
  have high {n : Nat} (hn : 128 ≤ n % 256) (he : b = UInt8.ofNat n) : c.toNat = b.toNat := by
    rw [he, UInt8.toNat_ofNat'] at hlt
    omega
  unfold String.utf8EncodeChar at h
  simp only at h
  split at h
  · rename_i hv
    rw [List.mem_singleton.mp h, UInt8.toNat_ofNat', Nat.mod_eq_of_lt (by omega)]
    rfl
  · split at h
    · simp only [List.mem_cons, List.not_mem_nil, or_false] at h
      rcases h with h | h <;> exact high (by omega) h
    · split at h
      · simp only [List.mem_cons, List.not_mem_nil, or_false] at h
        rcases h with h | h | h <;> exact high (by omega) h
      · simp only [List.mem_cons, List.not_mem_nil, or_false] at h
        rcases h with h | h | h | h <;> exact high (by omega) h

theorem eq_of_mem_encode {c d : Char} {b : UInt8} (h : b ∈ String.utf8EncodeChar c) (hb : b < 128)
    (hd : d.toNat = b.toNat) : c = d :=
  Char.toNat_inj.mp ((toNat_of_mem_encode h hb).trans hd.symm)

theorem newline_not_mem {cs : List Char} (h : '\n' ∉ cs) : 10 ∉ bytesOf cs := by
  intro hm
  obtain ⟨c, hc, hb⟩ := List.mem_flatMap.mp hm
  have he : c = '\n' := eq_of_mem_encode hb (by decide) rfl
  exact h (he ▸ hc)

theorem broken_of_head {bytes : List UInt8} (h : bytes.head? ≠ some 13) :
    broken bytes = bytes.reverse := by
  unfold broken
  split
  · exact absurd rfl h
  · rfl

/-- The carriage return of a line break goes with its one byte. -/
theorem broken_bytesOf (cs : List Char) : broken (bytesOf cs).reverse = bytesOf (chomped cs) := by
  rcases List.eq_nil_or_concat cs with rfl | ⟨line, c, rfl⟩
  · rfl
  · rw [List.concat_eq_append, chomped, List.getLast?_concat, List.dropLast_concat]
    split
    · rename_i hc
      cases hc
      have hb : bytesOf (line ++ ['\r']) = bytesOf line ++ [13] := bytesOf_append ..
      rw [hb, List.reverse_append]
      exact List.reverse_reverse _
    · rename_i hc
      rw [broken_of_head, List.reverse_reverse]
      intro hh
      have hb : bytesOf (line ++ [c]) = bytesOf line ++ String.utf8EncodeChar c := by
        rw [bytesOf_append]
        exact congrArg _ (List.append_nil _)
      have hne : String.utf8EncodeChar c ≠ [] := String.utf8EncodeChar_ne_nil
      rw [List.head?_reverse, hb, List.getLast?_append, List.getLast?_eq_some_getLast hne,
        Option.some_or] at hh
      have hm : 13 ∈ String.utf8EncodeChar c := Option.some.inj hh ▸ List.getLast_mem hne
      exact hc (congrArg some (eq_of_mem_encode hm (by decide) rfl))

theorem linesFrom_append {bytes : List UInt8} (h : 10 ∉ bytes) (line rest : List UInt8) :
    linesFrom line (bytes ++ rest) = linesFrom (bytes.reverse ++ line) rest := by
  induction bytes generalizing line with
  | nil => rfl
  | cons b bytes ih =>
    obtain ⟨hb, hbs⟩ := not_or.mp (mt List.mem_cons.mpr h)
    rw [List.cons_append, linesFrom, if_neg (Ne.symm hb), ih hbs, List.reverse_cons,
      List.append_assoc]
    rfl

/-- The lines of the bytes are the bytes of the lines. -/
theorem lines_bytesOf (cs : List Char) : lines (bytesOf cs) = (linesOf cs).map bytesOf := by
  induction cs using line_induction with
  | nil => rfl
  | last cs h hne =>
    have hl := linesFrom_append (newline_not_mem h) [] []
    rw [List.append_nil, List.append_nil] at hl
    have hb : (bytesOf cs).reverse.isEmpty = false := by simpa using bytesOf_ne_nil hne
    rw [linesOf_last h hne, lines, hl, linesFrom, hb, List.reverse_reverse]
    rfl
  | more cs rest h ih =>
    have hb : bytesOf ('\n' :: rest) = 10 :: bytesOf rest := rfl
    rw [linesOf_append h, bytesOf_append, hb, lines, linesFrom_append (newline_not_mem h), linesFrom,
      if_pos rfl, List.append_nil, broken_bytesOf, List.map_cons, ← ih, lines]

theorem lines_toUTF8 (s : String) :
    lines s.toUTF8.data.toList = (textLines s).map fun line => line.toUTF8.data.toList := by
  rw [toUTF8_toList, lines_bytesOf, textLines, List.map_map]
  refine List.map_congr_left fun cs _ => ?_
  rw [Function.comp_apply, toUTF8_toList, String.toList_ofList]

/-! ## What is written -/

/-- The text of answers, each on a line of its own. -/
def written (output : List String) : String :=
  String.ofList (output.flatMap fun answer => answer.toList ++ ['\n'])

/-- Answers without control characters are the lines of what is written. -/
theorem textLines_written {output : List String}
    (h : ∀ answer ∈ output, ∀ c ∈ answer.toList, ' ' ≤ c) : textLines (written output) = output := by
  rw [textLines, written, String.toList_ofList]
  induction output with
  | nil => rfl
  | cons answer output ih =>
    obtain ⟨ha, ho⟩ := List.forall_mem_cons.mp h
    have hn : '\n' ∉ answer.toList := fun hm => absurd (ha _ hm) (by decide)
    have hr : chomped answer.toList = answer.toList := by
      refine if_neg fun hl => absurd (ha _ (List.mem_of_getLast? hl)) (by decide)
    rw [List.flatMap_cons, List.append_assoc, List.singleton_append, linesOf_append hn, hr,
      List.map_cons, ih ho, String.ofList_toList]

end Haptics.Daemon
