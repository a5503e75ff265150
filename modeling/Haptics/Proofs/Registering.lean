import Mathlib.Data.List.Basic
import Haptics.Proofs.Framing
import Haptics.Proofs.Replies

/-! What a list of entries registers. The last usable entry of a name counts, whatever stands before,
after or between the entries of that name; and a catalog is no more than what is found in it, in the
order of the names. -/

namespace Haptics

/-! ## The order of bytes -/

namespace Daemon

/-- The first bytes decide, unless they are equal. -/
theorem ofNat_cons_lt {a b : Nat} {xs ys : List UInt8} (hb : b < 256) (hle : a ≤ b)
    (h : a = b → xs < ys) : UInt8.ofNat a :: xs < UInt8.ofNat b :: ys := by
  by_cases he : a = b
  · subst he
    exact .cons (h rfl)
  · have hlt : UInt8.ofNat a < UInt8.ofNat b := by
      rw [UInt8.lt_iff_toNat_lt, UInt8.toNat_ofNat', UInt8.toNat_ofNat']
      omega
    exact .rel hlt

/-- The bytes of a smaller character come first, whatever follows. -/
theorem encode_lt {c d : Char} (h : c < d) (cs ds : List UInt8) :
    String.utf8EncodeChar c ++ cs < String.utf8EncodeChar d ++ ds := by
  have hn : c.val.toNat < d.val.toNat := h
  have hd : d.val.toNat < 0x110000 := by
    rcases d.valid with h | h
    · exact Nat.lt_trans h (by decide)
    · exact h.2
  unfold String.utf8EncodeChar
  simp only
  generalize c.val.toNat = n at hn ⊢
  generalize d.val.toNat = m at hn hd ⊢
  split_ifs
  -- the smaller character does not have more bytes
  all_goals try omega
  all_goals simp only [List.cons_append, List.nil_append]
  -- As long as all bytes were equal the next one is not greater, and the last one is smaller.
  all_goals
    repeat first
      | exact ofNat_cons_lt (by omega) (by omega) fun _ => by omega
      | refine ofNat_cons_lt (by omega) (by omega) fun _ => ?_

theorem bytesOf_lt {cs ds : List Char} (h : cs < ds) : bytesOf cs < bytesOf ds := by
  have hl : List.Lex (· < ·) cs ds := h
  clear h
  induction hl with
  | @nil d ds =>
    obtain ⟨b, bs, hb⟩ := List.exists_cons_of_ne_nil (bytesOf_ne_nil (List.cons_ne_nil d ds))
    rw [hb]
    exact .nil
  | rel h => exact encode_lt h _ _
  | cons _ ih => exact .append_left _ ih _

/-- Strings have the order of their bytes. -/
theorem toUTF8_lt {s t : String} (h : s < t) : s.toUTF8.data.toList < t.toUTF8.data.toList := by
  rw [toUTF8_toList, toUTF8_toList]
  exact bytesOf_lt (String.lt_iff_toList_lt.mp h)

end Daemon

/-! ## Looking up -/

theorem Effect.usable_iff {e : Effect} : e.usable = true ↔ e.id ≠ "" ∧ 0 < e.durationMs := by
  simp [usable, UInt64.pos_iff_ne_zero]

namespace Catalog
variable {c c' : Catalog} {e : Effect}

theorem find?_place (e : Effect) (xs : List Effect) (id : String) :
    (place e xs).find? (fun x => x.id == id) =
      if e.id = id then some e else xs.find? fun x => x.id == id := by
  induction xs with
  | nil => by_cases h : e.id = id <;> simp [place, h]
  | cons x xs ih =>
    unfold place
    split
    · by_cases h : e.id = id <;> simp [h]
    · split
      · rename_i heq
        by_cases h : e.id = id <;> simp [h, ← heq]
      · rename_i hne
        by_cases h : x.id = id
        · simp [h, h ▸ hne]
        · simp [h, ih]

theorem find?_insert (c : Catalog) (e : Effect) (id : String) :
    (c.insert e).find? id = if e.usable = true ∧ e.id = id then some e else c.find? id := by
  unfold insert
  by_cases hu : e.usable = true
  · rw [if_pos hu, find?, find?_place]
    simp only [hu, true_and]
    rfl
  · simp [hu]

/-- The last usable entry of a name is the one that is found. -/
theorem find?_ofList_eq (es : List Effect) (id : String) :
    (ofList es).find? id = (es.filter fun e => e.usable = true ∧ e.id = id).getLast? := by
  induction es using List.reverseRecOn with
  | nil => rfl
  | append_singleton es e ih =>
    have hsnoc : ofList (es ++ [e]) = (ofList es).insert e := List.foldl_concat ..
    rw [hsnoc, find?_insert, ih, List.filter_append, List.getLast?_append]
    by_cases h : e.usable = true ∧ e.id = id <;> simp [h]

/-! ## What a catalog is -/

/-- In a catalog in order every effect is found under its name. -/
theorem mem_entries_iff (hs : c.ids.Pairwise (· < ·)) :
    e ∈ c.entries ↔ c.find? e.id = some e := by
  refine ⟨fun hm => ?_, fun h => List.mem_of_find?_eq_some h⟩
  obtain ⟨before, after, hc⟩ := List.append_of_mem hm
  rw [ids, hc, List.map_append, List.map_cons, List.pairwise_append] at hs
  rw [find?, hc, List.find?_append, List.find?_cons_of_pos (by simp), Option.or_eq_some_iff]
  refine .inr ⟨List.find?_eq_none.mpr fun x hx => ?_, rfl⟩
  have hlt : x.id < e.id := hs.2.2 _ (List.mem_map_of_mem hx) _ List.mem_cons_self
  simpa using hlt.ne

/-- Catalogs in which the same is found are the same. -/
theorem eq_of_find?_eq (hs : c.ids.Pairwise (· < ·)) (hs' : c'.ids.Pairwise (· < ·))
    (h : ∀ id, c.find? id = c'.find? id) : c = c' := by
  have hsorted := List.pairwise_map.mp hs
  have hsorted' := List.pairwise_map.mp hs'
  have hmem (e : Effect) : e ∈ c.entries ↔ e ∈ c'.entries := by
    rw [mem_entries_iff hs, mem_entries_iff hs', h]
  have hperm : c.entries.Perm c'.entries :=
    (List.perm_ext_iff_of_nodup (hsorted.imp fun hlt heq => hlt.ne (congrArg _ heq))
      (hsorted'.imp fun hlt heq => hlt.ne (congrArg _ heq))).mpr hmem
  have heq : c.entries = c'.entries :=
    hperm.eq_of_pairwise (fun x y _ _ hxy hyx => absurd hxy hyx.asymm) hsorted hsorted'
  cases c
  cases c'
  exact congrArg mk heq

/-- Only the order among entries of one name counts. -/
theorem ofList_congr {es es' : List Effect}
    (h : ∀ id, es.filter (fun e => e.id = id) = es'.filter fun e => e.id = id) :
    ofList es = ofList es' := by
  refine eq_of_find?_eq (ids_sorted es) (ids_sorted es') fun id => ?_
  have hsplit (es : List Effect) : (es.filter fun e => e.usable = true ∧ e.id = id) =
      (es.filter fun e => e.id = id).filter Effect.usable := by
    rw [List.filter_filter]
    exact List.filter_congr fun e _ => by simp
  rw [find?_ofList_eq, find?_ofList_eq, hsplit, hsplit, h]

/-- **What a list registers.** Under a name there is the last of its entries that have a name and last
some time, or nothing if there is none: an entry that is not usable neither counts nor takes anything
away. The names come in the order of their bytes, each once; they are those under which something is
found, which is also what it means to be supported, and as many as the catalog counts. What is stored
stands under its own name. And only the order among entries of one name counts. -/
theorem registered_by_list (es : List Effect) :
    let c := ofList es
    (∀ id, c.find? id =
      (es.filter fun e => e.id ≠ "" ∧ 0 < e.durationMs ∧ e.id = id).getLast?) ∧
    (c.ids.Pairwise fun s t => s.toUTF8.data.toList < t.toUTF8.data.toList) ∧
    (∀ id, (id ∈ c.ids ↔ (c.find? id).isSome = true) ∧ (id ∈ c.ids ↔ c.contains id = true)) ∧
    c.size = c.ids.length ∧
    (∀ e, e ∈ c.entries ↔ c.find? e.id = some e) ∧
    (∀ id e, c.find? id = some e → e.id = id) ∧
    ∀ es' : List Effect, (∀ id, es'.filter (fun e => e.id = id) = es.filter fun e => e.id = id) →
      ofList es' = c := by
  intro c
  have hsorted : c.ids.Pairwise (· < ·) := ids_sorted es
  refine ⟨fun id => ?_, hsorted.imp Daemon.toUTF8_lt, fun id => ?_, List.length_map _ |>.symm,
    fun e => mem_entries_iff hsorted, fun id e h => (find?_ofList h).1, fun es' h => ofList_congr h⟩
  · rw [find?_ofList_eq]
    exact congrArg List.getLast? (List.filter_congr fun e _ => by
      simp only [Effect.usable_iff, and_assoc])
  · exact ⟨(c.contains_iff id).symm, (c.contains_iff id).symm⟩

/-- A name twice, once more without a length, none at all, and characters of two, three and four bytes.
The entries of different names change places. -/
theorem registered_by_list_sample :
    let es : List Effect := [⟨"😀", 3⟩, ⟨"é", 4⟩, ⟨"", 9⟩, ⟨"z", 1⟩, ⟨"é", 5⟩, ⟨"\uffff", 7⟩, ⟨"é", 0⟩]
    let es' : List Effect := [⟨"é", 4⟩, ⟨"é", 5⟩, ⟨"é", 0⟩, ⟨"z", 1⟩, ⟨"😀", 3⟩, ⟨"\uffff", 7⟩, ⟨"", 9⟩]
    (∀ id, es'.filter (fun e => e.id = id) = es.filter fun e => e.id = id) ∧
      ofList es' = ofList es ∧ (ofList es').find? "é" = some ⟨"é", 5⟩ ∧
      (ofList es').ids = ["z", "é", "\uffff", "😀"] := by
  intro es es'
  have hsame : ∀ id, es'.filter (fun e => e.id = id) = es.filter fun e => e.id = id := by
    intro id
    by_cases hid : id ∈ es.map Effect.id
    · have hall : ∀ id ∈ es.map Effect.id,
          es'.filter (fun e => e.id = id) = es.filter fun e => e.id = id := by decide
      exact hall id hid
    · have hnone (es : List Effect) (h : id ∉ es.map Effect.id) :
          (es.filter fun e => e.id = id) = [] := by
        refine List.filter_eq_nil_iff.mpr fun e hm => ?_
        simpa using fun he => h (List.mem_map.mpr ⟨e, hm, he⟩)
      have hnames : ∀ name ∈ es'.map Effect.id, name ∈ es.map Effect.id := by decide
      rw [hnone es hid, hnone es' (mt (hnames id) hid)]
  obtain ⟨hlast, -, -, -, -, -, horder⟩ := registered_by_list es
  have heq := horder es' hsame
  refine ⟨hsame, heq, ?_, by decide⟩
  rw [heq, hlast]
  decide

end Catalog

end Haptics
