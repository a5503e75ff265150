import Haptics.Session

/-! What a check vouches for. Every entry of a catalog that was built from a list is usable; so a
session that has passed its check has numbers in their bounds, and plays for some time. -/

namespace Haptics

namespace Catalog
variable {e x : Effect} {es : List Effect}

theorem mem_place {xs : List Effect} (h : x ∈ place e xs) : x = e ∨ x ∈ xs := by
  induction xs with
  | nil => exact .inl (List.mem_singleton.mp h)
  | cons y ys ih =>
    unfold place at h
    split at h
    · exact List.mem_cons.mp h
    · split at h
      · exact (List.mem_cons.mp h).imp_right (List.mem_cons_of_mem y)
      · rcases List.mem_cons.mp h with rfl | h
        · exact .inr List.mem_cons_self
        · exact (ih h).imp_right (List.mem_cons_of_mem y)

theorem usable_insert {c : Catalog} (h : ∀ x ∈ c.entries, x.usable) (e : Effect) :
    ∀ x ∈ (c.insert e).entries, x.usable := by
  unfold insert
  split
  · rename_i he
    intro x hx
    rcases mem_place hx with rfl | hx
    · exact he
    · exact h x hx
  · exact h

theorem usable_ofList (es : List Effect) : ∀ x ∈ (ofList es).entries, x.usable := by
  have hf : ∀ (es : List Effect) (c : Catalog), (∀ x ∈ c.entries, x.usable) →
      ∀ x ∈ (es.foldl insert c).entries, x.usable := by
    intro es
    induction es with
    | nil => exact fun _ h => h
    | cons e es ih => exact fun c h => ih _ (usable_insert h e)
  exact hf es {} (by simp)

/-- What a catalog gives for an id has that id and lasts some time. -/
theorem find?_ofList {id : String} (h : (ofList es).find? id = some e) :
    e.id = id ∧ 0 < e.durationMs := by
  have hu := usable_ofList es e (List.mem_of_find?_eq_some h)
  simp only [Effect.usable, Bool.and_eq_true, decide_eq_true_eq] at hu
  exact ⟨by simpa using List.find?_some h, UInt64.pos_iff_ne_zero.mpr hu.2⟩

end Catalog

theorem Parameter.bounds_of_check {p : Parameter} (h : p.check = .ok ()) :
    (0 ≤ p.intensity ∧ p.intensity ≤ 100) ∧ -100 ≤ p.frequency ∧ p.frequency ≤ 100 := by
  unfold Parameter.check at h
  split at h
  · cases h
  · split at h
    · cases h
    · rename_i hi hf
      simp only [not_or, Int32.not_lt] at hi hf
      exact ⟨hi, hf⟩

/-- A positive number of milliseconds keeps its value when it is taken as unsigned. -/
theorem toNat_toUInt64_of_pos {millis : Int64} (h : 0 < millis) :
    (millis.toUInt64.toNat : Int) = millis.toInt := by
  have hi : 0 < millis.toBitVec.toInt := Int64.lt_iff_toInt_lt.mp h
  have hm : millis.toBitVec.msb = false := by
    rw [BitVec.msb_eq_toInt]
    exact decide_eq_false (by omega)
  exact (BitVec.toInt_eq_toNat_of_msb hm).symm

namespace Session

/-- The two ways in which a session passes its check, with what it is then. -/
inductive Checked (s : Session) (catalog : Catalog) (limit : Int64) : Session → Prop where
  | time {millis : Int64} : s.request = .time millis → 0 < millis → millis ≤ limit →
      Checked s catalog limit s
  | preset {effectId : String} {count : Int32} {effect : Effect} :
      s.request = .preset effectId count → 1 ≤ count → catalog.find? effectId = some effect →
      Checked s catalog limit { s with effect := some effect }

variable {s s' : Session} {catalog : Catalog} {limit : Int64}

theorem check_checked (h : s.check catalog limit = .ok s') :
    s.context.parameter.check = .ok () ∧ s.Checked catalog limit s' := by
  unfold check at h
  split at h
  · cases h
  · rename_i hp
    refine ⟨hp, ?_⟩
    split at h
    · rename_i millis hr
      split at h
      · cases h
      · rename_i hm
        cases h
        simp only [not_or, Int64.not_le, Int64.not_lt] at hm
        exact .time hr hm.1 hm.2
    · rename_i effectId count hr
      split at h
      · cases h
      · split at h
        · cases h
        · rename_i hc
          split at h
          · rename_i effect he
            cases h
            exact .preset hr (Int32.not_lt.mp hc) he
          · cases h

theorem repetitions_pos (h : s.check catalog limit = .ok s') : 0 < s'.repetitions := by
  cases (check_checked h).2 with
  | time hr => simp [repetitions, hr]
  | preset hr hc =>
    have hi := Int32.le_iff_toInt_le.mp hc
    rw [Int32.toInt_one] at hi
    simp only [repetitions, hr]
    omega

/-- A checked session plays for some time. -/
theorem span_pos {es : List Effect} (h : s.check (.ofList es) limit = .ok s') : 0 < s'.span := by
  have hw : 0 < s'.wanted := by
    cases (check_checked h).2 with
    | time hr hm =>
      have ht := toNat_toUInt64_of_pos hm
      have hi := Int64.lt_iff_toInt_lt.mp hm
      simp only [wanted, hr]
      rw [Int64.toInt_zero] at hi
      omega
    | preset hr _ he =>
      simp only [wanted, hr]
      exact UInt64.lt_iff_toNat_lt.mp (Catalog.find?_ofList he).2
  exact Nat.lt_min.mpr ⟨hw, by decide⟩

end Session

end Haptics
