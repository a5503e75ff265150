import Mathlib.Data.List.Induction
import Haptics.Daemon
import Haptics.Proofs.Framing
import Haptics.Proofs.Keys
import Haptics.Proofs.Saving

/-! What happens to the file of a configuration over time. It may be saved to, loaded and served from,
in any order and as often as one likes. A file that is there is only ever changed by a save that
succeeds (`after_file`), so that what is loaded is what was saved last (`loads_last_written`). Loads,
services and saves that fail have no influence on what the next load finds (`loadOrCreate_after`). -/

namespace Haptics

theorem Daemon.run_spot (spot : Config.Spot) (input : List UInt8) :
    (run spot input).spot = (Config.loadOrCreate spot).2 := by
  have hstart : (start spot).2 = (Config.loadOrCreate spot).2 := by
    unfold start
    rcases Config.loadOrCreate spot with ⟨_ | _, spot'⟩ <;> rfl
  rw [← hstart]
  unfold run
  rcases start spot with ⟨_ | _, spot'⟩ <;> rfl

namespace Config

/-! ## Accesses -/

/-- What is done with the file of a configuration. -/
inductive Access where
  | save (c : Config)
  | load
  /-- A service is run, which gets this input and ends. -/
  | serve (input : List UInt8)

/-- The text that an access puts into a file that is there. -/
def Access.written? : Access → Option String
  | .save c => c.text?
  | .load | .serve _ => none

/-- What there is after an access. -/
def Spot.access (spot : Spot) : Access → Spot
  | .save c => (c.save spot).2
  | .load => (loadOrCreate spot).2
  | .serve input => (Daemon.run spot input).spot

def Spot.after (spot : Spot) (accesses : List Access) : Spot := accesses.foldl access spot

variable {c : Config} {t : String}

/-! ## Saving -/

theorem save_file (ht : c.text? = some t) (bytes : ByteArray) :
    c.save (.file bytes) = (.ok (), .file t.toUTF8) := by
  simp only [save, ht]

/-- The text is made first: where there is none, nothing is written. -/
theorem save_of_text?_eq_none (ht : c.text? = none) (spot : Spot) : (c.save spot).2 = spot := by
  cases spot <;> simp only [save, ht]

/-- A save that succeeds leaves a file with the text of the configuration. -/
theorem eq_file_of_save {spot : Spot} (h : (c.save spot).1 = .ok ()) :
    ∃ t, c.text? = some t ∧ (c.save spot).2 = .file t.toUTF8 := by
  cases ht : c.text? with
  | none => cases spot <;> simp [save, ht] at h
  | some t =>
    refine ⟨t, rfl, ?_⟩
    cases spot with
    | absent | file bytes => simp only [save, ht]
    | directory | blocked => simp [save, ht] at h

/-- What was written with valid limits is read back. -/
theorem ofText_of_text? (h : c.fault? = none) (ht : c.text? = some t) : ofText t = .ok c := by
  by_cases hc : c.Representable
  · rw [text?_of_representable hc] at ht
    cases ht
    exact ofText_chars h (Int64.le_of_lt (Int64.not_le.mp (limits_of_fault? h).1)) hc
  · rw [text?_of_not_representable hc] at ht
    cases ht

/-! ## Loading -/

theorem load_toUTF8 (text : String) : load (.file text.toUTF8) = (ofText text).mapError .text := by
  have hutf8 : String.fromUTF8? text.toUTF8 = some text := Daemon.fromUTF8?_toUTF8 text
  simp only [load, hutf8]

theorem loadOrCreate_file (bytes : ByteArray) :
    loadOrCreate (.file bytes) = (load (.file bytes), .file bytes) := rfl

/-- A file that holds an accepted text is loaded and left as it is. -/
theorem loadOrCreate_toUTF8 (h : ofText t = .ok c) :
    loadOrCreate (.file t.toUTF8) = (.ok c, .file t.toUTF8) := by
  rw [loadOrCreate_file, load_toUTF8, h]
  rfl

/-- Where there is nothing, the defaults are written and loaded. -/
theorem loadOrCreate_absent : ∃ t, text? {} = some t ∧
    loadOrCreate .absent = (.ok {}, .file t.toUTF8) := by
  have hrepresentable : Representable {} := ⟨by decide, by decide⟩
  have ht := text?_of_representable hrepresentable
  refine ⟨_, ht, ?_⟩
  have hload : loadOrCreate .absent = loadOrCreate (.file (String.ofList (chars {})).toUTF8) := by
    simp only [loadOrCreate, save, ht]
  rw [hload, loadOrCreate_toUTF8 (ofText_of_text? (by decide) ht)]

/-- Loading again gives the same and changes nothing. -/
theorem loadOrCreate_again (spot : Spot) :
    loadOrCreate (loadOrCreate spot).2 = loadOrCreate spot := by
  cases spot with
  | absent =>
    obtain ⟨t, ht, hload⟩ := loadOrCreate_absent
    rw [hload, loadOrCreate_toUTF8 (ofText_of_text? (by decide) ht)]
  | file bytes | directory | blocked => rfl

/-! ## Accesses in a row -/

theorem access_file (bytes : ByteArray) (a : Access) :
    (Spot.file bytes).access a = .file ((a.written?.map String.toUTF8).getD bytes) := by
  cases a with
  | save c =>
    rw [Spot.access, Access.written?]
    cases ht : c.text? with
    | none => exact save_of_text?_eq_none ht (.file bytes)
    | some t => exact congrArg Prod.snd (save_file ht bytes)
  | load => rfl
  | serve input => exact Daemon.run_spot _ input

/-- A file holds what was written to it last. -/
theorem after_file (bytes : ByteArray) (accesses : List Access) :
    (Spot.file bytes).after accesses =
      .file (((accesses.filterMap Access.written?).getLast?.map String.toUTF8).getD bytes) := by
  -- The last access is the one that counts, hence the induction from the end.
  induction accesses using List.reverseRecOn with
  | nil => rfl
  | append_singleton accesses a ih =>
    have hlast : (Spot.file bytes).after (accesses ++ [a]) =
        ((Spot.file bytes).after accesses).access a := by
      rw [Spot.after, List.foldl_append]
      rfl
    rw [hlast, ih, access_file, List.filterMap_append]
    cases hw : a.written? with
    | none => simp [hw]
    | some t => simp [hw]

/-- What is loaded is what was saved last. -/
theorem loads_last_written {accesses : List Access} (h : c.fault? = none) (ht : c.text? = some t)
    (hlast : (accesses.filterMap Access.written?).getLast? = some t) (bytes : ByteArray) :
    loadOrCreate ((Spot.file bytes).after accesses) = (.ok c, .file t.toUTF8) := by
  rw [after_file, hlast]
  exact loadOrCreate_toUTF8 (ofText_of_text? h ht)

/-- An access that writes nothing does not show in the next load, whether there is a file or not. -/
theorem loadOrCreate_access {a : Access} (ha : a.written? = none) (spot : Spot) :
    loadOrCreate (spot.access a) = loadOrCreate spot := by
  cases a with
  | save c => rw [Spot.access, save_of_text?_eq_none ha]
  | load => exact loadOrCreate_again spot
  | serve input => rw [Spot.access, Daemon.run_spot, loadOrCreate_again]

theorem loadOrCreate_after {accesses : List Access} (h : ∀ a ∈ accesses, a.written? = none)
    (spot : Spot) : loadOrCreate (spot.after accesses) = loadOrCreate spot := by
  induction accesses generalizing spot with
  | nil => rfl
  | cons a accesses ih =>
    obtain ⟨ha, hrest⟩ := List.forall_mem_cons.mp h
    exact (ih hrest (spot.access a)).trans (loadOrCreate_access ha spot)

/-- **A file is kept until another configuration is saved.** The accesses may be any number of loads,
services and saves of what cannot be written. A file stays as it is through them, byte for byte, and
is loaded as its text is read, also where that is an error. Where there is none, the first load makes
one with the defaults, and it and all later loads give the defaults. After a save that succeeds, each
load gives what was saved, provided that its limits are valid. A save of what cannot be written fails
and leaves the file. -/
theorem kept_until_saved (accesses : List Access) (hidle : ∀ a ∈ accesses, a.written? = none) :
    (∀ bytes, (Spot.file bytes).after accesses = .file bytes) ∧
    (∀ text : String, loadOrCreate ((Spot.file text.toUTF8).after accesses) =
      ((ofText text).mapError .text, .file text.toUTF8)) ∧
    (∀ bytes, String.fromUTF8? bytes = none →
      loadOrCreate ((Spot.file bytes).after accesses) = (.error .read, .file bytes)) ∧
    (∃ t, text? {} = some t ∧
      loadOrCreate (Spot.absent.after accesses) = (.ok {}, .file t.toUTF8)) ∧
    (∀ (c : Config) spot, c.fault? = none → (c.save spot).1 = .ok () →
      loadOrCreate ((c.save spot).2.after accesses) = (.ok c, (c.save spot).2)) ∧
    ∀ (c : Config) bytes, c.text? = none →
      c.save (.file bytes) = (.error .serialize, .file bytes) := by
  have hnext := loadOrCreate_after hidle
  refine ⟨fun bytes => ?_, fun text => ?_, fun bytes hbytes => ?_, ?_, fun c spot hc hs => ?_,
    fun c bytes ht => ?_⟩
  · have hnothing : accesses.filterMap Access.written? = [] := List.filterMap_eq_nil_iff.mpr hidle
    rw [after_file, hnothing]
    rfl
  · rw [hnext, loadOrCreate_file, load_toUTF8]
  · rw [hnext, loadOrCreate_file]
    simp only [load, hbytes]
  · rw [hnext]
    exact loadOrCreate_absent
  · obtain ⟨t, ht, hfile⟩ := eq_file_of_save hs
    rw [hnext, hfile]
    exact loadOrCreate_toUTF8 (ofText_of_text? hc ht)
  · simp only [save, ht]

/-- Two loads, a service and a save of a duration beyond 63 bits. Before them there is a file with
limits that are refused, one that is no text, none at all, or one that was just saved. -/
theorem kept_until_saved_sample :
    let text := "[limits]\nmax_duration_ms = 0\n"
    let bytes : ByteArray := ⟨#[255]⟩
    let c : Config := { granted := false, effects := [] }
    let d : Config := { effects := [⟨"", 9223372036854775808⟩] }
    let accesses : List Access := [.load, .save d, .serve [10], .load]
    (∀ a ∈ accesses, a.written? = none) ∧ c.fault? = none ∧ (c.save .absent).1 = .ok () ∧
      d.text? = none ∧ String.fromUTF8? bytes = none ∧
      loadOrCreate ((Spot.file text.toUTF8).after accesses) =
        (.error (.text (.invalid (.maxDuration 0))), .file text.toUTF8) ∧
      loadOrCreate ((Spot.file bytes).after accesses) = (.error .read, .file bytes) ∧
      (loadOrCreate (Spot.absent.after accesses)).1 = .ok {} ∧
      (loadOrCreate ((c.save .absent).2.after accesses)).1 = .ok c ∧
      d.save (.file bytes) = (.error .serialize, .file bytes) := by
  intro text bytes c d accesses
  have hidle : ∀ a ∈ accesses, a.written? = none := by decide +kernel
  have hc : c.fault? = none := by decide
  have hs : (c.save .absent).1 = .ok () := by rfl
  have hd : d.text? = none := by decide +kernel
  have hbytes : String.fromUTF8? bytes = none := by decide +kernel
  have htext : ofText text = .error (.invalid (.maxDuration 0)) := by decide +kernel
  obtain ⟨-, hfile, hread, ⟨t, -, habsent⟩, hsaved, hfails⟩ := kept_until_saved accesses hidle
  refine ⟨hidle, hc, hs, hd, hbytes, ?_, hread bytes hbytes, ?_, ?_, hfails d bytes hd⟩
  · rw [hfile, htext]
    rfl
  · rw [habsent]
  · rw [hsaved c .absent hc hs]

end Config

end Haptics
