import Mathlib.Data.List.Nodup
import Haptics.Proofs.Calls
import Haptics.Proofs.Chapters

/-! What observers see. The last snapshot always says what the controller does, and as long as every
stop works also what the motor does. The whole history is the idle snapshot and then the chapters of
the sessions 1, 2, 3, ..., one after the other. -/

namespace Haptics

namespace Controller

/-! ## The last snapshot -/

theorem snapshot_eq (c : Controller) : c.snapshot = c.history.getLast?.getD .idle := by
  rw [snapshot, history, List.getLast?_map, ← Array.getLast?_toList]

theorem snapshot_of_history {c : Controller} {l : List Snapshot} {x : Snapshot}
    (h : c.history = l ++ [x]) : c.snapshot = x := by
  rw [snapshot_eq, h]
  simp

namespace Tells
variable {c : Controller} {n : Nat} {closed : List Chapter}

theorem snapshot_of_playing (h : c.Tells n closed) {p : Playback} (hp : c.slot = .playing p) :
    c.snapshot = p.session.snapshot .active := by
  have ht := h.history
  rw [hp, Slot.chapters_playing] at ht
  refine snapshot_of_history (l := .idle :: closed.flatMap Chapter.snapshots) ?_
  rw [ht]
  simp [Chapter.snapshots]

theorem phase_of_not_playing (h : c.Tells n closed) (hp : c.slot.playing? = none) :
    c.snapshot.phase? ≠ some .active := by
  have ht := h.history
  rw [Slot.chapters_of_not_playing hp, List.append_nil] at ht
  rcases List.eq_nil_or_concat closed with rfl | ⟨earlier, ch, rfl⟩
  · rw [snapshot_of_history (l := []) ht]
    nofun
  · have hf := h.ended ch (by simp)
    rw [List.concat_eq_append, List.flatMap_append, List.flatMap_singleton] at ht
    rcases ch with ⟨id, v, _ | _ | how⟩
    · rw [snapshot_of_history (l := .idle :: earlier.flatMap Chapter.snapshots) ht]
      nofun
    · exact absurd rfl hf
    · rw [snapshot_of_history (x := .session id v.request v.usage how.phase)
        (l := .idle :: earlier.flatMap Chapter.snapshots ++ [.session id v.request v.usage .active])
        (by rw [ht]; simp [Chapter.snapshots, Chapter.snapshot])]
      intro hph
      exact how.phase_ne_active (Option.some.inj hph)

theorem active_iff (h : c.Tells n closed) :
    c.snapshot.phase? = some .active ↔ ∃ p, c.slot = .playing p := by
  constructor
  · intro hph
    cases hs : c.slot with
    | playing p => exact ⟨p, rfl⟩
    | free | spent => exact absurd hph (h.phase_of_not_playing (by rw [hs]; rfl))
  · rintro ⟨p, hp⟩
    rw [h.snapshot_of_playing hp]
    rfl

end Tells

end Controller

/-- **The snapshot tells the truth.** In a run without crashes the last snapshot is active exactly
if a session plays, and then it is a snapshot of that session, whose number is the one given out
last. As long as no stop has failed, it is active exactly if the motor runs, in the mode it says. -/
theorem snapshot_truthful (s : Setup) (events : List Event)
    (h : (s.after events).device.Intact) :
    let c := s.after events
    (c.snapshot.phase? = some .active ↔ ∃ p, c.slot = .playing p) ∧
    (∀ p, c.slot = .playing p →
      c.snapshot = .session p.session.id p.session.request p.session.usage .active ∧
      c.snapshot.mode? = some p.session.mode ∧
      p.session.id = .ofNat (s.accepted events) ∧ c.nextId = p.session.id + 1) ∧
    ((∀ e ∈ c.device.log.toList, e.isFailedStop = false) →
      (c.snapshot.phase? = some .active ↔ c.device.motor.engaged.isSome) ∧
      ∀ mode, c.device.motor.engaged = some mode → c.snapshot.mode? = some mode) := by
  intro c
  obtain ⟨closed, ht, -⟩ := s.tells events h
  have ho : c.Orderly := s.orderly events
  refine ⟨ht.active_iff, fun p hp => ?_, fun hn => ?_⟩
  · rw [ht.snapshot_of_playing hp]
    exact ⟨rfl, rfl, ht.id_of_playing hp⟩
  · refine ⟨ht.active_iff.trans ⟨?_, ho.playing_of_engaged hn⟩, ?_⟩
    · rintro ⟨p, hp⟩
      rw [ho.engaged_of_playing hp]
      rfl
    · intro mode he
      obtain ⟨p, hp⟩ := ho.playing_of_engaged hn (by rw [he]; rfl)
      rw [ho.engaged_of_playing hp] at he
      cases he
      rw [ht.snapshot_of_playing hp]
      rfl

theorem snapshot_truthful_sample :
    (Setup.sample.after Setup.sampleEvents).device.Intact ∧
      (Setup.sample.after Setup.sampleEvents).snapshot.phase? = some .active ∧
      (Setup.sample.after Setup.sampleEvents).device.motor.engaged = some .preset ∧
      (Setup.sample.after Setup.sampleEvents).snapshot.mode? = some .preset := by
  have hi : (Setup.sample.after Setup.sampleEvents).device.Intact := by decide
  have he : (Setup.sample.after Setup.sampleEvents).device.motor.engaged = some .preset := by decide
  obtain ⟨-, -, hm⟩ := snapshot_truthful Setup.sample Setup.sampleEvents hi
  obtain ⟨hph, hmode⟩ := hm (by decide)
  exact ⟨hi, hph.mpr (by rw [he]; rfl), he, hmode _ he⟩

/-! ## The grammar of the history -/

/-- The number of the session that a snapshot is about; 0 before the first. -/
def Snapshot.number : Snapshot → Nat
  | .idle => 0
  | .session id _ _ _ => id.toNat

theorem Chapter.of_mem_snapshots {ch : Chapter} {x : Snapshot} (h : x ∈ ch.snapshots) :
    x.number = ch.id.toNat ∧ x.view? = some ch.view := by
  obtain ⟨id, v, _ | _ | how⟩ := ch
  · rw [List.mem_singleton.mp h]
    exact ⟨rfl, rfl⟩
  · rw [List.mem_singleton.mp h]
    exact ⟨rfl, rfl⟩
  · rcases List.mem_cons.mp h with rfl | h
    · exact ⟨rfl, rfl⟩
    · rw [List.mem_singleton.mp h]
      exact ⟨rfl, rfl⟩

section Numbered
variable {chapters : List Chapter} {n : Nat}

theorem pairwise_of_numbered (h : chapters.map (fun ch => ch.id.toNat) = List.range' 1 n) :
    chapters.Pairwise fun a b => a.id.toNat < b.id.toNat := by
  have hp := List.pairwise_lt_range' (s := 1) (n := n)
  rw [← h, List.pairwise_map] at hp
  exact hp

theorem eq_of_number_eq (h : chapters.map (fun ch => ch.id.toNat) = List.range' 1 n)
    {a b : Chapter} (ha : a ∈ chapters) (hb : b ∈ chapters) (hab : a.id.toNat = b.id.toNat) :
    a = b := by
  have hn : (chapters.map fun ch => ch.id.toNat).Nodup := h ▸ List.nodup_range'
  exact List.inj_on_of_nodup_map hn ha hb hab

theorem number_pos_of_numbered (h : chapters.map (fun ch => ch.id.toNat) = List.range' 1 n)
    {x : Snapshot} (hx : x ∈ chapters.flatMap Chapter.snapshots) : 0 < x.number := by
  obtain ⟨ch, hm, hx⟩ := List.mem_flatMap.mp hx
  have hr : ch.id.toNat ∈ List.range' 1 n := h ▸ List.mem_map_of_mem hm
  have hc := List.mem_range'_1.mp hr
  rw [(Chapter.of_mem_snapshots hx).1]
  omega

/-- The snapshots of one session come before those of the next. -/
theorem snapshots_pairwise (h : chapters.map (fun ch => ch.id.toNat) = List.range' 1 n) :
    (Snapshot.idle :: chapters.flatMap Chapter.snapshots).Pairwise fun x y =>
      x.number ≤ y.number := by
  refine List.pairwise_cons.mpr ⟨fun y _ => Nat.zero_le _, List.pairwise_flatMap.mpr ⟨?_, ?_⟩⟩
  · intro ch _
    refine List.pairwise_of_forall_mem_list fun x hx y hy => ?_
    exact Nat.le_of_eq ((Chapter.of_mem_snapshots hx).1.trans (Chapter.of_mem_snapshots hy).1.symm)
  · refine (pairwise_of_numbered h).imp fun hlt x hx y hy => ?_
    rw [(Chapter.of_mem_snapshots hx).1, (Chapter.of_mem_snapshots hy).1]
    exact Nat.le_of_lt hlt

/-- Two snapshots of one session come from one chapter. -/
theorem same_chapter (h : chapters.map (fun ch => ch.id.toNat) = List.range' 1 n) {x y : Snapshot}
    (hx : x ∈ chapters.flatMap Chapter.snapshots) (hy : y ∈ chapters.flatMap Chapter.snapshots)
    (he : x.number = y.number) : ∃ ch ∈ chapters, x ∈ ch.snapshots ∧ y ∈ ch.snapshots := by
  obtain ⟨a, ha, hx⟩ := List.mem_flatMap.mp hx
  obtain ⟨b, hb, hy⟩ := List.mem_flatMap.mp hy
  have hab : a.id.toNat = b.id.toNat := by
    rw [← (Chapter.of_mem_snapshots hx).1, he, (Chapter.of_mem_snapshots hy).1]
  cases eq_of_number_eq h ha hb hab
  exact ⟨a, ha, hx, hy⟩

/-- All snapshots of one session say what it was started for. -/
theorem view_eq_of_number_eq (h : chapters.map (fun ch => ch.id.toNat) = List.range' 1 n)
    {x y : Snapshot} (hx : x ∈ Snapshot.idle :: chapters.flatMap Chapter.snapshots)
    (hy : y ∈ Snapshot.idle :: chapters.flatMap Chapter.snapshots) (he : x.number = y.number) :
    x.view? = y.view? := by
  rcases List.mem_cons.mp hx with rfl | hx <;> rcases List.mem_cons.mp hy with rfl | hy
  · rfl
  · exact absurd he (Nat.ne_of_lt (number_pos_of_numbered h hy))
  · exact absurd he (Nat.ne_of_gt (number_pos_of_numbered h hx))
  · obtain ⟨ch, -, hx, hy⟩ := same_chapter h hx hy he
    rw [(Chapter.of_mem_snapshots hx).2, (Chapter.of_mem_snapshots hy).2]

end Numbered

theorem Controller.Tells.numbered {c : Controller} {n : Nat} {closed : List Chapter}
    (h : c.Tells n closed) (hn : n < UInt64.size - 1) :
    (closed ++ c.slot.chapters .active).map (fun ch => ch.id.toNat) = List.range' 1 n := by
  rw [← Function.comp_def UInt64.toNat Chapter.id, ← List.map_map, h.ids, List.map_map]
  refine (List.map_congr_left fun k hk => ?_).trans (List.map_id _)
  have hr := List.mem_range'_1.mp hk
  exact UInt64.toNat_ofNat_of_lt' (by omega)

/-- Only the last chapter may be open. -/
theorem Controller.Tells.ended_of_dropLast {c : Controller} {n : Nat} {closed : List Chapter}
    (h : c.Tells n closed) {ch : Chapter}
    (hm : ch ∈ (closed ++ c.slot.chapters .active).dropLast) : ch.fate ≠ .active := by
  refine h.ended ch ?_
  cases hs : c.slot with
  | playing p => simpa [hs] using hm
  | free | spent =>
    rw [hs, Slot.chapters_of_not_playing rfl, List.append_nil] at hm
    exact List.dropLast_subset _ hm

/-- **The grammar of the history.** In a run without crashes, and as long as the counter does not
overflow, the history is the idle snapshot and then the chapters of the sessions 1, 2, 3, ..., one
for each accepted start; only the last of them may be open. So snapshots stand in the order of their
sessions, and those of one session agree on what it was started for. -/
theorem history_grammar (s : Setup) (events : List Event) (h : (s.after events).device.Intact)
    (hn : s.accepted events < UInt64.size - 1) :
    let c := s.after events
    ∃ chapters : List Chapter, c.history = .idle :: chapters.flatMap Chapter.snapshots ∧
      chapters.map (fun ch => ch.id.toNat) = List.range' 1 (s.accepted events) ∧
      (∀ ch ∈ chapters.dropLast, ch.fate ≠ .active) ∧
      c.history.Pairwise (fun x y => x.number ≤ y.number) ∧
      ∀ x ∈ c.history, ∀ y ∈ c.history, x.number = y.number →
        x.view? = y.view? ∧ x.mode? = y.view?.map fun v => v.request.mode := by
  intro c
  obtain ⟨closed, ht, -⟩ := s.tells events h
  have hh : c.history = _ := ht.history
  have hnum := ht.numbered hn
  refine ⟨closed ++ c.slot.chapters .active, hh, hnum, fun ch hm => ht.ended_of_dropLast hm, ?_, ?_⟩
  · rw [hh]
    exact snapshots_pairwise hnum
  · rw [hh]
    intro x hx y hy he
    have hv := view_eq_of_number_eq hnum hx hy he
    exact ⟨hv, by rw [Snapshot.mode?, hv]⟩

theorem history_grammar_sample :
    (Setup.sample.after Setup.sampleEvents).device.Intact ∧
      Setup.sample.accepted Setup.sampleEvents < UInt64.size - 1 ∧
      ∃ chapters : List Chapter, (Setup.sample.after Setup.sampleEvents).history =
          .idle :: chapters.flatMap Chapter.snapshots ∧
        chapters.map (fun ch => ch.id.toNat) = [1, 2] := by
  have hi : (Setup.sample.after Setup.sampleEvents).device.Intact := by decide
  have hn : Setup.sample.accepted Setup.sampleEvents = 2 := by decide
  have hlt : Setup.sample.accepted Setup.sampleEvents < UInt64.size - 1 := by rw [hn]; decide
  obtain ⟨chapters, hh, hnum, -⟩ := history_grammar Setup.sample Setup.sampleEvents hi hlt
  rw [hn] at hnum
  exact ⟨hi, hlt, chapters, hh, hnum⟩

end Haptics
