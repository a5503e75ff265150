import Haptics.Proofs.Clock
import Haptics.Proofs.Framing
import Haptics.Proofs.Moves
import Haptics.Proofs.Reading
import Haptics.Proofs.Replies

/-! The service as a whole. Every line of its input that is not blank is answered by one line of its
output, which says what the controller replied to it. -/

namespace Haptics

/-! ## Waiting in steps -/

namespace Controller

theorem wait_wait (c : Controller) (a b : Nat) : (c.wait a).wait b = c.wait (a + b) := by
  cases hs : c.slot with
  | free | spent =>
    have hn : c.slot.playing? = none := by rw [hs]; rfl
    rw [wait_of_not_playing hn, wait_of_not_playing hn,
      wait_of_not_playing (c := { c with now := c.now + a }) hn, Nat.add_assoc]
  | playing p =>
    have hpace := p.run_pace (c.now + a) p.due c.device p.left
    have hgo (q : Playback) := hpace.playing (q := q)
    have hsame (q : Playback) := hpace.course.playing (q := q)
    have hsettled := hpace.settled
    -- A session that plays on has come as far as it would have in one go, and one that has ended
    -- ends where it does in one go.
    have hle : c.now + a ≤ c.now + (a + b) := by omega
    rw [wait_of_playing hs, wait_of_playing hs]
    unfold Playback.advance
    generalize p.run (c.now + a) p.due c.device p.left = r at hgo hsame hsettled
    obtain ⟨progress, d⟩ := r
    cases progress with
    | playing q =>
      obtain ⟨-, -, hu⟩ := hgo q rfl
      rw [settle, hu _ hle, ← (hsame q rfl).1, wait_of_playing rfl, Nat.add_assoc]
      dsimp only
      rcases q.advance (c.now + (a + b)) d with ⟨_ | _ | _, d'⟩ <;> rfl
    | crashed =>
      rw [hsettled (fun q => nofun) _ hle, settle, settle, wait_of_not_playing rfl, ← Nat.add_assoc]
    | ended =>
      rw [hsettled (fun q => nofun) _ hle, settle, settle, wait_of_not_playing rfl, ← Nat.add_assoc]
      rfl

end Controller

theorem Mailbox.wait_wait (m : Mailbox) (a b : Nat) : (m.wait a).wait b = m.wait (a + b) :=
  congrArg (fun controller => { m with controller }) (m.controller.wait_wait a b)

/-! ## Replies as text -/

namespace Line

/-- Every reply to a line can be read back, whatever the effects are called. -/
theorem answer_plain (m : Mailbox) (text : String) : (answer m text).1.Plain := by
  intro j hr
  have h := answer_answered m text
  have hj := (Operation.result?_iff m (asked text) j).mp ((h.result_iff j).mp hr)
  rcases hj with ⟨id, -, rfl⟩ | ⟨-, rfl⟩
  · exact ⟨⟨rfl, rfl, Nat.zero_le _⟩, rfl⟩
  · exact ⟨Json.fits_strs m.effects 125, rfl⟩

end Line

namespace Daemon

open Line

/-! ## Serving -/

/-- The lines that are answered, each with the time since the one that was answered before it came;
`pause` of that time is over already. -/
def requests (pause : Nat) : List (Nat × String) → List (Nat × String)
  | [] => []
  | (delay, line) :: rest =>
    if isBlank line then requests (pause + delay) rest
    else (pause + delay, line) :: requests 0 rest

/-- The replies of a controller to lines that it is given one after the other, each so long after the
one before. -/
def replies (m : Mailbox) : List (Nat × String) → List Reply
  | [] => []
  | (delay, line) :: rest =>
    let (reply, m) := answer (m.wait delay) line
    reply :: replies m rest

theorem requests_lines (pause : Nat) (arrivals : List (Nat × String)) :
    (requests pause arrivals).map Prod.snd =
      (arrivals.map Prod.snd).filter fun line => !isBlank line := by
  induction arrivals generalizing pause with
  | nil => rfl
  | cons a rest ih =>
    obtain ⟨delay, line⟩ := a
    cases hb : isBlank line <;> simp [requests, hb, ih]

theorem replies_length (m : Mailbox) (requests : List (Nat × String)) :
    (replies m requests).length = requests.length := by
  induction requests generalizing m with
  | nil => rfl
  | cons r rest ih => exact congrArg (· + 1) (ih _)

theorem replies_plain (m : Mailbox) (requests : List (Nat × String)) :
    ∀ r ∈ replies m requests, r.Plain := by
  induction requests generalizing m with
  | nil => nofun
  | cons r rest ih => exact List.forall_mem_cons.mpr ⟨answer_plain _ r.2, ih _⟩

/-- The bytes of a line, as they come in. -/
def arrival (a : Nat × String) : Nat × List UInt8 := (a.1, a.2.toUTF8.data.toList)

/-- Blank lines let time pass, and nothing else. -/
theorem serve_arrivals {m₀ m : Mailbox} {pause : Nat} (arrivals : List (Nat × String))
    (h : ∀ delay, m₀.wait delay = m.wait (pause + delay)) :
    serve m₀ (arrivals.map arrival) =
      ((replies m (requests pause arrivals)).map Wire.text, success) := by
  induction arrivals generalizing m₀ m pause with
  | nil => rfl
  | cons a rest ih =>
    obtain ⟨delay, line⟩ := a
    rw [List.map_cons, arrival, serve, fromUTF8?_toUTF8]
    simp only [respond, requests]
    cases hb : isBlank line with
    | true =>
      refine ih fun later => ?_
      rw [m₀.wait_wait, h, Nat.add_assoc]
    | false =>
      let m' := (answer (m.wait (pause + delay)) line).2
      have hi : serve m' (rest.map arrival) =
          ((replies m' (requests 0 rest)).map Wire.text, success) :=
        ih fun later => by rw [Nat.zero_add]
      rw [h]
      simp only [Bool.false_eq_true, ↓reduceIte, replies, List.map_cons]
      rw [hi]

theorem start_of_load {c : Config} {m : Mailbox} {spot spot' : Config.Spot} (hm : c.open? = .ok m)
    (h : Config.loadOrCreate spot = (.ok c, spot')) : start spot = (.ok m, spot') := by
  simp only [start, h, hm]
  rfl

theorem zip_of_zero {α : Type} {delays : List Nat} {lines : List α} (hz : ∀ delay ∈ delays, delay = 0)
    (hl : delays.length = lines.length) : delays.zip lines = lines.map fun line => (0, line) := by
  induction delays generalizing lines with
  | nil => rw [List.eq_nil_of_length_eq_zero hl.symm]; rfl
  | cons delay delays ih =>
    obtain ⟨rfl, hzs⟩ := List.forall_mem_cons.mp hz
    obtain ⟨line, lines, rfl⟩ := List.exists_cons_of_length_eq_add_one hl.symm
    rw [List.zip_cons_cons, ih hzs (Nat.succ.inj hl)]
    rfl

/-- **One line for every line.** Whatever configuration a controller comes up with, and whatever the
text is that the service is given, line by line with some delay before each: it answers each line
that is not blank with one line, in order, and writes nothing else. Its answers have no line breaks
and no other control characters. Each is read back as the reply of the one controller to the line
that it answers, and it ends well; so it does where the whole text is there at once. -/
theorem served_line_by_line (c : Config) (m : Mailbox) (hm : c.open? = .ok m) (text : String)
    (delays : List Nat) (hd : delays.length = (textLines text).length) :
    let bytes := text.toUTF8.data.toList
    let asked := requests 0 (delays.zip (textLines text))
    let output := (serve m (delays.zip (lines bytes))).1
    (serve m (delays.zip (lines bytes))).2 = success ∧
    asked.map Prod.snd = ((textLines text).filter fun line => !isBlank line) ∧
    output.length = asked.length ∧
    textLines (written output) = output ∧
    (∀ answer ∈ output, ∀ ch ∈ answer.toList, ' ' ≤ ch) ∧
    output.map (Wire.ofText? Reply) = (replies m asked).map some ∧
    ∀ spot spot', Config.loadOrCreate spot = (.ok c, spot') → (∀ delay ∈ delays, delay = 0) →
      run spot bytes = ⟨output, success, spot'⟩ := by
  intro bytes asked output
  have hl : delays.zip (lines bytes) = (delays.zip (textLines text)).map arrival := by
    rw [lines_toUTF8, List.zip_map_right]
    rfl
  have hs : serve m (delays.zip (lines bytes)) = ((replies m asked).map Wire.text, success) := by
    rw [hl]
    exact serve_arrivals _ fun delay => by rw [Nat.zero_add]
  have ho : output = (replies m asked).map Wire.text := congrArg Prod.fst hs
  have hp : ∀ answer ∈ output, ∀ ch ∈ answer.toList, ' ' ≤ ch := by
    rw [ho]
    intro answer ha
    obtain ⟨r, hr, rfl⟩ := List.mem_map.mp ha
    exact Json.text_printable (replies_plain m asked r hr).encode_whole
  refine ⟨congrArg Prod.snd hs, ?_, ?_, textLines_written hp, hp, ?_, fun spot spot' hc hz => ?_⟩
  · rw [requests_lines, List.map_snd_zip hd.ge]
  · rw [ho, List.length_map, replies_length]
  · rw [ho, List.map_map]
    exact List.map_congr_left fun r hr => (replies_plain m asked r hr).ofText?_text
  · have hn : delays.length = (lines bytes).length := by rw [hd, lines_toUTF8, List.length_map]
    simp only [run, start_of_load hm hc, ← zip_of_zero hz hn, hs, ho]

/-- Three lines, the second of which is blank; the first asks for all effects and the last is no
message. -/
theorem served_line_by_line_sample :
    let c : Config := { effects := [⟨"a\n\"", 7⟩] }
    let m : Mailbox :=
      { controller :=
        { settings := c.settings, catalog := c.catalog, policy := c.arbitration.policy,
          device := { motor := {} } } }
    let text := "[1,\"supportedEffects\"]\n \r\nx"
    let output := (serve m ([0, 5, 0].zip (lines text.toUTF8.data.toList))).1
    c.open? = .ok m ∧ [0, 5, 0].length = (textLines text).length ∧ output.length = 2 ∧
      textLines (written output) = output := by
  intro c m text output
  have hm : c.open? = .ok m := rfl
  have hd : [0, 5, 0].length = (textLines text).length := by decide +kernel
  obtain ⟨-, -, hlength, hwritten, -⟩ := served_line_by_line c m hm text [0, 5, 0] hd
  have hn : (requests 0 ([0, 5, 0].zip (textLines text))).length = 2 := by decide +kernel
  exact ⟨hm, hd, hlength.trans hn, hwritten⟩

end Daemon

end Haptics
