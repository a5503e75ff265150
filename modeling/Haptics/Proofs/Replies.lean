import Mathlib.Data.String.Basic
import Haptics.Proofs.Checked
import Haptics.Proofs.Run

/-! What a line is answered with. A line is either no message, or a message that asks for nothing
that can be done, or a question about the effects, or a command; and its reply says which. -/

namespace Haptics

/-! ## The effects of a catalog -/

namespace Catalog

theorem place_sorted {xs : List Effect} (h : xs.Pairwise fun x y => x.id < y.id) (e : Effect) :
    (place e xs).Pairwise fun x y => x.id < y.id := by
  induction xs with
  | nil => exact List.pairwise_singleton ..
  | cons y ys ih =>
    obtain ⟨hy, hys⟩ := List.pairwise_cons.mp h
    unfold place
    split
    · rename_i hlt
      refine List.pairwise_cons.mpr ⟨fun x hx => ?_, h⟩
      rcases List.mem_cons.mp hx with rfl | hx
      · exact hlt
      · exact hlt.trans (hy x hx)
    · split
      · rename_i heq
        exact List.pairwise_cons.mpr ⟨fun x hx => heq ▸ hy x hx, hys⟩
      · rename_i hlt heq
        refine List.pairwise_cons.mpr ⟨fun x hx => ?_, ih hys⟩
        rcases mem_place hx with rfl | hx
        · exact lt_of_le_of_ne (not_lt.mp hlt) (Ne.symm heq)
        · exact hy x hx

theorem insert_sorted {c : Catalog} (h : c.ids.Pairwise (· < ·)) (e : Effect) :
    (c.insert e).ids.Pairwise (· < ·) := by
  unfold insert
  split
  · exact List.pairwise_map.mpr (place_sorted (List.pairwise_map.mp h) e)
  · exact h

/-- The ids of a catalog that was built from a list come in order, each once. -/
theorem ids_sorted (es : List Effect) : (ofList es).ids.Pairwise (· < ·) := by
  have hf : ∀ (es : List Effect) (c : Catalog), c.ids.Pairwise (· < ·) →
      (es.foldl insert c).ids.Pairwise (· < ·) := by
    intro es
    induction es with
    | nil => exact fun _ h => h
    | cons e es ih => exact fun c h => ih _ (insert_sorted h e)
  exact hf es {} .nil

theorem contains_iff (c : Catalog) (id : String) : c.contains id = true ↔ id ∈ c.ids := by
  simp [contains, find?, ids]

end Catalog

namespace Line

/-! ## Faults -/

/-- The kind that a fault is reported as. -/
def Fault.kind : Fault → Kind
  | .malformed | .unknownOperation _ => .invalidParameter
  | .refused why => why.kind

theorem Fault.shape_eq (fault : Fault) : fault.shape = fault.kind.shape := by
  cases fault <;> rfl

theorem kind_shape_mem (kind : Kind) :
    kind.shape ∈ [(⟨401, "The parameter invalid."⟩ : Shape), ⟨201, "Permission denied."⟩,
      ⟨14600101, "Device operation failed."⟩] := by
  cases kind <;> simp [Kind.shape, Kind.code, Kind.message]

/-- What an operation can be called. -/
def Operation.names : List String :=
  ["vibrate", "startVibration", "stop", "stopVibration", "isSupportEffect", "supportedEffects"]

theorem Operation.ofMessage_of_unknown {message : Message} (h : message.op ∉ names) :
    ofMessage message = .error (.unknownOperation message.op) := by
  unfold ofMessage
  split <;> simp_all [names]

/-! ## The ways to be answered -/

/-- What a line asks for. -/
def asked (text : String) : Except Fault Operation :=
  match Wire.ofText? Message text with
  | none => .error .malformed
  | some message => Operation.ofMessage message

/-- What a question is answered with. -/
def Operation.result? (m : Mailbox) : Operation → Option Json
  | .isSupportEffect effectId => some (.bool (m.supports effectId))
  | .supportedEffects => some (.arr (m.effects.map .str))
  | _ => none

/-- Every line is answered in one of these ways. -/
inductive Answered (m : Mailbox) (text : String) (id : Option UInt64) : Reply × Mailbox → Prop where
  | unfit {fault : Fault} : asked text = .error fault →
      Answered m text id (.failure id fault.kind.shape, m)
  | question {operation : Operation} {j : Json} : asked text = .ok operation →
      operation.result? m = some j → operation.command? = none →
      Answered m text id (.success id (some j), m)
  | done {operation : Operation} {command : Command} : asked text = .ok operation →
      operation.command? = some command → operation.result? m = none →
      (m.call (.ok command)).1 = .ok () →
      Answered m text id (.success id none, (m.call (.ok command)).2)
  | refused {operation : Operation} {command : Command} {why : Refusal} :
      asked text = .ok operation → operation.command? = some command → operation.result? m = none →
      (m.call (.ok command)).1 = .error why →
      Answered m text id (.failure id why.kind.shape, (m.call (.ok command)).2)

theorem execute_of_result {m : Mailbox} {operation : Operation} {j : Json}
    (h : operation.result? m = some j) : execute m operation = (.ok (some j), m) := by
  cases operation <;> cases h <;> rfl

theorem execute_of_command {m : Mailbox} {operation : Operation} {command : Command}
    (h : operation.command? = some command) :
    execute m operation =
      ((m.call (.ok command)).1.map fun _ => none, (m.call (.ok command)).2) := by
  cases operation <;> cases h <;> rfl

/-- An operation is either a question or a command. -/
theorem Operation.question_or_command (m : Mailbox) (operation : Operation) :
    (∃ j, operation.result? m = some j ∧ operation.command? = none) ∨
      ∃ command, operation.command? = some command ∧ operation.result? m = none := by
  cases operation with
  | vibrate | startVibration | stop => exact .inr ⟨_, rfl, rfl⟩
  | isSupportEffect | supportedEffects => exact .inl ⟨_, rfl, rfl⟩

theorem answer_answered (m : Mailbox) (text : String) :
    Answered m text ((Wire.ofText? Message text).bind Message.id) (answer m text) := by
  have hp : parse text = ((Wire.ofText? Message text).bind Message.id, asked text) := by
    unfold parse asked
    cases Wire.ofText? Message text <;> rfl
  rw [answer, hp]
  cases ha : asked text with
  | error fault =>
    simp only [fault.shape_eq]
    exact .unfit ha
  | ok operation =>
    simp only
    rcases operation.question_or_command m with ⟨j, hj, hc⟩ | ⟨command, hc, hj⟩
    · rw [execute_of_result hj]
      exact .question ha hj hc
    · rw [execute_of_command hc]
      cases hr : (m.call (.ok command)).1 with
      | ok => exact .done ha hc hj hr
      | error why => exact .refused ha hc hj hr

namespace Answered
variable {m : Mailbox} {text : String} {id : Option UInt64} {r : Reply × Mailbox}

theorem reply_id (h : Answered m text id r) : r.1.id = id := by
  cases h <;> rfl

theorem ok_iff (h : Answered m text id r) : r.1.ok = true ↔ r.1.error = none := by
  cases h <;> simp [Reply.success, Reply.failure]

theorem result_iff (h : Answered m text id r) (j : Json) :
    r.1.result = some j ↔ ∃ operation, asked text = .ok operation ∧ operation.result? m = some j := by
  cases h with
  | unfit ha => simp [Reply.failure, ha]
  | question ha hj => simp [Reply.success, ha, hj]
  | done ha _ hj => simp [Reply.success, ha, hj]
  | refused ha _ hj => simp [Reply.failure, ha, hj]

theorem ok_of_result (h : Answered m text id r) (hr : r.1.result ≠ none) : r.1.ok = true := by
  cases h with
  | unfit | refused => exact absurd rfl hr
  | question | done => rfl

theorem error_kind (h : Answered m text id r) {shape : Shape} (he : r.1.error = some shape) :
    ∃ kind : Kind, shape = kind.shape := by
  cases h with
  | unfit | refused => exact ⟨_, (Option.some.inj he).symm⟩
  | question | done => cases he

theorem of_fault (h : Answered m text id r) {fault : Fault} (hf : asked text = .error fault) :
    r.1.error = some fault.kind.shape ∧ r.2 = m := by
  cases h with
  | unfit ha =>
    cases ha.symm.trans hf
    exact ⟨rfl, rfl⟩
  | question ha | done ha | refused ha => cases ha.symm.trans hf

theorem of_operation (h : Answered m text id r) {operation : Operation}
    (ho : asked text = .ok operation) :
    match operation.command? with
    | none => r.1.error = none ∧ r.2 = m
    | some command => r.2 = (m.call (.ok command)).2 ∧
        r.1.error = match (m.call (.ok command)).1 with
          | .ok () => none
          | .error why => some why.kind.shape := by
  cases h with
  | unfit ha => cases ha.symm.trans ho
  | question ha _ hc =>
    cases ha.symm.trans ho
    rw [hc]
    exact ⟨rfl, rfl⟩
  | done ha hc _ hr | refused ha hc _ hr =>
    cases ha.symm.trans ho
    rw [hc]
    exact ⟨rfl, by rw [hr]; rfl⟩

end Answered

theorem Operation.result?_iff (m : Mailbox) (asked : Except Fault Operation) (j : Json) :
    (∃ operation, asked = .ok operation ∧ operation.result? m = some j) ↔
      (∃ effectId, asked = .ok (.isSupportEffect effectId) ∧ j = .bool (m.supports effectId)) ∨
        asked = .ok .supportedEffects ∧ j = .arr (m.effects.map .str) := by
  constructor
  · rintro ⟨operation, ha, hj⟩
    cases operation with
    | vibrate | startVibration | stop => cases hj
    | isSupportEffect effectId => exact .inl ⟨effectId, ha, (Option.some.inj hj).symm⟩
    | supportedEffects => exact .inr ⟨ha, (Option.some.inj hj).symm⟩
  · rintro (⟨effectId, ha, rfl⟩ | ⟨ha, rfl⟩)
    · exact ⟨_, ha, rfl⟩
    · exact ⟨_, ha, rfl⟩

/-- **Every line gets one well-formed answer.** It has the number of the message, if the line is a
message with a number, and it is an error exactly if it is not `ok`. Only a question has a result:
whether an effect is known, or the ids of all, in order if the catalog was built from a list. An
error is one of three, by its kind alone. A line that asks for nothing that can be done changes
nothing, nor does a question; any other line does what its command does when it is called, and is
answered accordingly. -/
theorem reply_well_formed (m : Mailbox) (text : String) :
    let message? := Wire.ofText? Message text
    let reply := (answer m text).1
    let m' := (answer m text).2
    reply.id = message?.bind Message.id ∧
    (reply.ok = true ↔ reply.error = none) ∧
    (reply.result ≠ none → reply.ok = true) ∧
    (∀ j, reply.result = some j ↔
      (∃ id, asked text = .ok (.isSupportEffect id) ∧ j = .bool (m.supports id)) ∨
        asked text = .ok .supportedEffects ∧ j = .arr (m.effects.map .str)) ∧
    (∀ id, m.supports id = true ↔ id ∈ m.effects) ∧
    (∀ effects, m.controller.catalog = .ofList effects → m.effects.Pairwise (· < ·)) ∧
    (∀ shape, reply.error = some shape → shape ∈ [(⟨401, "The parameter invalid."⟩ : Shape),
      ⟨201, "Permission denied."⟩, ⟨14600101, "Device operation failed."⟩]) ∧
    (∀ fault, asked text = .error fault → reply.error = some fault.kind.shape ∧ m' = m) ∧
    (∀ message, message? = some message → message.op ∉ Operation.names →
      reply.error = some Kind.invalidParameter.shape ∧ m' = m) ∧
    ∀ operation, asked text = .ok operation →
      match operation.command? with
      | none => reply.error = none ∧ m' = m
      | some command =>
        m' = (m.call (.ok command)).2 ∧
        reply.error = match (m.call (.ok command)).1 with
          | .ok () => none
          | .error why => some why.kind.shape := by
  intro message? reply m'
  have h := answer_answered m text
  refine ⟨h.reply_id, h.ok_iff, h.ok_of_result, fun j => ?_, m.controller.catalog.contains_iff,
    fun effects hc => ?_, fun shape he => ?_, fun fault => h.of_fault, fun message hm hn => ?_,
    fun operation => h.of_operation⟩
  · exact (h.result_iff j).trans (Operation.result?_iff m (asked text) j)
  · rw [Mailbox.effects, hc]
    exact Catalog.ids_sorted effects
  · obtain ⟨kind, rfl⟩ := h.error_kind he
    exact kind_shape_mem kind
  · have ha : asked text = .error (.unknownOperation message.op) := by
      rw [asked, show Wire.ofText? Message text = some message from hm]
      exact Operation.ofMessage_of_unknown hn
    exact h.of_fault ha

/-- A question that comes in while a preset repeats. -/
theorem reply_well_formed_sample :
    let m := Setup.sample.run Setup.sampleEvents
    let text := "[7, \"isSupportEffect\", [\"tick\"]]"
    asked text = .ok (.isSupportEffect "tick") ∧ (answer m text).1.id = some 7 ∧
      (answer m text).1.result = some (.bool (m.supports "tick")) := by
  intro m text
  have ha : asked text = .ok (.isSupportEffect "tick") := by decide +kernel
  have hi : (Wire.ofText? Message text).bind Message.id = some 7 := by decide +kernel
  obtain ⟨hid, -, -, hresult, -⟩ := reply_well_formed m text
  exact ⟨ha, hid.trans hi, (hresult _).mpr (.inl ⟨"tick", ha, rfl⟩)⟩

end Line

end Haptics
