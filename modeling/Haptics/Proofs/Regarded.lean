import Mathlib.Data.List.Basic
import Haptics.Line.Operation

/-! What of a message an operation looks at. Each argument is cut down to the members that mean
something there, a missing argument stands as `null`, and what is left decides the operation and
every fault. -/

namespace Haptics

open Line Operation

/-! ## Cutting down -/

/-- An object with its members of these names alone, in the order of the names; one that is `null` is
left out. Any other value stays whole. -/
def Json.trimmed (names : List String) : Json → Json
  | .obj members => .obj (names.filterMap fun name => (present (members.lookup name)).map (name, ·))
  | j => j

theorem Line.Operation.present_present (j : Option Json) : present (present j) = present j := by
  cases j with
  | none => rfl
  | some j => cases j <;> rfl

namespace Json
variable {members members' : List (String × Json)} {names : List String}

theorem lookup_trimmed (members : List (String × Json)) (names : List String) (name : String) :
    (names.filterMap fun n => (present (members.lookup n)).map (n, ·)).lookup name =
      if name ∈ names then present (members.lookup name) else none := by
  induction names with
  | nil => rfl
  | cons n names ih =>
    by_cases hn : name = n
    · subst hn
      rw [if_pos List.mem_cons_self]
      cases hp : present (members.lookup name) with
      | some j => rw [List.filterMap_cons_some (by rw [hp]; rfl), List.lookup_cons_self]
      | none =>
        rw [List.filterMap_cons_none (by rw [hp]; rfl), ih, hp, ite_self]
    · have hm : name ∈ n :: names ↔ name ∈ names := by simp [hn]
      simp only [hm, ← ih]
      cases hp : present (members.lookup n) with
      | some j =>
        rw [List.filterMap_cons_some (by rw [hp]; rfl), List.lookup_cons, beq_false_of_ne hn]
      | none => rw [List.filterMap_cons_none (by rw [hp]; rfl)]

/-- A member that is cut off is as good as one that is `null`. -/
theorem get?_trimmed (j : Json) (names : List String) (name : String) :
    (j.trimmed names).get? name = if name ∈ names then present (j.get? name) else none := by
  cases j with
  | obj members => exact lookup_trimmed members names name
  | _ => exact (ite_self none).symm

/-- Objects come to the same when they are cut down exactly if they have the same members of those
names, where `null` counts as none. -/
theorem trimmed_obj_eq_iff :
    (obj members).trimmed names = (obj members').trimmed names ↔
      ∀ name ∈ names, present (members.lookup name) = present (members'.lookup name) := by
  constructor
  · intro h name hm
    have hg := congrArg (fun j => j.get? name) h
    simp only [get?_trimmed, if_pos hm] at hg
    exact hg
  · intro h
    refine congrArg obj (List.filterMap_congr fun name hm => ?_)
    rw [h name hm]

end Json

namespace Line
variable {m m' : Message}

/-- The argument at a place; a missing one is `null`. -/
def Message.argument (m : Message) (place : Nat) : Json := m.args.getD place .null

namespace Operation

/-- The members of an effect that are looked at; which they are depends on its type. -/
def effectNames (effect : Json) : List String :=
  match effect.get? "type" with
  | some (.str "time") => ["type", "duration"]
  | some (.str "preset") => ["type", "effectId", "count"]
  | _ => ["type"]

end Operation

/-- What an operation looks at. Of an object that stands where a string would have to, no member
counts. -/
def Message.regarded (m : Message) : List Json :=
  let first := m.argument 0
  match m.op with
  | "vibrate" => [first.trimmed ["mode"]]
  | "startVibration" =>
    [first.trimmed (effectNames first), (m.argument 1).trimmed ["usage", "intensity", "frequency"]]
  | "stop" | "stopVibration" | "isSupportEffect" => [first.trimmed []]
  | _ => []

namespace Operation

/-! ## Readers -/

theorem present_argument (m : Message) (place : Nat) :
    present m.args[place]? = present (some (m.argument place)) := by
  rw [Message.argument, List.getD_eq_getElem?_getD]
  cases m.args[place]? <;> rfl

/-- The first argument as the readers get it. -/
theorem present_head (m : Message) : present m.args.head? = present (some (m.argument 0)) := by
  rw [List.head?_eq_getElem?, present_argument]

theorem attributeContext_argument (m : Message) :
    attributeContext m.args[1]? = attributeContext (some (m.argument 1)) := by
  rw [Message.argument, List.getD_eq_getElem?_getD]
  cases m.args[1]? <;> rfl

theorem integer_present (name : String) (j : Option Json) :
    integer name (present j) = integer name j := by
  cases j with
  | none => rfl
  | some j => cases j <;> rfl

theorem int32_present (name : String) (default : Int32) (j : Option Json) :
    int32 name default (present j) = int32 name default j := by
  unfold int32
  rw [present_present]

section Members
variable {cut members : List (String × Json)}

/-- What is looked for as a string may be looked for without its `null`. -/
theorem match_present {α : Type} (j : Option Json) (f : String → α) (other : α) :
    (match present j with | some (.str s) => f s | _ => other) =
      match j with | some (.str s) => f s | _ => other := by
  cases j with
  | none => rfl
  | some j => cases j <;> rfl

theorem vibrateRequest_cut
    (h : ∀ name ∈ ["mode"], (Json.obj cut).get? name = present ((Json.obj members).get? name)) :
    vibrateRequest (some (.obj cut)) = vibrateRequest (some (.obj members)) := by
  simp only [vibrateRequest, h "mode" List.mem_cons_self, present_present]

theorem effectRequest_cut (h : ∀ name ∈ effectNames (.obj members),
      (Json.obj cut).get? name = present ((Json.obj members).get? name)) :
    effectRequest (some (.obj cut)) = effectRequest (some (.obj members)) := by
  have htype := h "type" (by unfold effectNames; split <;> exact List.mem_cons_self)
  unfold effectNames at h
  unfold effectRequest
  dsimp only
  rw [htype]
  cases ht : (Json.obj members).get? "type" with
  | none => rfl
  | some kind =>
    rw [ht] at h
    cases kind with
    | str kind =>
      simp only [present, Option.filter_some, Json.isNull, Bool.not_false, if_true]
      split
      · next heq =>
        cases heq
        rw [h "duration" (by simp), integer_present]
      · next heq =>
        cases heq
        rw [h "effectId" (by simp), h "count" (by simp), int32_present]
        exact match_present _ _ _
      · rfl
      · rfl
      · rfl
    | _ => rfl

theorem attributeContext_cut (h : ∀ name ∈ ["usage", "intensity", "frequency"],
      (Json.obj cut).get? name = present ((Json.obj members).get? name)) :
    attributeContext (some (.obj cut)) = attributeContext (some (.obj members)) := by
  simp only [attributeContext, h "usage" (by simp), h "intensity" (by simp), h "frequency" (by simp),
    int32_present]
  exact match_present _ _ _

end Members

/-- A reader that gets by with these members of an object takes the value cut down to them like the
whole one. -/
theorem read_trimmed {α : Type} (read : Option Json → α) (names : List String) (j : Json)
    (h : ∀ cut members, j = .obj members →
      (∀ name ∈ names, (Json.obj cut).get? name = present ((Json.obj members).get? name)) →
      read (some (.obj cut)) = read (some (.obj members))) :
    read (some (j.trimmed names)) = read (some j) := by
  cases j with
  | obj members =>
    refine h _ members rfl fun name hn => ?_
    exact ((Json.obj members).get?_trimmed names name).trans (if_pos hn)
  | _ => rfl

/-- A reader that takes all objects alike need not see their members. -/
theorem read_trimmed_nil {α : Type} (read : Option Json → α) (j : Json)
    (h : ∀ cut members, read (some (.obj cut)) = read (some (.obj members))) :
    read (some (j.trimmed [])) = read (some j) :=
  read_trimmed read [] j fun cut members _ _ => h cut members

theorem ofMessage_regarded (m : Message) (id : Option UInt64) :
    ofMessage ⟨id, m.op, m.regarded⟩ = ofMessage m := by
  have hstop := read_trimmed_nil (fun j => stopMode (present j)) (m.argument 0) fun _ _ => rfl
  unfold ofMessage
  rw [present_head ⟨id, m.op, m.regarded⟩, present_head m,
    attributeContext_argument ⟨id, m.op, m.regarded⟩, attributeContext_argument m]
  unfold Message.regarded
  dsimp only
  split
  · next hop =>
    have hread := read_trimmed (fun j => vibrateRequest (present j)) ["mode"] (m.argument 0)
      fun _ _ _ => vibrateRequest_cut
    rw [hop, ← hread]
    rfl
  · next hop =>
    have hfirst := read_trimmed (fun j => effectRequest (present j)) (effectNames (m.argument 0))
      (m.argument 0) fun _ _ heq h => effectRequest_cut (heq ▸ h)
    have hsecond := read_trimmed attributeContext ["usage", "intensity", "frequency"] (m.argument 1)
      fun _ _ _ => attributeContext_cut
    rw [hop, ← hfirst, ← hsecond]
    rfl
  · next hop =>
    rw [hop, ← hstop]
    rfl
  · next hop =>
    rw [hop, ← hstop]
    rfl
  · next hop =>
    have hread := read_trimmed_nil (fun j => match present j with
      | some (.str effectId) => Except.ok (isSupportEffect effectId)
      | _ => .error (Fault.refused (.invalid .supportNotText))) (m.argument 0) fun _ _ => rfl
    rw [hop]
    exact hread
  · rfl
  · rfl

end Operation

/-! ## Arguments that do not count -/

theorem Message.regarded_of_arguments (hop : m.op = m'.op) (hfirst : m.argument 0 = m'.argument 0)
    (hsecond : m.op = "startVibration" → m.argument 1 = m'.argument 1) :
    m.regarded = m'.regarded := by
  unfold regarded
  rw [← hop, hfirst]
  split
  · rfl
  · next h => rw [hsecond h]
  all_goals rfl

/-- **Only what is looked at counts.** Two messages for one operation ask for the same, or have the
same fault with the same cause, if they come to the same when they are cut down to what the operation
looks at; and objects do that if they have the same members under the names that are looked at, where
`null` counts as none. So `null` in the first place is as good as no argument and in the second place
as good as none there, no argument after the second counts, and only a start with an effect has a
second one. -/
theorem only_regarded_counts :
    (∀ m m' : Message, m.op = m'.op → m.regarded = m'.regarded →
      ofMessage m = ofMessage m') ∧
    (∀ names members members',
      (Json.obj members).trimmed names = (Json.obj members').trimmed names ↔
        ∀ name ∈ names, present (members.lookup name) = present (members'.lookup name)) ∧
    (∀ id op, ofMessage ⟨id, op, [.null]⟩ = ofMessage ⟨id, op, []⟩) ∧
    (∀ id op first, ofMessage ⟨id, op, [first, .null]⟩ = ofMessage ⟨id, op, [first]⟩) ∧
    (∀ id op first second more,
      ofMessage ⟨id, op, first :: second :: more⟩ = ofMessage ⟨id, op, [first, second]⟩) ∧
    (∀ id op first more, op ≠ "startVibration" →
      ofMessage ⟨id, op, first :: more⟩ = ofMessage ⟨id, op, [first]⟩) ∧
    (∀ id id' args args', ofMessage ⟨id, "supportedEffects", args⟩ =
      ofMessage ⟨id', "supportedEffects", args'⟩) := by
  have hcongr (m m' : Message) (hop : m.op = m'.op) (h : m.regarded = m'.regarded) :
      ofMessage m = ofMessage m' := by
    rw [← ofMessage_regarded m none, ← ofMessage_regarded m' none, hop, h]
  have hsame {m m' : Message} (hop : m.op = m'.op) (hfirst : m.argument 0 = m'.argument 0)
      (hsecond : m.op = "startVibration" → m.argument 1 = m'.argument 1) :
      ofMessage m = ofMessage m' :=
    hcongr m m' hop (Message.regarded_of_arguments hop hfirst hsecond)
  refine ⟨hcongr, fun _ _ _ => Json.trimmed_obj_eq_iff, fun id op => ?_, fun id op first => ?_,
    fun id op first second more => ?_, fun id op first more hop => ?_, fun _ _ _ _ => rfl⟩
  · exact hsame rfl rfl fun _ => rfl
  · exact hsame rfl rfl fun _ => rfl
  · exact hsame rfl rfl fun _ => rfl
  · exact hsame rfl rfl fun h => absurd h hop

/-- A count that is `null`, members in another order and of another type of effect, and a third
argument; the frequency is out of range either way. -/
theorem only_regarded_counts_sample :
    let m : Message := ⟨some 7, "startVibration",
      [.obj [("count", .null), ("duration", .str "long"), ("effectId", .str "tick"),
          ("type", .str "preset")],
        .obj [("frequency", .num (.int 2147483648)), ("intensity", .null), ("usage", .str "alarm")],
        .bool true]⟩
    let m' : Message := ⟨none, "startVibration",
      [.obj [("type", .str "preset"), ("effectId", .str "tick")],
        .obj [("usage", .str "alarm"), ("frequency", .num (.int 2147483648)), ("x", .arr [])]]⟩
    m.op = m'.op ∧ m.regarded = m'.regarded ∧ ofMessage m = ofMessage m' ∧
      ofMessage m' = .error (.refused (.invalid (.outOfRange "frequency" 2147483648))) ∧
      "stop" ≠ "startVibration" ∧
      ofMessage ⟨none, "stop", [.str "time", .str "preset"]⟩ =
        ofMessage ⟨none, "stop", [.str "time"]⟩ := by
  intro m m'
  have hregarded : m.regarded = m'.regarded := rfl
  have hop : "stop" ≠ "startVibration" := by decide
  obtain ⟨hcongr, -, -, -, -, hone, -⟩ := only_regarded_counts
  exact ⟨rfl, hregarded, hcongr m m' rfl hregarded, rfl, hop, hone none "stop" _ _ hop⟩

end Line

end Haptics
