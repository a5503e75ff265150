import Haptics.Config.Text
import Haptics.Proofs.Encoding

/-! The keys of a configuration, one by one. A file may give some of them and leave out the others,
and it may leave out sections. Each key is read on its own: what a file gives is taken from there, and
every other key has its default. -/

namespace Haptics

open Document Wire

/-! ## Keys -/

/-- The keys of a configuration file. -/
inductive Key where
  | maxDurationMs
  | commandBuffer
  | repeatWins
  | lockRepeating
  | guarded
  | lowest
  | granted
  | rejected
  | effects
  deriving DecidableEq, Repr

namespace Key

/-- What a key holds. -/
def Value : Key → Type
  | maxDurationMs => Int64
  | commandBuffer => UInt64
  | repeatWins | lockRepeating | granted => Bool
  | guarded | lowest => List Usage
  | rejected => List Rejection
  | effects => List Effect

instance : (k : Key) → Wire k.Value
  | maxDurationMs => inferInstanceAs (Wire Int64)
  | commandBuffer => inferInstanceAs (Wire UInt64)
  | repeatWins | lockRepeating | granted => inferInstanceAs (Wire Bool)
  | guarded | lowest => inferInstanceAs (Wire (List Usage))
  | rejected => inferInstanceAs (Wire (List Rejection))
  | effects => inferInstanceAs (Wire (List Effect))

/-- The sections of a file. -/
def sections : List String := ["limits", "arbitration", "permission", "actuator"]

/-- The section of a key; the effects have none. -/
def home? : Key → Option String
  | maxDurationMs | commandBuffer => "limits"
  | repeatWins | lockRepeating | guarded | lowest => "arbitration"
  | granted => "permission"
  | rejected => "actuator"
  | effects => none

def name : Key → String
  | maxDurationMs => "max_duration_ms"
  | commandBuffer => "command_buffer"
  | repeatWins => "incoming_repeat_wins"
  | lockRepeating => "lock_repeating_presets"
  | guarded => "protected_usages"
  | lowest => "lowest_priority_usages"
  | granted => "vibrate_granted"
  | rejected => "rejected"
  | effects => "effects"

end Key

namespace Config

/-- What a configuration has under a key. -/
def get (c : Config) : (k : Key) → k.Value
  | .maxDurationMs => c.limits.maxDurationMs
  | .commandBuffer => c.limits.commandBuffer
  | .repeatWins => c.arbitration.repeatWins
  | .lockRepeating => c.arbitration.lockRepeating
  | .guarded => c.arbitration.guarded
  | .lowest => c.arbitration.lowest
  | .granted => c.granted
  | .rejected => c.rejected
  | .effects => c.effects

/-- The configuration with these values. -/
def ofKeys (f : (k : Key) → k.Value) : Config :=
  ⟨⟨f .maxDurationMs, f .commandBuffer⟩, ⟨f .repeatWins, f .lockRepeating, f .guarded, f .lowest⟩,
    f .granted, f .rejected, f .effects⟩

theorem get_ofKeys (f : (k : Key) → k.Value) (k : Key) : (ofKeys f).get k = f k := by
  cases k <;> rfl

/-- What a key has if only the given ones are taken from `c`. -/
def pick (c : Config) (given : Key → Bool) (k : Key) : k.Value :=
  (if given k then c else {}).get k

theorem limits_of_fault? {c : Config} (h : c.fault? = none) :
    ¬ c.limits.maxDurationMs ≤ 0 ∧ ¬ c.limits.commandBuffer = 0 := by
  unfold fault? at h
  split at h
  · cases h
  · split at h
    · cases h
    · exact ⟨by assumption, by assumption⟩

/-- Valid limits stay valid when some of them are replaced by their defaults. -/
theorem fault?_pick {c : Config} (h : c.fault? = none) (given : Key → Bool) :
    (ofKeys (c.pick given)).fault? = none := by
  have hmax : (ofKeys (c.pick given)).limits.maxDurationMs =
      if given .maxDurationMs then c.limits.maxDurationMs else 1800000 := by
    change c.pick given .maxDurationMs = _
    unfold pick
    split <;> rfl
  have hbuffer : (ofKeys (c.pick given)).limits.commandBuffer =
      if given .commandBuffer then c.limits.commandBuffer else 64 := by
    change c.pick given .commandBuffer = _
    unfold pick
    split <;> rfl
  obtain ⟨hc, hc'⟩ := limits_of_fault? h
  unfold fault?
  rw [hmax, hbuffer, if_neg, if_neg]
  · split
    · exact hc'
    · decide
  · split
    · exact hc
    · decide

end Config

theorem bind_of_eq_some {α β : Type} {o : Option α} {a : α} (h : o = some a) (f : α → Option β) :
    (o >>= f) = f a := by
  rw [h]
  rfl

/-! ## Files that give some keys -/

/-- The members of a section, or none if it is absent. -/
def sectionMembers (home : String) (members : List (Option String × Document)) :
    List (Option String × Document) :=
  (under home members).flatMap fun
    | .table sub => sub
    | _ => []

/-- The documents that a file has under a key. -/
def Key.found (k : Key) (members : List (Option String × Document)) : List Document :=
  under k.name (match k.home? with
    | some home => sectionMembers home members
    | none => members)

/-- A file that gives exactly the given keys, with the values that `c` has. Sections are absent or
there once, as tables; they may be empty, and may have members that are no keys. -/
structure Gives (c : Config) (given : Key → Bool) (members : List (Option String × Document)) :
    Prop where
  named : allNamed members
  sections : ∀ home ∈ Key.sections, under home members = [] ∨
    ∃ sub, under home members = [.table sub] ∧ allNamed sub
  present : ∀ k, given k → ∃ d, k.found members = [d] ∧ decode? .file d = some (c.get k)
  absent : ∀ k, given k = false → k.found members = []

namespace Gives
variable {c : Config} {given : Key → Bool} {members : List (Option String × Document)}

/-- A key is found as a field, and what it has is read. -/
theorem field (h : Gives c given members) (k : Key) {sub : List (Option String × Document)}
    (hk : k.found members = under k.name sub) :
    ∃ v, Field.inTable? sub ⟨k.name, .defaulted⟩ = some v ∧
      field? .file (({} : Config).get k) v = some (c.pick given k) := by
  unfold Field.inTable? Config.pick
  rw [← hk]
  cases hg : given k with
  | true =>
    obtain ⟨d, hd, hv⟩ := h.present k hg
    rw [hd]
    exact ⟨some d, rfl, hv⟩
  | false =>
    rw [h.absent k hg]
    exact ⟨none, rfl, rfl⟩

/-- The keys of a section are found there. -/
theorem record (h : Gives c given members) {sub : List (Option String × Document)}
    (hn : allNamed sub) {keys : List Key} (hk : ∀ k ∈ keys, k.found members = under k.name sub) :
    ∃ vs, record? .file (keys.map fun k => ⟨k.name, .defaulted⟩) (.table sub) = some vs ∧
      keys.Forall₂ (fun k v => field? .file (({} : Config).get k) v = some (c.pick given k)) vs := by
  rw [record?, if_pos hn]
  induction keys with
  | nil => exact ⟨[], rfl, .nil⟩
  | cons k keys ih =>
    obtain ⟨hkey, hk⟩ := List.forall_mem_cons.mp hk
    obtain ⟨v, hv, hread⟩ := h.field k hkey
    obtain ⟨vs, hvs, hreads⟩ := ih hk
    refine ⟨v :: vs, ?_, .cons hread hreads⟩
    rw [List.map_cons, List.mapM_cons, hv, hvs]
    rfl

/-- A section is read by its keys; whether it is absent or empty makes no difference. -/
theorem atSection (h : Gives c given members) (home : String) (hh : home ∈ Key.sections)
    (keys : List Key) (hk : ∀ k ∈ keys, k.home? = some home) {α : Type}
    (read : Option Document → Option α) (hr : read none = read (some (.table []))) :
    ∃ v sub vs, Field.inTable? members ⟨home, .defaulted⟩ = some v ∧
      read v = read (some (.table sub)) ∧
      record? .file (keys.map fun k => ⟨k.name, .defaulted⟩) (.table sub) = some vs ∧
      keys.Forall₂ (fun k v => field? .file (({} : Config).get k) v = some (c.pick given k)) vs := by
  have hfound : ∀ k ∈ keys, k.found members = under k.name (sectionMembers home members) := by
    intro k hkey
    rw [Key.found, hk k hkey]
  unfold Field.inTable?
  unfold sectionMembers at hfound
  rcases h.sections home hh with hu | ⟨sub, hu, hn⟩
  · rw [hu] at hfound ⊢
    exact ⟨none, [], (h.record rfl hfound).imp fun vs hvs => ⟨rfl, hr, hvs⟩⟩
  · rw [hu] at hfound ⊢
    rw [List.flatMap_singleton] at hfound
    exact ⟨some (.table sub), sub, (h.record hn hfound).imp fun vs hvs => ⟨rfl, rfl, hvs⟩⟩

/-! ### The sections -/

theorem limits (h : Gives c given members) :
    ∃ v, Field.inTable? members ⟨"limits", .defaulted⟩ = some v ∧
      field? .file ({} : Config).limits v = some (Config.ofKeys (c.pick given)).limits := by
  obtain ⟨v, sub, vs, hv, hread, hrec, hvs⟩ := h.atSection "limits" (by decide)
    [.maxDurationMs, .commandBuffer] (by decide) (field? .file ({} : Config).limits) rfl
  obtain _ | ⟨hmax, _ | ⟨hbuffer, _ | _⟩⟩ := hvs
  refine ⟨v, hv, hread.trans ((bind_of_eq_some hrec _).trans ?_)⟩
  exact (bind_of_eq_some hmax _).trans (bind_of_eq_some hbuffer _)

theorem arbitration (h : Gives c given members) :
    ∃ v, Field.inTable? members ⟨"arbitration", .defaulted⟩ = some v ∧
      field? .file ({} : Config).arbitration v =
        some (Config.ofKeys (c.pick given)).arbitration := by
  obtain ⟨v, sub, vs, hv, hread, hrec, hvs⟩ := h.atSection "arbitration" (by decide)
    [.repeatWins, .lockRepeating, .guarded, .lowest] (by decide)
    (field? .file ({} : Config).arbitration) rfl
  obtain _ | ⟨hwins, _ | ⟨hlock, _ | ⟨hguarded, _ | ⟨hlowest, _ | _⟩⟩⟩⟩ := hvs
  refine ⟨v, hv, hread.trans ((bind_of_eq_some hrec _).trans ?_)⟩
  exact (bind_of_eq_some hwins _).trans ((bind_of_eq_some hlock _).trans
    ((bind_of_eq_some hguarded _).trans (bind_of_eq_some hlowest _)))

theorem permission (h : Gives c given members) :
    ∃ v, Field.inTable? members ⟨"permission", .defaulted⟩ = some v ∧
      Config.onlyKey? .file "vibrate_granted" ({} : Config).granted v =
        some (Config.ofKeys (c.pick given)).granted := by
  obtain ⟨v, sub, vs, hv, hread, hrec, hvs⟩ := h.atSection "permission" (by decide) [.granted]
    (by decide) (Config.onlyKey? .file "vibrate_granted" ({} : Config).granted) rfl
  obtain _ | ⟨hgranted, _ | _⟩ := hvs
  exact ⟨v, hv, hread.trans ((bind_of_eq_some hrec _).trans hgranted)⟩

theorem actuator (h : Gives c given members) :
    ∃ v, Field.inTable? members ⟨"actuator", .defaulted⟩ = some v ∧
      Config.onlyKey? .file "rejected" ({} : Config).rejected v =
        some (Config.ofKeys (c.pick given)).rejected := by
  obtain ⟨v, sub, vs, hv, hread, hrec, hvs⟩ := h.atSection "actuator" (by decide) [.rejected]
    (by decide) (Config.onlyKey? .file "rejected" ({} : Config).rejected) rfl
  obtain _ | ⟨hrejected, _ | _⟩ := hvs
  exact ⟨v, hv, hread.trans ((bind_of_eq_some hrec _).trans hrejected)⟩

/-- The document of such a file is read as the given keys over the defaults. -/
theorem decode (h : Gives c given members) :
    decode? .file (.table members) = some (Config.ofKeys (c.pick given)) := by
  obtain ⟨limits, hlimits, hlimits'⟩ := h.limits
  obtain ⟨arbitration, harbitration, harbitration'⟩ := h.arbitration
  obtain ⟨permission, hpermission, hpermission'⟩ := h.permission
  obtain ⟨actuator, hactuator, hactuator'⟩ := h.actuator
  have htop : Key.found .effects members = under (Key.name .effects) members := rfl
  obtain ⟨effects, heffects, heffects'⟩ := h.field .effects htop
  have hrec : record? .file [⟨"limits", .defaulted⟩, ⟨"arbitration", .defaulted⟩,
      ⟨"permission", .defaulted⟩, ⟨"actuator", .defaulted⟩, ⟨Key.name .effects, .defaulted⟩]
      (.table members) = some [limits, arbitration, permission, actuator, effects] := by
    rw [record?, if_pos h.named]
    simp only [List.mapM_cons, List.mapM_nil, hlimits, harbitration, hpermission, hactuator,
      heffects]
    rfl
  exact (bind_of_eq_some hrec _).trans ((bind_of_eq_some hlimits' _).trans
    ((bind_of_eq_some harbitration' _).trans ((bind_of_eq_some hpermission' _).trans
      ((bind_of_eq_some hactuator' _).trans (bind_of_eq_some heffects' _)))))

theorem ofText (h : Gives c given members) (hc : c.fault? = none) {t : String}
    (ht : Toml.read? t = some (.table members)) :
    Config.ofText t = .ok (Config.ofKeys (c.pick given)) := by
  rw [Config.ofText, ht, Option.bind_eq_bind, Option.bind_some, h.decode]
  simp only [Config.fault?_pick hc given]

end Gives

end Haptics
