import StudioScript.Proofs.Execution.Points
import StudioScript.Proofs.Script.Numbers

/-! # What edits read

The numbers that edits take from their arguments, from the clip that they are applied to and from
the defaults.  An argument that a script writes as a number is finite, and so are the numbers of
automation points; only a string can count as an infinity or as `nan`
(`Script.readsFinite_of_ofText`).
-/

namespace StudioScript

open Number

/-! ## Readers -/

theorem Arguments.value_of_number? {args : Arguments} {call key : String} {x : Number}
    (read : args.number? call key = .ok (some x)) :
    ∃ value, args.get? key = some value ∧ value.toNumber? = some x := by
  unfold number? at read
  split at read
  · cases read
  · next value given =>
    split at read
    · next y counts =>
      cases read
      exact ⟨value, given, counts⟩
    · cases read

/-- A clip that is meant by a time is meant by its own position. -/
theorem Clip.position_of_or {α : Type} {time : Number → α} {index : Nat → α} (c : Clip) {x : Number}
    (injective : ∀ y, time y = time x → y = x) (apart : ∀ i, index i ≠ time x)
    (named : (c.position.map time).or (c.index.map index) = some (time x)) :
    c.position = some x := by
  rcases Option.or_eq_some_iff.mp named with given | ⟨_, given⟩
  · obtain ⟨y, placed, same⟩ := Option.map_eq_some_iff.mp given
    exact injective y same ▸ placed
  · obtain ⟨i, _, same⟩ := Option.map_eq_some_iff.mp given
    exact absurd same (apart i)

namespace Edit

/-- The arguments that an edit reads as numbers, whole or not. -/
def numberKeys : Edit → List String
  | .newClip => ["start", "position", "length"]
  | .setTrack => ["volume_db", "pan"]
  | .deleteClip => ["position"]
  | .setClip => ["position", "length"]
  | .moveClip => ["position", "old_position"]
  | .addAutomation =>
      ["start", "end", "start_bar", "end_bar", "from", "to", "freq", "amplitude", "phase"]
  | .addFx | .delete => []

variable {args : Arguments} {item : Option Item} {e : Edit}

theorem clipProps_length {props : ClipProps} (read : clipProps args = .ok props) :
    args.number? setClip.name "length" = .ok props.length ∧
      props.length.any isNonPositive = false := by
  obtain ⟨name, _, rest⟩ := Except.bind_eq_ok.mp read
  obtain ⟨color, _, rest⟩ := Except.bind_eq_ok.mp rest
  obtain ⟨selected, _, rest⟩ := Except.bind_eq_ok.mp rest
  obtain ⟨length, given, rest⟩ := Except.bind_eq_ok.mp rest
  dsimp only at rest
  split at rest
  · cases rest
  · next positive =>
    split at rest
    · cases rest
    · cases rest
      exact ⟨given, eq_false_of_ne_true positive⟩

theorem clipDestination_position {position : Number}
    (read : clipDestination args = .ok (.position position)) :
    args.number? moveClip.name "position" = .ok (some position) ∧ position.isNegative = false := by
  obtain ⟨given, number, rest⟩ := Except.bind_eq_ok.mp read
  cases given with
  | some x =>
    dsimp only at rest
    split at rest
    · cases rest
    · next natural =>
      cases rest
      exact ⟨number, eq_false_of_ne_true natural⟩
  | none =>
    obtain ⟨bar, _, rest⟩ := Except.bind_eq_ok.mp rest
    cases bar <;> cases rest

theorem trackProps_numbers {props : TrackProps} (read : trackProps args = .ok props) :
    args.number? setTrack.name "volume_db" = .ok props.volumeDb ∧
      args.number? setTrack.name "pan" = .ok props.pan := by
  obtain ⟨name, _, rest⟩ := Except.bind_eq_ok.mp read
  obtain ⟨volumeDb, volume, rest⟩ := Except.bind_eq_ok.mp rest
  obtain ⟨pan, balance, rest⟩ := Except.bind_eq_ok.mp rest
  obtain ⟨mute, _, rest⟩ := Except.bind_eq_ok.mp rest
  obtain ⟨solo, _, rest⟩ := Except.bind_eq_ok.mp rest
  obtain ⟨selected, _, rest⟩ := Except.bind_eq_ok.mp rest
  obtain ⟨color, _, rest⟩ := Except.bind_eq_ok.mp rest
  dsimp only at rest
  split at rest
  · cases rest
  · cases rest
    exact ⟨volume, balance⟩

theorem newClipPosition?_number {position : Number}
    (read : newClipPosition? args = .ok (some position)) :
    ∃ key ∈ newClip.numberKeys, args.number? newClip.name key = .ok (some position) := by
  obtain ⟨start, given, rest⟩ := Except.bind_eq_ok.mp read
  cases start with
  | some x =>
    cases rest
    exact ⟨"start", by decide, given⟩
  | none => exact ⟨"position", by decide, rest⟩

/-- The time that says which clip is meant is that of the clip, or an argument. -/
theorem clipRef_position {position : Number}
    (read : clipRef e args item = .ok (some (.position position))) :
    (∃ c, item = some (.clip c) ∧ c.position = some position) ∨
      args.number? e.name "position" = .ok (some position) := by
  unfold clipRef at read
  split at read
  · next c =>
    have placed := c.position_of_or (by simp) (by simp) (Except.ok.inj read)
    exact .inl ⟨c, rfl, placed⟩
  · obtain ⟨index, _, rest⟩ := Except.bind_eq_ok.mp read
    obtain ⟨given, number, rest⟩ := Except.bind_eq_ok.mp rest
    obtain ⟨bar, _, rest⟩ := Except.bind_eq_ok.mp rest
    split at rest <;> cases rest
    exact .inr number

theorem clipSource_position {position : Number}
    (read : clipSource args item = .ok (some (.oldPosition position))) :
    (∃ c, item = some (.clip c) ∧ c.position = some position) ∨
      args.number? moveClip.name "old_position" = .ok (some position) := by
  unfold clipSource at read
  split at read
  · next c =>
    have placed := c.position_of_or (by simp) (by simp) (Except.ok.inj read)
    exact .inl ⟨c, rfl, placed⟩
  · obtain ⟨index, _, rest⟩ := Except.bind_eq_ok.mp read
    obtain ⟨given, number, rest⟩ := Except.bind_eq_ok.mp rest
    split at rest <;> cases rest
    exact .inr number

end Edit

/-! ## Automation points -/

theorem Literal.mem_numbers_of_field {fields : Members Literal} {key : String} {x : Number}
    (found : fields.get? key = some (.number x)) : x ∈ (object fields).numbers := by
  rw [numbers_object]
  exact List.mem_flatMap.mpr ⟨(key, .number x), Members.mem_of_get? found,
    List.mem_singleton_self _⟩

namespace Edit

theorem WritesPoint.numbers {element : Literal} {point : AutomationPoint}
    (writes : WritesPoint element point) : ∀ x ∈ point.numbers, x ∈ element.numbers := by
  cases writes with
  | time valued placed _ | bar valued _ placed =>
    exact List.forall_mem_cons.mpr ⟨Literal.mem_numbers_of_field placed,
      List.forall_mem_singleton.mpr (Literal.mem_numbers_of_field valued)⟩

theorem numbers_of_automationPoints {literal : Literal} {points : List AutomationPoint}
    (made : automationPoints literal = .ok points) :
    ∀ p ∈ points, ∀ x ∈ p.numbers, x ∈ literal.numbers := by
  intro p member x among
  obtain ⟨elements, rfl, -, writes⟩ := automationPoints_eq_ok.mp made
  obtain ⟨element, member', written⟩ := exists_writesPoint_of_mem writes p member
  rw [Literal.numbers_array]
  exact List.mem_flatMap.mpr ⟨element, member', written.numbers x among⟩

end Edit

/-! ## Finite numbers -/

namespace Edit

/-- Whether the numbers are finite that an edit reads from its arguments. -/
structure ReadsFinite (e : Edit) (args : Arguments) : Prop where
  number : ∀ key ∈ e.numberKeys, ∀ x, args.number? e.name key = .ok (some x) → x.isFinite = true
  points : ∀ literal points, args.get? "points" = some literal →
    automationPoints literal = .ok points → ∀ p ∈ points, AllFinite p.numbers

theorem ReadsFinite.allFinite {e : Edit} {args : Arguments} (finite : e.ReadsFinite args)
    {key : String} {given : Option Number} (read : args.number? e.name key = .ok given)
    (known : key ∈ e.numberKeys) : AllFinite given.toList := by
  intro x member
  cases Option.mem_toList.mp member
  exact finite.number key known x read

end Edit

/-- Whether all numbers are finite that an edit of the script reads from its arguments. -/
def Script.ReadsFinite (script : Script) : Prop :=
  ∀ c ∈ script.calls, ∀ e args, c.edit? = some (e, args) → e.ReadsFinite args

/-- Whether no string writes an infinity or `nan` where an edit of the script reads a number. -/
def Script.StringsFinite (script : Script) : Prop :=
  ∀ c ∈ script.calls, ∀ e args, c.edit? = some (e, args) → ∀ key ∈ e.numberKeys,
    ∀ s, args.get? key = some (.string s) →
      ∀ x, (Literal.string s).toNumber? = some x → x.isFinite = true

theorem Script.readsFinite_of_ofText {source : String} {script : Script}
    (parsed : ofText source = .ok script) (strings : script.StringsFinite) :
    script.ReadsFinite := by
  intro c called e args applied
  constructor
  · intro key known x read
    obtain ⟨value, given, counts⟩ := Arguments.value_of_number? read
    have finite := allFinite_of_ofText parsed called applied given
    cases value with
    | number y =>
      cases counts
      exact finite x (List.mem_singleton_self x)
    | string s => exact strings c called e args applied key known s given x counts
    | boolean | array | object => cases counts
  · intro literal points given made p member x among
    have inside := Edit.numbers_of_automationPoints made p member x among
    exact allFinite_of_ofText parsed called applied given x inside

end StudioScript
