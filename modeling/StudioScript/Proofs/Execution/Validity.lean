import StudioScript.Proofs.Execution.Readings
import StudioScript.Proofs.Session.Numbers

/-! # Valid actions

Lengths and positions are compared with zero before an action is made of them, so that none is below
what it may be.  But `nan` passes such a comparison, and infinities are not looked for at all.  The
numbers that a script or a snapshot writes are finite, but the strings `"nan"` and `"inf"` count as
numbers too.  Where neither a string nor the default length nor a clip brings such a number in, all
actions are valid (`Context.run_valid`).
-/

namespace StudioScript

namespace Number

theorem compare?_zero {x : Number} (ordered : x ≠ .nan) :
    ∃ order, x.compare? zero = some order := by
  cases x with
  | finite | infinite => exact ⟨_, rfl⟩
  | nan => exact absurd rfl ordered

theorem isAtLeast_zero {x : Number} (ordered : x ≠ .nan) (natural : x.isNegative = false) :
    x.isAtLeast zero = true := by
  obtain ⟨order, compared⟩ := compare?_zero ordered
  simp only [isNegative, isLess, compared] at natural
  simp only [isAtLeast, isGreater, isEqual, compared]
  cases order with
  | lt => cases natural
  | eq | gt => rfl

theorem isGreater_zero {x : Number} (ordered : x ≠ .nan) (positive : x.isNonPositive = false) :
    x.isGreater zero = true := by
  obtain ⟨order, compared⟩ := compare?_zero ordered
  simp only [isNonPositive, isAtMost, isLess, isEqual, compared] at positive
  simp only [isGreater, compared]
  cases order with
  | lt | eq => cases positive
  | gt => rfl

end Number

open Number

/-! ## Ranges -/

/-- Whether positions and lengths are such as a clip can have. -/
def Action.IsInRange : Action → Prop
  | .createClip _ position length =>
      position.isAtLeast .zero = true ∧ length.isGreater .zero = true
  | .createClipAtBar _ _ lengthBars => 1 ≤ lengthBars
  | .setClip _ _ props => ∀ length, props.length = some length → length.isGreater .zero = true
  | .setClipPosition _ (.position position) _ => position.isAtLeast .zero = true
  | _ => True

/-! ## Positions of clips -/

/-- Whether the item, if it is a clip, is at a finite position, if at any. -/
def Item.HasFinitePosition (item : Item) : Prop := ∀ c, item = .clip c → c.HasFinitePosition

theorem Session.HasFinitePositions.of_isOn {session : Session}
    (finite : session.HasFinitePositions) {item : Item} {index : Nat}
    (on : item.IsOn session index) : item.HasFinitePosition := by
  rintro c rfl
  obtain ⟨t, member, _, onTrack⟩ := on
  exact finite c (List.mem_flatMap.mpr ⟨t, member, onTrack⟩)

namespace Edit

variable {defaults : ClipDefaults} {args : Arguments} {track : Nat} {item : Option Item} {e : Edit}

/-! ## What edits make -/

/-- An action is in range, unless there is something in it that is no number. -/
theorem Make.isInRange {action : Action} (make : Make args track item e (some action))
    (ordered : ∀ x ∈ action.numbers, x ≠ .nan) : action.IsInRange := by
  generalize same : some action = result at make
  cases make with
  | clipAtBar positive =>
    cases same
    exact positive
  | clip start positive =>
    cases same
    have position := ordered _ List.mem_cons_self
    have length := ordered _ (List.mem_cons_of_mem _ (List.mem_singleton_self _))
    exact ⟨isAtLeast_zero position start, isGreater_zero length positive⟩
  | fx | instrument | setTrack | delete | automation =>
    cases same
    trivial
  | deleteClip =>
    obtain ⟨_, _, rfl⟩ := Option.map_eq_some_iff.mp same.symm
    trivial
  | setClip read =>
    obtain ⟨ref, _, rfl⟩ := Option.map_eq_some_iff.mp same.symm
    intro length given
    -- The length is compared when the properties are read, before it is known which clip is meant.
    have positive := (clipProps_length read).2
    rw [given, Option.any_some] at positive
    refine isGreater_zero (ordered length (List.mem_append_right _ ?_)) positive
    exact Option.mem_toList.mpr given
  | @moveClip destination named read source =>
    obtain ⟨source, _, rfl⟩ := Option.map_eq_some_iff.mp same.symm
    cases destination with
    | position x =>
      exact isAtLeast_zero (ordered x List.mem_cons_self) (clipDestination_position read).2
    | bar n => trivial

theorem automation_allFinite {body : Automation} (read : automation args = .ok body)
    (finite : addAutomation.ReadsFinite args) : AllFinite body.numbers := by
  obtain ⟨curve, _, rest⟩ := Except.bind_eq_ok.mp read
  cases curve with
  | some curve =>
    obtain ⟨start, start', rest⟩ := Except.bind_eq_ok.mp rest
    obtain ⟨stop, stop', rest⟩ := Except.bind_eq_ok.mp rest
    obtain ⟨startBar, startBar', rest⟩ := Except.bind_eq_ok.mp rest
    obtain ⟨stopBar, stopBar', rest⟩ := Except.bind_eq_ok.mp rest
    obtain ⟨fromValue, fromValue', rest⟩ := Except.bind_eq_ok.mp rest
    obtain ⟨toValue, toValue', rest⟩ := Except.bind_eq_ok.mp rest
    obtain ⟨frequency, frequency', rest⟩ := Except.bind_eq_ok.mp rest
    obtain ⟨amplitude, amplitude', rest⟩ := Except.bind_eq_ok.mp rest
    obtain ⟨phase, phase', rest⟩ := Except.bind_eq_ok.mp rest
    cases rest
    exact (finite.allFinite start' (by decide)).append (finite.allFinite stop' (by decide))
      |>.append (finite.allFinite startBar' (by decide))
      |>.append (finite.allFinite stopBar' (by decide))
      |>.append (finite.allFinite fromValue' (by decide))
      |>.append (finite.allFinite toValue' (by decide))
      |>.append (finite.allFinite frequency' (by decide))
      |>.append (finite.allFinite amplitude' (by decide))
      |>.append (finite.allFinite phase' (by decide))
  | none =>
    dsimp only at rest
    split at rest
    · cases rest
    · next literal given =>
      obtain ⟨points, written, rest⟩ := Except.bind_eq_ok.mp rest
      obtain ⟨shape, _, rest⟩ := Except.bind_eq_ok.mp rest
      cases rest
      have points' := Except.mapError_eq_ok.mp written
      intro x member
      obtain ⟨p, among, inside⟩ := List.mem_flatMap.mp member
      exact finite.points literal points given points' p among x inside

theorem clipRef_allFinite {ref : ClipRef} (read : clipRef e args item = .ok (some ref))
    (known : "position" ∈ e.numberKeys) (finite : e.ReadsFinite args)
    (clips : ∀ element, item = some element → element.HasFinitePosition) :
    AllFinite ref.numbers := by
  cases ref with
  | clip | bar => exact List.forall_mem_nil _
  | position x =>
    rcases clipRef_position read with ⟨c, same, placed⟩ | number
    · exact allFinite_singleton.mpr (clips _ same c rfl x placed)
    · exact allFinite_singleton.mpr (finite.number _ known x number)

theorem clipSource_allFinite {source : ClipSource} (read : clipSource args item = .ok (some source))
    (finite : moveClip.ReadsFinite args)
    (clips : ∀ element, item = some element → element.HasFinitePosition) :
    AllFinite source.numbers := by
  cases source with
  | clip => exact List.forall_mem_nil _
  | oldPosition x =>
    rcases clipSource_position read with ⟨c, same, placed⟩ | number
    · exact allFinite_singleton.mpr (clips _ same c rfl x placed)
    · exact allFinite_singleton.mpr (finite.number _ (by decide) x number)

theorem clipDestination_allFinite {destination : ClipDestination}
    (read : clipDestination args = .ok destination) (finite : moveClip.ReadsFinite args) :
    AllFinite destination.numbers := by
  cases destination with
  | bar => exact List.forall_mem_nil _
  | position x =>
    have number := (clipDestination_position read).1
    exact allFinite_singleton.mpr (finite.number _ (by decide) x number)

/-- What an edit makes of finite numbers has finite numbers. -/
theorem Makes.allFinite {action : Action} (makes : e.Makes defaults args track item action)
    (finite : e.ReadsFinite args) (default : defaults.lengthSeconds.isFinite = true)
    (clips : ∀ element, item = some element → element.HasFinitePosition) :
    AllFinite action.numbers := by
  have make := makes.make
  generalize same : some action = result at make
  cases make with
  | clipAtBar | fx | instrument | delete =>
    cases same
    exact List.forall_mem_nil _
  | clip =>
    -- Where its numbers come from, a new clip does not show: its maker has to be opened for that.
    cases same
    obtain ⟨build, built, made⟩ := makes
    cases built
    obtain ⟨action, acted, same⟩ := Except.map_eq_ok.mp made
    cases same
    rcases newClipAction_eq_ok acted with
      ⟨_, _, _, ⟨⟩⟩ | ⟨position, given, starts, _, read, _, same⟩
    cases same
    obtain ⟨key, known, number⟩ := newClipPosition?_number starts
    have length : (given.getD defaults.lengthSeconds).isFinite = true := by
      cases given with
      | none => exact default
      | some x => exact finite.number "length" (by decide) x read
    exact (allFinite_singleton.mpr (finite.number key known _ number)).append
      (allFinite_singleton.mpr length)
  | setTrack read =>
    cases same
    obtain ⟨volume, pan⟩ := trackProps_numbers read
    exact (finite.allFinite volume (by decide)).append (finite.allFinite pan (by decide))
  | deleteClip ref =>
    obtain ⟨ref, rfl, rfl⟩ := Option.map_eq_some_iff.mp same.symm
    exact clipRef_allFinite ‹_› (by decide) finite clips
  | setClip read ref =>
    obtain ⟨ref, rfl, rfl⟩ := Option.map_eq_some_iff.mp same.symm
    have length := finite.allFinite (clipProps_length read).1 (by decide)
    exact (clipRef_allFinite ‹_› (by decide) finite clips).append length
  | @moveClip destination named read source =>
    obtain ⟨source, rfl, rfl⟩ := Option.map_eq_some_iff.mp same.symm
    exact (clipDestination_allFinite read finite).append (clipSource_allFinite ‹_› finite clips)
  | automation read =>
    cases same
    exact automation_allFinite read finite

end Edit

/-! ## The actions of a script -/

namespace Context

theorem valid_of_mem_emitted {ctx : Context} {script : Script} {action : Action}
    (member : action ∈ (ctx.execute script).emitted) :
    ((∀ x ∈ action.numbers, x ≠ .nan) → action.IsInRange) ∧
      (script.ReadsFinite → ctx.defaults.lengthSeconds.isFinite = true →
        ctx.session.HasFinitePositions → AllFinite action.numbers) := by
  constructor
  · intro ordered
    rcases ctx.makes_of_mem_emitted script (P := fun _ => True) (fun _ _ _ => trivial)
      (fun _ => trivial) action member with ⟨_, _, _, rfl⟩ | ⟨_, _, _, _, _, _, _, makes, _⟩
    · trivial
    · exact makes.make.isInRange ordered
  · -- An item matters here, for a clip may bring its position in.
    intro reads default positions
    rcases ctx.makes_of_mem_emitted script (P := Item.HasFinitePosition)
      (fun _ _ on => positions.of_isOn on) (fun v c same => by cases same) action member with
      ⟨_, _, _, rfl⟩ | ⟨c, called, e, args, _, _, applied, makes, clips⟩
    · exact List.forall_mem_nil _
    · exact makes.allFinite (reads c called e args applied) default clips

/-- Positions and lengths of actions are in range, unless they are no numbers.  And if no string
    counts as an infinity or as `nan` where an edit reads a number, and the default length and the
    positions of clips are finite, then all numbers of actions are finite, all of them are in range,
    and none is written as `null`. -/
theorem run_valid (ctx : Context) (source : String) :
    ∀ action ∈ (ctx.run source).emitted,
      ((∀ x ∈ action.numbers, x ≠ .nan) → action.IsInRange) ∧
      ((∀ script, Script.ofText source = .ok script → script.StringsFinite) →
        ctx.defaults.lengthSeconds.isFinite = true → ctx.session.HasFinitePositions →
          AllFinite action.numbers ∧ action.IsInRange ∧ action.toJson.writesNull = false) := by
  intro action member
  unfold run at member
  cases parsed : Script.ofText source with
  | error e =>
    rw [parsed] at member
    cases member
  | ok script =>
    rw [parsed] at member
    obtain ⟨inRange, finite⟩ := valid_of_mem_emitted member
    refine ⟨inRange, fun strings default positions => ?_⟩
    have reads := Script.readsFinite_of_ofText parsed (strings script rfl)
    have numbers := finite reads default positions
    exact ⟨numbers, inRange numbers.ne_nan, action.writesNull_eq_false_iff.mpr numbers⟩

/-- A clip that starts at zero and has the least positive length is valid. -/
theorem run_valid_of_least_length :
    let least : Number := .finite false ⟨1, 0, by decide, by decide, .inl rfl⟩
    let ctx : Context := { session := .ofTracks [], defaults := { lengthSeconds := least } }
    let source := "track().new_clip(position=0)"
    ctx.run source = .ok [.createTrack none none 0, .createClip 0 .zero least] ∧
      (Action.createClip 0 .zero least).IsInRange ∧
      (Action.createClip 0 .zero least).toJson.writesNull = false := by
  intro least ctx source
  let clip : Invocation := ⟨.edit .newClip, .single "position" (.number .zero)⟩
  have parsed : Script.ofText source = .ok ⟨[⟨1, .track .empty, [clip]⟩]⟩ := by cbv
  have done : ctx.run source = .ok [.createTrack none none 0, .createClip 0 .zero least] := by
    rw [run, parsed]
    rfl
  have member : Action.createClip 0 .zero least ∈ (ctx.run source).emitted := by
    rw [done]
    exact List.mem_cons_of_mem _ (List.mem_singleton_self _)
  have strings : ∀ script, Script.ofText source = .ok script → script.StringsFinite := by
    intro script same c called e args applied key known s given
    rw [parsed] at same
    cases same
    have called' : c ∈ [.track .empty, .method clip] := called
    obtain rfl | rfl : c = .track .empty ∨ c = .method clip := by simpa using called'
    · cases applied
    · cases applied
      obtain rfl | rfl | rfl : key = "start" ∨ key = "position" ∨ key = "length" := by
        simpa [Edit.numberKeys] using known
      all_goals cases given
  have loaded : Session.ofText "\x7b\"tracks\":[]\x7d" = .ok ctx.session := by cbv
  have positions := Session.hasFinitePositions_of_ofText loaded
  have valid := (run_valid ctx source _ member).2 strings rfl positions
  exact ⟨done, valid.2⟩

/-- The string `"nan"` counts as a number, which is not below or at zero: a clip may get it for a
    length, and then has a `null` there. -/
theorem run_nan_length :
    let ctx : Context := { session := .ofTracks [] }
    let source := "track().new_clip(position=0, length=\"nan\")"
    ∃ action ∈ (ctx.run source).emitted,
      action = .createClip 0 .zero .nan ∧ ¬ action.IsInRange ∧ action.toJson.writesNull = true := by
  intro ctx source
  let args : Arguments := ⟨[("position", .number .zero), ("length", .string "nan")], by decide⟩
  have parsed : Script.ofText source = .ok ⟨[⟨1, .track .empty, [⟨.edit .newClip, args⟩]⟩]⟩ := by
    cbv
  have done : ctx.run source = .ok [.createTrack none none 0, .createClip 0 .zero .nan] := by
    rw [run, parsed]
    rfl
  refine ⟨.createClip 0 .zero .nan, ?_, rfl, ?_, rfl⟩
  · rw [done]
    exact List.mem_cons_of_mem _ (List.mem_singleton_self _)
  · rintro ⟨_, positive⟩
    cases positive

end Context

end StudioScript
