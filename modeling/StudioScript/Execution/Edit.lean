import StudioScript.Execution.Argument
import StudioScript.Script.Method
import StudioScript.Session.Item
import StudioScript.Settings.Basic

/-! # From edits to actions

What action an edit makes for a track.  Some arguments are looked at before any track is known, the
others for every track anew; `Edit.builder` keeps these two stages apart.  An edit of clips that is
applied to a clip of the session means that clip.
-/

namespace StudioScript

/-- Makes the action for a track and the item that stands for it, if a collection is edited.  For
    an item that it cannot be made for, there is none. -/
abbrev Builder := Nat → Option Item → Except RunError (Option Action)

namespace Edit

/-! ## New clips and effects -/

/-- The time that `new_clip` starts a clip at, if it gives one.  `start` goes before `position`. -/
def newClipPosition? (args : Arguments) : Except RunError (Option Number) := do
  match ← args.number? newClip.name "start" with
  | some start => return some start
  | none => args.number? newClip.name "position"

/-- The action of `new_clip`.  A bar goes before a time. -/
def newClipAction (defaults : ClipDefaults) (args : Arguments) (track : Nat) :
    Except RunError Action := do
  let call := newClip.name
  match ← args.whole? call "bar" with
  | some bar =>
      let lengthBars := (← args.whole? call "length_bars").getD defaults.lengthBars
      if lengthBars ≤ 0 then Arguments.refuse call "length_bars" .notPositive
      else return .createClipAtBar track bar lengthBars
  | none =>
      match ← newClipPosition? args with
      | none => throw (.missingArgument call "bar, start or position")
      | some position =>
          if position.isNegative then Arguments.refuse call "position" .negative
          else
            let length := (← args.number? call "length").getD defaults.lengthSeconds
            if length.isNonPositive then Arguments.refuse call "length" .notPositive
            else return .createClip track position length

/-- The action of `add_fx`. -/
def addFxAction (args : Arguments) (track : Nat) : Except RunError Action := do
  let call := addFx.name
  let fxname ← args.string? call "fxname"
  let instrument ← args.string? call "instrument"
  match fxname, instrument with
  | some fxname, none => return .addTrackFx track fxname
  | none, some fxname => return .addInstrument track fxname
  | some _, some _ => Arguments.refuse call "instrument" .besideFxname
  | none, none => throw (.missingArgument call "fxname or instrument")

/-! ## Properties -/

/-- The properties that `set_track` gives, at least one. -/
def trackProps (args : Arguments) : Except RunError TrackProps := do
  let call := setTrack.name
  let name ← args.string? call "name"
  let volumeDb ← args.number? call "volume_db"
  let pan ← args.number? call "pan"
  let mute ← args.boolean? call "mute"
  let solo ← args.boolean? call "solo"
  let selected ← args.boolean? call "selected"
  let color ← args.color? call
  let props : TrackProps := { name, volumeDb, pan, mute, solo, selected, color }
  if props.isEmpty then
    throw (.missingArgument call
      "at least one of name, volume_db, pan, mute, solo, selected or color")
  else return props

/-- The properties that `set_clip` gives, at least one. -/
def clipProps (args : Arguments) : Except RunError ClipProps := do
  let call := setClip.name
  let name ← args.string? call "name"
  let color ← args.color? call
  let selected ← args.boolean? call "selected"
  let length ← args.number? call "length"
  let props : ClipProps := { name, color, selected, length }
  if length.any Number.isNonPositive then Arguments.refuse call "length" .notPositive
  else if props.isEmpty then
    throw (.missingArgument call "at least one of name, color, selected or length")
  else return props

/-! ## Clips -/

/-- The clip that an edit means: the clip that it is applied to, by its position or else by its
    index, or else the one that exactly one argument names. -/
def clipRef (edit : Edit) (args : Arguments) : Option Item → Except RunError (Option ClipRef)
  | some (.clip c) => .ok ((c.position.map .position).or (c.index.map .clip))
  | _ => do
      let call := edit.name
      let index ← args.index? call "clip"
      let position ← args.number? call "position"
      let bar ← args.whole? call "bar"
      match index, position, bar with
      | some i, none, none => return some (.clip i)
      | none, some x, none => return some (.position x)
      | none, none, some n => return some (.bar n)
      | _, _, _ =>
          let found := [index.isSome, position.isSome, bar.isSome].count true
          throw (.ambiguousClip call "clip, position or bar" found)

/-- Where `move_clip` moves a clip to.  A position goes before a bar. -/
def clipDestination (args : Arguments) : Except RunError ClipDestination := do
  let call := moveClip.name
  match ← args.number? call "position" with
  | some position =>
      if position.isNegative then Arguments.refuse call "position" .negative
      else return .position position
  | none =>
      match ← args.whole? call "bar" with
      | some bar => return .bar bar
      | none => throw (.missingArgument call "position or bar")

/-- The clip that `move_clip` moves: the clip that it is applied to, by its position or else by its
    index, or else the one that exactly one argument names. -/
def clipSource (args : Arguments) : Option Item → Except RunError (Option ClipSource)
  | some (.clip c) => .ok ((c.position.map .oldPosition).or (c.index.map .clip))
  | _ => do
      let call := moveClip.name
      let index ← args.index? call "clip"
      let position ← args.number? call "old_position"
      match index, position with
      | some i, none => return some (.clip i)
      | none, some x => return some (.oldPosition x)
      | _, _ =>
          let found := [index.isSome, position.isSome].count true
          throw (.ambiguousClip call "clip or old_position" found)

/-! ## Automation -/

/-- The automation point that a literal writes, as the point with the given number. -/
def automationPoint (n : Nat) (element : Literal) : Except PointsFault AutomationPoint :=
  match element.asObject? with
  | none => .error (.notObject n element.typeName)
  | some fields =>
      match (fields.get? "value").bind Literal.asNumber? with
      | none => .error (.noValue n)
      | some value =>
          match (fields.get? "time").bind Literal.asNumber?,
              (fields.get? "bar").bind Literal.asNumber? with
          | some time, none => .ok ⟨.time time, value⟩
          | none, some bar => .ok ⟨.bar bar, value⟩
          | _, _ => .error (.notOneTime n)

/-- The points that literals write, numbered from `n` on. -/
def automationPointsFrom (n : Nat) : List Literal → Except PointsFault (List AutomationPoint)
  | [] => .ok []
  | element :: elements => do
      let point ← automationPoint n element
      let points ← automationPointsFrom (n + 1) elements
      return point :: points

/-- The points that a literal writes, at least one. -/
def automationPoints (literal : Literal) : Except PointsFault (List AutomationPoint) :=
  match literal.asArray? with
  | none => .error (.notArray literal.typeName)
  | some [] => .error .noPoints
  | some elements => automationPointsFrom 0 elements

/-- The automation of `add_automation`.  A curve goes before points. -/
def automation (args : Arguments) : Except RunError Automation := do
  let call := addAutomation.name
  match ← args.string? call "curve" with
  | some curve =>
      let start ← args.number? call "start"
      let stop ← args.number? call "end"
      let startBar ← args.number? call "start_bar"
      let stopBar ← args.number? call "end_bar"
      let fromValue ← args.number? call "from"
      let toValue ← args.number? call "to"
      let frequency ← args.number? call "freq"
      let amplitude ← args.number? call "amplitude"
      let phase ← args.number? call "phase"
      return .curve
        { curve, start, stop, startBar, stopBar, fromValue, toValue, frequency, amplitude, phase }
  | none =>
      match args.get? "points" with
      | none => throw (.missingArgument call "curve or points")
      | some literal =>
          let points ← (automationPoints literal).mapError .malformedPoints
          let shape ← args.whole? call "shape"
          return .points points shape

/-! ## All edits -/

/-- The maker of the actions of an edit.  What does not depend on the track is settled first. -/
def builder (defaults : ClipDefaults) (args : Arguments) (edit : Edit) :
    Except RunError Builder := do
  match edit with
  | .newClip => return fun track _ => some <$> newClipAction defaults args track
  | .addFx => return fun track _ => some <$> addFxAction args track
  | .setTrack =>
      let props ← trackProps args
      return fun track _ => .ok (some (.setTrack track props))
  | .delete => return fun track _ => .ok (some (.deleteTrack track))
  | .deleteClip =>
      return fun track item => do
        return (← clipRef edit args item).map (.deleteClip track)
  | .setClip =>
      let props ← clipProps args
      return fun track item => do
        return (← clipRef edit args item).map (.setClip track · props)
  | .moveClip =>
      let destination ← clipDestination args
      return fun track item => do
        return (← clipSource args item).map (.setClipPosition track destination)
  | .addAutomation =>
      let param ← args.string edit.name "param"
      let body ← automation args
      return fun track _ => .ok (some (.addAutomation track param body))

end Edit

end StudioScript
