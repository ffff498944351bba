import StudioScript.Action.Basic
import StudioScript.Json.Basic

/-! # Actions as JSON

Every action is written as one flat object: the kind under `action`, then the track, then all that
the action says, each under a key of its own.  What is not there is left out.
-/

namespace StudioScript

namespace Wire

abbrev Fields := List (String × Json)

/-- A member for a value that may be missing. -/
def optional {α : Type} (key : String) (write : α → Json) : Option α → Fields
  | some x => [(key, write x)]
  | none => []

def index (i : Nat) : Json := .int i

end Wire

open Wire

/-- The members for the properties of a track. -/
def TrackProps.fields (props : TrackProps) : Fields :=
  optional "name" .str props.name
    ++ optional "volume_db" .real props.volumeDb
    ++ optional "pan" .real props.pan
    ++ optional "mute" .bool props.mute
    ++ optional "solo" .bool props.solo
    ++ optional "selected" .bool props.selected
    ++ optional "color" .str props.color

/-- The members for the properties of a clip. -/
def ClipProps.fields (props : ClipProps) : Fields :=
  optional "name" .str props.name
    ++ optional "color" .str props.color
    ++ optional "selected" .bool props.selected
    ++ optional "length" .real props.length

/-- The member that says which clip is meant. -/
def ClipRef.field : ClipRef → String × Json
  | .clip i => ("clip", index i)
  | .position x => ("position", .real x)
  | .bar n => ("bar", .int n)

/-- The member that says where a clip is moved to. -/
def ClipDestination.field : ClipDestination → String × Json
  | .position x => ("position", .real x)
  | .bar n => ("bar", .int n)

/-- The member that says which clip is moved. -/
def ClipSource.field : ClipSource → String × Json
  | .clip i => ("clip", index i)
  | .oldPosition x => ("old_position", .real x)

/-- The member that says when a point is reached. -/
def PointTime.field : PointTime → String × Json
  | .time x => ("time", .real x)
  | .bar x => ("bar", .real x)

def AutomationPoint.toJson (p : AutomationPoint) : Json :=
  .obj [p.when.field, ("value", .real p.value)]

def Curve.fields (c : Curve) : Fields :=
  ("curve", .str c.curve)
    :: (optional "start" .real c.start
      ++ optional "end" .real c.stop
      ++ optional "start_bar" .real c.startBar
      ++ optional "end_bar" .real c.stopBar
      ++ optional "from" .real c.fromValue
      ++ optional "to" .real c.toValue
      ++ optional "freq" .real c.frequency
      ++ optional "amplitude" .real c.amplitude
      ++ optional "phase" .real c.phase)

def Automation.fields : Automation → Fields
  | .curve c => c.fields
  | .points ps shape =>
      ("points", .arr (ps.map AutomationPoint.toJson)) :: optional "shape" .int shape

namespace Action

/-- The members of an action behind its kind. -/
def fields : Action → Fields
  | .createTrack instrument name i =>
      optional "instrument" .str instrument ++ optional "name" .str name ++ [("index", index i)]
  | .createClipAtBar track bar lengthBars =>
      [("track", index track), ("bar", .int bar), ("length_bars", .int lengthBars)]
  | .createClip track position length =>
      [("track", index track), ("position", .real position), ("length", .real length)]
  | .addTrackFx track fxname => [("track", index track), ("fxname", .str fxname)]
  | .addInstrument track fxname => [("track", index track), ("fxname", .str fxname)]
  | .setTrack track props => ("track", index track) :: props.fields
  | .deleteTrack track => [("track", index track)]
  | .deleteClip track clip => [("track", index track), clip.field]
  | .setClip track clip props => ("track", index track) :: clip.field :: props.fields
  | .setClipPosition track destination source =>
      [("track", index track), destination.field, source.field]
  | .addAutomation track param body =>
      ("track", index track) :: ("param", .str param) :: body.fields

def toJson (a : Action) : Json := .obj (("action", .str a.kind) :: a.fields)

end Action

end StudioScript
