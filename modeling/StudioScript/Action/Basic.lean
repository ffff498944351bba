import StudioScript.Number.Basic

/-! # Actions

What a script comes to: a list of instructions for the studio.  Every action says which track it is
for, and `create_track` which index the new track gets.
-/

namespace StudioScript

/-- The properties that a track is given; only those that are there change. -/
structure TrackProps where
  name : Option String := none
  volumeDb : Option Number := none
  pan : Option Number := none
  mute : Option Bool := none
  solo : Option Bool := none
  selected : Option Bool := none
  color : Option String := none
deriving DecidableEq, Repr, Inhabited

def TrackProps.isEmpty (props : TrackProps) : Bool := props == {}

/-- The properties that a clip is given; only those that are there change. -/
structure ClipProps where
  name : Option String := none
  color : Option String := none
  selected : Option Bool := none
  length : Option Number := none
deriving DecidableEq, Repr, Inhabited

def ClipProps.isEmpty (props : ClipProps) : Bool := props == {}

/-- Which clip of a track is meant: by its index, its start in seconds or its start in bars. -/
inductive ClipRef where
  | clip (index : Nat)
  | position (seconds : Number)
  | bar (bar : Int)
deriving DecidableEq, Repr, Inhabited

/-- Where a clip is moved to. -/
inductive ClipDestination where
  | position (seconds : Number)
  | bar (bar : Int)
deriving DecidableEq, Repr, Inhabited

/-- Which clip is moved. -/
inductive ClipSource where
  | clip (index : Nat)
  | oldPosition (seconds : Number)
deriving DecidableEq, Repr, Inhabited

/-- When an automation point is reached. -/
inductive PointTime where
  | time (seconds : Number)
  | bar (bar : Number)
deriving DecidableEq, Repr, Inhabited

/-- A point of an automation. -/
structure AutomationPoint where
  when : PointTime
  value : Number
deriving DecidableEq, Repr, Inhabited

/-- An automation curve by its name, with its times, its range and its oscillation. -/
structure Curve where
  curve : String
  start : Option Number := none
  stop : Option Number := none
  startBar : Option Number := none
  stopBar : Option Number := none
  fromValue : Option Number := none
  toValue : Option Number := none
  frequency : Option Number := none
  amplitude : Option Number := none
  phase : Option Number := none
deriving DecidableEq, Repr, Inhabited

/-- How a parameter moves: along a named curve, or through points. -/
inductive Automation where
  | curve (curve : Curve)
  | points (points : List AutomationPoint) (shape : Option Int)
deriving DecidableEq, Repr, Inhabited

/-- An instruction for the studio. -/
inductive Action where
  | createTrack (instrument name : Option String) (index : Nat)
  | createClipAtBar (track : Nat) (bar lengthBars : Int)
  | createClip (track : Nat) (position length : Number)
  | addTrackFx (track : Nat) (fxname : String)
  | addInstrument (track : Nat) (fxname : String)
  | setTrack (track : Nat) (props : TrackProps)
  | deleteTrack (track : Nat)
  | deleteClip (track : Nat) (clip : ClipRef)
  | setClip (track : Nat) (clip : ClipRef) (props : ClipProps)
  | setClipPosition (track : Nat) (destination : ClipDestination) (source : ClipSource)
  | addAutomation (track : Nat) (param : String) (body : Automation)
deriving DecidableEq, Repr, Inhabited

namespace Action

def kind : Action → String
  | .createTrack .. => "create_track"
  | .createClipAtBar .. => "create_clip_at_bar"
  | .createClip .. => "create_clip"
  | .addTrackFx .. => "add_track_fx"
  | .addInstrument .. => "add_instrument"
  | .setTrack .. => "set_track"
  | .deleteTrack .. => "delete_track"
  | .deleteClip .. => "delete_clip"
  | .setClip .. => "set_clip"
  | .setClipPosition .. => "set_clip_position"
  | .addAutomation .. => "add_automation"

/-- The track that the action is for; of a new track, its index. -/
def target : Action → Nat
  | .createTrack _ _ index => index
  | .createClipAtBar track .. => track
  | .createClip track .. => track
  | .addTrackFx track _ => track
  | .addInstrument track _ => track
  | .setTrack track _ => track
  | .deleteTrack track => track
  | .deleteClip track _ => track
  | .setClip track .. => track
  | .setClipPosition track .. => track
  | .addAutomation track .. => track

end Action

end StudioScript
