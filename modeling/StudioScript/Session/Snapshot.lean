import StudioScript.Json.Reader
import StudioScript.Number.Text
import StudioScript.Session.Basic

/-! # Loading snapshots

A snapshot is a JSON object with a member `tracks`, or with a member `state` that has one.  In it
every member of a track, clip or effect may be missing, and null is as good as missing.  An index
may be written as a whole number or as a number like `2.0`.

The members of an object are read in the order of their keys, so that of two faults in it the one
under the lesser key is found.
-/

namespace StudioScript

/-- What is wrong with a snapshot. -/
inductive SnapshotError where
  | notJson
  | wrongShape
  | invalidIndex (found : Number)
deriving DecidableEq, Repr

/-- The wording of the error, where it has a fixed one. -/
def SnapshotError.message? : SnapshotError → Option String
  | .invalidIndex found =>
      some ("invalid session snapshot: expected a non-negative whole-number index, got "
        ++ found.text)
  | _ => none

namespace Snapshot

/-- What reading a part of a snapshot results in. -/
abbrev Result := Except SnapshotError

/-! ## Members -/

def optional {α : Type} (read : Json → Result α) : Option Json → Result (Option α)
  | none | some .null => .ok none
  | some json => some <$> read json

def string : Json → Result String
  | .str s => .ok s
  | _ => .error .wrongShape

def boolean : Json → Result Bool
  | .bool b => .ok b
  | _ => .error .wrongShape

def number (json : Json) : Result Number :=
  match json.number? with
  | some x => .ok x
  | none => .error .wrongShape

/-- No index in a snapshot reaches this. -/
def indexBound : Int := 9000000000000000

/-- An index: a whole number from zero on. -/
def index (json : Json) : Result Nat := do
  let x ← number json
  match x.whole? with
  | some i => if 0 ≤ i ∧ i < indexBound then return i.toNat else throw (.invalidIndex x)
  | none => throw (.invalidIndex x)

/-- A boolean that is false if it is missing. -/
def flag (json : Option Json) : Result Bool := do
  return (← optional boolean json).getD false

def members : Json → Result (Members Json)
  | .obj members => .ok members
  | _ => .error .wrongShape

/-- The members of an object that are not among the known ones. -/
def unknown (known : List String) (members : Members Json) : Members Json :=
  members.filter fun (key, _) => !known.contains key

/-- A list; none if it is missing. -/
def list {α : Type} (read : Json → Result α) (json : Option Json) : Result (List α) :=
  match json with
  | none | some .null => .ok []
  | some (.arr items) => items.mapM read
  | some _ => .error .wrongShape

/-! ## Tracks and what is on them -/

/-- The members of a clip.  `start` is another key for its position. -/
def clipKeys : List String :=
  ["bar", "color", "index", "length", "name", "position", "selected", "start", "track"]

def clip (json : Json) : Result Clip := do
  let ms ← members json
  let bar ← optional number (ms.get? "bar")
  let color ← optional string (ms.get? "color")
  let index ← optional index (ms.get? "index")
  let length ← optional number (ms.get? "length")
  let name ← optional string (ms.get? "name")
  let position ← optional number (ms.get? "position")
  let selected ← flag (ms.get? "selected")
  let position ← match ms.get? "position", ms.get? "start" with
    | some _, some _ => throw .wrongShape
    | none, start => optional number start
    | some _, none => pure position
  let track ← optional Snapshot.index (ms.get? "track")
  return {
    index, position, bar, length, name, selected, color, track, extra := unknown clipKeys ms }

def effectKeys : List String := ["enabled", "index", "name", "track"]

def effect (json : Json) : Result Effect := do
  let ms ← members json
  let enabled ← optional boolean (ms.get? "enabled")
  let index ← optional index (ms.get? "index")
  let name ← optional string (ms.get? "name")
  let track ← optional Snapshot.index (ms.get? "track")
  return { index, name, enabled, track, extra := unknown effectKeys ms }

def trackKeys : List String :=
  ["clips", "fx", "index", "muted", "name", "pan", "selected", "soloed", "volume_db"]

def track (json : Json) : Result Track := do
  let ms ← members json
  let clips ← list clip (ms.get? "clips")
  let effects ← list effect (ms.get? "fx")
  let index ← optional index (ms.get? "index")
  let muted ← flag (ms.get? "muted")
  let name ← optional string (ms.get? "name")
  let pan ← optional number (ms.get? "pan")
  let selected ← flag (ms.get? "selected")
  let soloed ← flag (ms.get? "soloed")
  let volumeDb ← optional number (ms.get? "volume_db")
  return {
    index, name, selected, muted, soloed, volumeDb, pan, clips, effects
    extra := unknown trackKeys ms }

/-- The object that holds the tracks: the member `state` if that has tracks, else the snapshot. -/
def container (json : Json) : Json :=
  match json.get? "state" with
  | some state => if (state.get? "tracks").isSome then state else json
  | none => json

end Snapshot

namespace Session

/-- The session that a snapshot shows.  A snapshot without tracks shows an empty one. -/
def ofJson (json : Json) : Except SnapshotError Session := do
  let tracks ← Snapshot.list Snapshot.track ((Snapshot.container json).get? "tracks")
  return ofTracks tracks

/-- The session that the text of a snapshot shows. -/
def ofText (text : String) : Except SnapshotError Session :=
  match Json.ofText? text with
  | some json => ofJson json
  | none => .error .notJson

end Session

end StudioScript
