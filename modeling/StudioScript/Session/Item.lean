import StudioScript.Literal.Json
import StudioScript.Session.Basic

/-! # Items

What collections hold: tracks, clips and effects of the session, and literals that a script has
stored.  Predicates see an item through its fields (`Item.field?`), and calls reach the track that
it belongs to (`Item.target?`).
-/

namespace StudioScript

/-- An element of a collection. -/
inductive Item where
  | track (value : Track)
  | clip (value : Clip)
  | effect (value : Effect)
  | literal (value : Literal)
deriving Repr, Inhabited

namespace Item

def indexLiteral (i : Nat) : Literal := .number (Number.ofNat i)

/-- A member that the library does not know, as the value of a field. -/
def extraField? (extra : Members Json) (name : String) : Option Literal :=
  (extra.get? name).map Literal.ofJson

def trackField? (t : Track) (name : String) : Option Literal :=
  match name with
  | "index" => t.index.map indexLiteral
  | "name" => t.name.map .string
  | "selected" => some (.boolean t.selected)
  | "muted" | "mute" => some (.boolean t.muted)
  | "soloed" | "solo" => some (.boolean t.soloed)
  | "volume_db" | "volume" => t.volumeDb.map .number
  | "pan" => t.pan.map .number
  | "clip_count" => some (indexLiteral t.clips.length)
  | "fx_count" => some (indexLiteral t.effects.length)
  | _ => extraField? t.extra name

def clipField? (c : Clip) (name : String) : Option Literal :=
  match name with
  | "index" | "clip" => c.index.map indexLiteral
  | "position" | "start" => c.position.map .number
  | "bar" => c.bar.map .number
  | "length" => c.length.map .number
  | "name" => c.name.map .string
  | "selected" => some (.boolean c.selected)
  | "color" => c.color.map .string
  | "track" => c.track.map indexLiteral
  | _ => extraField? c.extra name

def effectField? (e : Effect) (name : String) : Option Literal :=
  match name with
  | "index" => e.index.map indexLiteral
  | "name" => e.name.map .string
  | "enabled" => e.enabled.map .boolean
  | "track" => e.track.map indexLiteral
  | _ => extraField? e.extra name

/-- The field of a literal under a name; only objects have fields. -/
def literalField? : Literal → String → Option Literal
  | .object fields, name => Members.get? name fields
  | _, _ => none

/-- The field of an item under a name, if it has one. -/
def field? (item : Item) (name : String) : Option Literal :=
  match item with
  | .track t => trackField? t name
  | .clip c => clipField? c name
  | .effect e => effectField? e name
  | .literal v => literalField? v name

/-- The largest index that there is. -/
def maxIndex : Nat := Nat.pow 2 64 - 1

/-- The track number that a literal writes: a whole number from zero on.  All numbers from the
    largest index on stand for that index. -/
def literalTarget? : Literal → Option Nat
  | .number x =>
      match x.whole? with
      | some i => if 0 ≤ i then some (min i.toNat maxIndex) else none
      | none => none
  | _ => none

/-- The track that calls on the item go to: a track itself, the track of a clip or an effect, or
    the track that a literal names in its field `track`, or if it has none in `index`. -/
def target? : Item → Option Nat
  | .track t => t.index
  | .clip c => c.track
  | .effect e => e.track
  | .literal v => ((literalField? v "track").or (literalField? v "index")).bind literalTarget?

end Item

end StudioScript
