/-! # Methods

The operations of a script.  An *edit* acts on a track or a clip and is chained onto a call that
says which; a *utility* reads or keeps data and may also start a statement.  Each method has one
canonical name and may have further spellings.
-/

namespace StudioScript

/-- An operation on a track or a clip. -/
inductive Edit where
  | newClip
  | addFx
  | setTrack
  | delete
  | deleteClip
  | setClip
  | moveClip
  | addAutomation
deriving DecidableEq, Repr, Inhabited

namespace Edit

def all : List Edit :=
  [.newClip, .addFx, .setTrack, .delete, .deleteClip, .setClip, .moveClip, .addAutomation]

def name : Edit → String
  | .newClip => "new_clip"
  | .addFx => "add_fx"
  | .setTrack => "set_track"
  | .delete => "delete"
  | .deleteClip => "delete_clip"
  | .setClip => "set_clip"
  | .moveClip => "move_clip"
  | .addAutomation => "add_automation"

def aliases : Edit → List String
  | .newClip => ["newClip"]
  | .addFx => ["addFX", "addFx", "add_instrument", "addInstrument"]
  | .setTrack =>
      ["setTrack", "set_volume", "setVolume", "set_pan", "setPan", "set_mute", "setMute",
        "set_solo", "setSolo", "set_name", "setName"]
  | .delete => []
  | .deleteClip => ["deleteClip"]
  | .setClip => ["setClip"]
  | .moveClip => ["moveClip", "set_clip_position", "setClipPosition"]
  | .addAutomation => ["addAutomation"]

end Edit

/-- An operation that reads or keeps data. -/
inductive Utility where
  | store
  | getTracks
  | getFxChain
deriving DecidableEq, Repr, Inhabited

namespace Utility

def all : List Utility := [.store, .getTracks, .getFxChain]

def name : Utility → String
  | .store => "store"
  | .getTracks => "get_tracks"
  | .getFxChain => "get_fx_chain"

def aliases : Utility → List String
  | .store => []
  | .getTracks => ["getTracks"]
  | .getFxChain => ["getFxChain", "getFXChain"]

end Utility

/-- An operation of a script. -/
inductive Method where
  | edit (edit : Edit)
  | utility (utility : Utility)
deriving DecidableEq, Repr, Inhabited

namespace Method

def all : List Method := Edit.all.map .edit ++ Utility.all.map .utility

def name : Method → String
  | .edit e => e.name
  | .utility u => u.name

/-- All spellings, the canonical one first. -/
def spellings : Method → List String
  | .edit e => e.name :: e.aliases
  | .utility u => u.name :: u.aliases

def ofName? (word : String) : Option Method := all.find? (·.spellings.contains word)

/-- Whether the method may start a statement. -/
def isUtility : Method → Bool
  | .utility _ => true
  | .edit _ => false

end Method

end StudioScript
