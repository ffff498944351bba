import StudioScript.Execution.Collection
import StudioScript.Execution.Error
import StudioScript.Settings.Basic

/-! # The state of a run

A run reads one session and changes one state: the track that calls go to, the index for the next
new track, the collections known by name, and the actions so far.  A step of a run (`Run`) either
returns or fails, and in both cases leaves a state behind.
-/

namespace StudioScript

/-- What a run reads and never changes. -/
structure Context where
  session : Session
  defaults : ClipDefaults := {}
deriving Inhabited

/-- Collections by name: the items of each. -/
abbrev Store := Members (List Item)

namespace Store

def collection? (store : Store) (name : String) : Option Collection :=
  (Members.get? name store).map fun items => ⟨name, items⟩

def keep (store : Store) (c : Collection) : Store := Members.insert c.name c.items store

end Store

namespace Session

/-- The tracks of the session as a collection. -/
def trackCollection (s : Session) : Collection := ⟨"tracks", s.tracks.map .track⟩

/-- The clips of the session as a collection. -/
def clipCollection (s : Session) : Collection := ⟨"clips", s.clips.map .clip⟩

def effectCollection (s : Session) (track : Nat) : Collection :=
  ⟨"fx_chain", (s.effectsOf track).map .effect⟩

end Session

/-- What a run changes. -/
structure RunState where
  currentTrack : Option Nat := none
  nextIndex : Nat := 0
  store : Store := []
  actions : List Action := []
deriving Repr, Inhabited

namespace RunState

/-- The state that a run over a session starts in. -/
def initial (session : Session) : RunState where
  nextIndex := session.tracks.length
  store := (Store.keep [] session.trackCollection).keep session.clipCollection

/-- The collection with a name.  Without one of this name, `fx_chain` is the chain of the current
    track. -/
def collection? (session : Session) (s : RunState) (name : String) : Option Collection :=
  match s.store.collection? name with
  | some c => some c
  | none =>
      if name = "fx_chain" then s.currentTrack.map session.effectCollection else none

end RunState

/-- A step of a run. -/
abbrev Run := EStateM RunError RunState

namespace Run

/-- Takes a result over, or fails with its error. -/
def lift {α : Type} : Except RunError α → Run α
  | .ok x => pure x
  | .error e => throw e

def emit (actions : List Action) : Run Unit :=
  modify fun s => { s with actions := s.actions ++ actions }

def setTrack (track : Option Nat) : Run Unit := modify fun s => { s with currentTrack := track }

def keep (c : Collection) : Run Unit := modify fun s => { s with store := s.store.keep c }

def resolve (session : Session) (name : String) : Run Collection := do
  match (← get).collection? session name with
  | some c => return c
  | none => throw (.noCollection name)

/-- The track that calls go to, for a call that needs one. -/
def requireTrack (call : String) : Run Nat := do
  match (← get).currentTrack with
  | some track => return track
  | none => throw (.noTrackContext call)

/-- Runs a step of which a failure does not matter.  A failed step leaves no actions behind. -/
def attempt (step : Run Unit) : Run Unit := fun s =>
  match step s with
  | .ok _ s' => .ok () s'
  | .error _ s' => .ok () { s' with actions := s'.actions.take s.actions.length }

end Run

end StudioScript
