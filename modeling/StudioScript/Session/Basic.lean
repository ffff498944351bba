import StudioScript.Json.Basic

/-! # Sessions

A session is what a snapshot of the studio shows: tracks, and on each track clips and a chain of
effects.  Members of the snapshot that the library does not know are kept beside the known ones.

A session is *placed*: every track, clip and effect has an index, and every clip and effect names
the track that it is on.  `Session.ofTracks` places tracks that come without these.
-/

namespace StudioScript

/-- A clip on a track.  Its index counts the clips of its track; times are in seconds. -/
structure Clip where
  index : Option Nat := none
  position : Option Number := none
  bar : Option Number := none
  length : Option Number := none
  name : Option String := none
  selected : Bool := false
  color : Option String := none
  track : Option Nat := none
  extra : Members Json := []
deriving Repr, Inhabited

/-- An effect in the chain of a track. -/
structure Effect where
  index : Option Nat := none
  name : Option String := none
  enabled : Option Bool := none
  track : Option Nat := none
  extra : Members Json := []
deriving Repr, Inhabited

/-- A track.  Indices count from zero. -/
structure Track where
  index : Option Nat := none
  name : Option String := none
  selected : Bool := false
  muted : Bool := false
  soloed : Bool := false
  volumeDb : Option Number := none
  pan : Option Number := none
  clips : List Clip := []
  effects : List Effect := []
  extra : Members Json := []
deriving Repr, Inhabited

/-! ## Placing -/

/-- Whether the clip has an index and is on the track with the given one. -/
def Clip.IsPlacedOn (track : Nat) (c : Clip) : Prop := c.index.isSome ∧ c.track = some track

/-- Whether the effect has an index and is on the track with the given one. -/
def Effect.IsPlacedOn (track : Nat) (e : Effect) : Prop := e.index.isSome ∧ e.track = some track

/-- Whether the track has an index, and all that is on it is placed on it. -/
def Track.IsPlaced (t : Track) : Prop :=
  ∃ i, t.index = some i ∧ (∀ c ∈ t.clips, c.IsPlacedOn i) ∧ ∀ e ∈ t.effects, e.IsPlacedOn i

/-- The clip on a track, at a position among its clips that serves as its index if it has none. -/
def Clip.placeOn (track position : Nat) (c : Clip) : Clip :=
  { c with index := some (c.index.getD position), track := some track }

/-- The effect on a track, at a position in its chain that serves as its index if it has none. -/
def Effect.placeOn (track position : Nat) (e : Effect) : Effect :=
  { e with index := some (e.index.getD position), track := some track }

/-- The track at a position among the tracks that serves as its index if it has none. -/
def Track.placeAt (position : Nat) (t : Track) : Track :=
  let i := t.index.getD position
  { t with
    index := some i
    clips := t.clips.mapIdx (Clip.placeOn i)
    effects := t.effects.mapIdx (Effect.placeOn i) }

/-- Placing a track places it with all that is on it. -/
theorem Track.isPlaced_placeAt (position : Nat) (t : Track) : (t.placeAt position).IsPlaced := by
  refine ⟨t.index.getD position, rfl, ?_, ?_⟩
  · intro c placed
    obtain ⟨n, _, rfl⟩ := List.mem_mapIdx.mp placed
    exact ⟨rfl, rfl⟩
  · intro e placed
    obtain ⟨n, _, rfl⟩ := List.mem_mapIdx.mp placed
    exact ⟨rfl, rfl⟩

/-! ## Sessions -/

/-- The tracks of a snapshot, all of them placed. -/
structure Session where
  tracks : List Track
  isPlaced : ∀ t ∈ tracks, t.IsPlaced

namespace Session

def empty : Session := ⟨[], by simp⟩

instance : Inhabited Session := ⟨empty⟩

/-- The session of the given tracks, each placed at its position among them. -/
def ofTracks (tracks : List Track) : Session where
  tracks := tracks.mapIdx Track.placeAt
  isPlaced := by
    intro t placed
    obtain ⟨n, _, rfl⟩ := List.mem_mapIdx.mp placed
    exact Track.isPlaced_placeAt n _

def track? (s : Session) (index : Nat) : Option Track :=
  s.tracks.find? fun t => t.index == some index

/-- The clips of all tracks, in the order of the tracks. -/
def clips (s : Session) : List Clip := s.tracks.flatMap Track.clips

/-- The effects on the track with an index; none if there is no such track. -/
def effectsOf (s : Session) (index : Nat) : List Effect :=
  match s.track? index with
  | some t => t.effects
  | none => []

def selectedIndex? (s : Session) : Option Nat :=
  (s.tracks.find? Track.selected).bind Track.index

end Session

end StudioScript
