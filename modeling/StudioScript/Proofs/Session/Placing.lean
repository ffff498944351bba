import StudioScript.Proofs.Session.Indices

/-! # What a loaded session shows

A session that is loaded has the tracks of its snapshot, in their order and with their clips and
effects; only indices are filled in, and clips and effects are put on the track that they are listed
under (`Snapshot.ShowsTrack`).  It does not matter which of the two forms the snapshot has, and a
session is not changed by placing its tracks once more (`Session.ofJson_places`).
-/

theorem List.mapIdx_eq_self {α : Type} {f : Nat → α → α} {xs : List α}
    (fixed : ∀ n, ∀ x ∈ xs, f n x = x) : xs.mapIdx f = xs := by
  refine List.ext_getElem (by simp) fun n _ inside => ?_
  rw [List.getElem_mapIdx, fixed n _ (List.getElem_mem inside)]

namespace StudioScript

/-! ## Placing what is placed -/

theorem Clip.placeOn_eq_self {c : Clip} {track : Nat} (placed : c.IsPlacedOn track)
    (position : Nat) : c.placeOn track position = c := by
  obtain ⟨indexed, on⟩ := placed
  obtain ⟨i, index⟩ := Option.isSome_iff_exists.mp indexed
  rw [placeOn, index, ← on, Option.getD_some, ← index]

theorem Effect.placeOn_eq_self {e : Effect} {track : Nat} (placed : e.IsPlacedOn track)
    (position : Nat) : e.placeOn track position = e := by
  obtain ⟨indexed, on⟩ := placed
  obtain ⟨i, index⟩ := Option.isSome_iff_exists.mp indexed
  rw [placeOn, index, ← on, Option.getD_some, ← index]

theorem Track.placeAt_eq_self {t : Track} (placed : t.IsPlaced) (position : Nat) :
    t.placeAt position = t := by
  obtain ⟨i, index, clips, effects⟩ := placed
  have clips' : t.clips.mapIdx (Clip.placeOn i) = t.clips :=
    List.mapIdx_eq_self fun n c member => Clip.placeOn_eq_self (clips c member) n
  have effects' : t.effects.mapIdx (Effect.placeOn i) = t.effects :=
    List.mapIdx_eq_self fun n e member => Effect.placeOn_eq_self (effects e member) n
  simp only [placeAt, index, Option.getD_some, clips', effects']
  rw [← index]

theorem Session.ofTracks_tracks (session : Session) : ofTracks session.tracks = session := by
  have same : session.tracks.mapIdx Track.placeAt = session.tracks :=
    List.mapIdx_eq_self fun n t member => Track.placeAt_eq_self (session.isPlaced t member) n
  obtain ⟨tracks, isPlaced⟩ := session
  simp only [ofTracks, same]

/-- Some track is selected if and only if the selected track has an index. -/
theorem Session.exists_selectedIndex?_iff (session : Session) :
    (∃ i, session.selectedIndex? = some i) ↔ ∃ t ∈ session.tracks, t.selected = true := by
  constructor
  · rintro ⟨i, selected⟩
    obtain ⟨t, found, _⟩ := Option.bind_eq_some_iff.mp selected
    exact ⟨t, List.mem_of_find?_eq_some found, List.find?_some found⟩
  · rintro ⟨t, member, selected⟩
    obtain ⟨first, found⟩ :=
      Option.isSome_iff_exists.mp (List.find?_isSome.mpr ⟨t, member, selected⟩)
    obtain ⟨i, index, _⟩ := session.isPlaced first (List.mem_of_find?_eq_some found)
    exact ⟨i, by rw [selectedIndex?, found, Option.bind_some, index]⟩

namespace Snapshot

/-! ## The two forms of a snapshot -/

/-- The tracks that the member `state` of a snapshot has. -/
def stateTracks? (json : Json) : Option Json := (json.get? "state").bind (Json.get? "tracks")

/-- The list of tracks of a snapshot: that of its member `state`, or else its own. -/
def trackList? (json : Json) : Option Json := (stateTracks? json).or (json.get? "tracks")

theorem get?_tracks_container (json : Json) :
    (container json).get? "tracks" = trackList? json := by
  unfold container trackList? stateTracks?
  cases json.get? "state" with
  | none => rfl
  | some state => cases tracks : state.get? "tracks" <;> simp [tracks]

theorem trackList?_inside_state {json : Json} (own : stateTracks? json = none) :
    trackList? (.obj [("state", json)]) = trackList? json := by
  have inside : stateTracks? (.obj [("state", json)]) = json.get? "tracks" := rfl
  rw [trackList?, inside, trackList?, own, Option.none_or]
  exact Option.or_none

/-! ## What is shown -/

/-- Whether two lists have the same length, and are related at every place. -/
def Placewise {α β : Type} (related : Nat → α → β → Prop) (xs : List α) (ys : List β) :
    Prop :=
  xs.length = ys.length ∧ ∀ n x y, xs[n]? = some x → ys[n]? = some y → related n x y

/-- Whether a clip is the one that an object gives, at a place among the clips on the track with an
    index.  It has the index that the object gives, or else its place, and its track is that track,
    whatever track the object gives. -/
def ShowsClip (track place : Nat) (object : Json) (c : Clip) : Prop :=
  ∃ given, clip object = .ok given ∧
    c = { given with index := some ((givenIndex? object).getD place), track := some track }

/-- Whether an effect is the one that an object gives, at a place in the chain of the track with an
    index. -/
def ShowsEffect (track place : Nat) (object : Json) (e : Effect) : Prop :=
  ∃ given, effect object = .ok given ∧
    e = { given with index := some ((givenIndex? object).getD place), track := some track }

/-- Whether a track is the one that an object gives, at a place among the tracks, with the clips and
    the effects that the object gives, each at its place.  The track has the index that the object
    gives, or else its place. -/
structure ShowsTrack (place : Nat) (object : Json) (t : Track) : Prop where
  members : ∃ given, track object = .ok given ∧
    t = { given with index := t.index, clips := t.clips, effects := t.effects }
  index : t.index = some ((givenIndex? object).getD place)
  clips : Placewise (ShowsClip ((givenIndex? object).getD place)) (clipObjects object) t.clips
  effects :
    Placewise (ShowsEffect ((givenIndex? object).getD place)) (effectObjects object) t.effects

/-- What is read from objects and then placed is related to the objects at every place, if what is
    read and placed at one place is. -/
theorem placewise_mapIdx {α : Type} {read : Json → Result α} {place : Nat → α → α}
    {related : Nat → Json → α → Prop}
    (placed : ∀ n object x, read object = .ok x → related n object (place n x))
    {objects : List Json} {xs : List α}
    (each : List.Forall₂ (fun object x => read object = .ok x) objects xs) :
    Placewise related objects (xs.mapIdx place) := by
  refine ⟨by rw [List.length_mapIdx, each.length_eq], fun n object y written found => ?_⟩
  obtain ⟨x, among, made⟩ := exists_getElem?_of_forall₂ each written
  rw [List.getElem?_mapIdx, among, Option.map_some] at found
  cases found
  exact placed n object x made

theorem showsClip_placeOn (track place : Nat) {object : Json} {c : Clip}
    (read : clip object = .ok c) : ShowsClip track place object (c.placeOn track place) :=
  ⟨c, read, by rw [Clip.placeOn, givenIndex?_of_optional (clip_eq_ok read).1]⟩

theorem showsEffect_placeOn (track place : Nat) {object : Json} {e : Effect}
    (read : effect object = .ok e) : ShowsEffect track place object (e.placeOn track place) :=
  ⟨e, read, by rw [Effect.placeOn, givenIndex?_of_optional (effect_eq_ok read).1]⟩

theorem showsTrack_placeAt (place : Nat) {object : Json} {t : Track}
    (read : track object = .ok t) : ShowsTrack place object (t.placeAt place) := by
  obtain ⟨indexed, clips, effects, _⟩ := track_eq_ok read
  have index : givenIndex? object = t.index := givenIndex?_of_optional indexed
  constructor
  · exact ⟨t, read, rfl⟩
  · rw [index, Track.placeAt]
  · rw [index]
    exact placewise_mapIdx (fun m _ _ => showsClip_placeOn _ m) (forall₂_of_list clips)
  · rw [index]
    exact placewise_mapIdx (fun m _ _ => showsEffect_placeOn _ m) (forall₂_of_list effects)

end Snapshot

open Snapshot

namespace Session

theorem ofJson_eq (json : Json) :
    ofJson json = ofTracks <$> list Snapshot.track (trackList? json) := by
  rw [ofJson, get?_tracks_container]
  cases list Snapshot.track (trackList? json) <;> rfl

/-- A snapshot inside a member `state` is loaded like the snapshot itself, unless that has tracks in
    such a member already.  A session that is loaded shows the tracks of the snapshot, each at its
    place.  In every session some track is selected if and only if there is an index of a selected
    track, and placing the tracks of a session again gives the session. -/
theorem ofJson_places :
    (∀ json, stateTracks? json = none → ofJson (.obj [("state", json)]) = ofJson json) ∧
    (∀ json session, ofJson json = .ok session →
      Placewise ShowsTrack (items (trackList? json)) session.tracks) ∧
    ∀ session : Session,
      ((∃ i, session.selectedIndex? = some i) ↔ ∃ t ∈ session.tracks, t.selected = true) ∧
      ofTracks session.tracks = session := by
  refine ⟨fun json own => ?_, fun json session loaded => ?_, fun session => ?_⟩
  · rw [ofJson_eq, ofJson_eq, trackList?_inside_state own]
  · obtain ⟨tracks, each, rfl⟩ := tracks_of_ofJson loaded
    rw [trackObjects, get?_tracks_container] at each
    exact placewise_mapIdx (fun n _ _ => showsTrack_placeAt n) each
  · exact ⟨session.exists_selectedIndex?_iff, session.ofTracks_tracks⟩

/-- A track with an index behind one whose index is null; its first clip has no index, and names
    another track than the one that it is listed under. -/
theorem ofJson_places_clip_elsewhere :
    let elsewhere : Json := .obj [("index", .null), ("track", .int 7)]
    let track : Json := .obj
      [("clips", .arr [elsewhere, .obj [("index", .real (Number.ofNat 5))]]),
        ("index", .real (Number.ofNat 2)), ("selected", .bool true)]
    let json : Json := .obj [("tracks", .arr [.obj [("index", .null)], track])]
    let clips : List Clip := [{ track := some 7 }, { index := some 5 }]
    let session := ofTracks [{}, { index := some 2, selected := true, clips }]
    stateTracks? json = none ∧ ofJson json = .ok session ∧
      ofJson (.obj [("state", json)]) = .ok session ∧ session.selectedIndex? = some 2 ∧
      (∃ t, session.tracks[1]? = some t ∧ ShowsTrack 1 track t ∧
        t.clips.map Clip.index = [some 0, some 5] ∧ t.clips.map Clip.track = [some 2, some 2]) ∧
      ofTracks session.tracks = session := by
  intro elsewhere track json clips session
  have two : index (.real (Number.ofNat 2)) = .ok 2 := by decide +kernel
  have five : index (.real (Number.ofNat 5)) = .ok 5 := by decide +kernel
  have seven : index (.int 7) = .ok 7 := by decide +kernel
  have own : stateTracks? json = none := rfl
  have loaded : ofJson json = .ok session := by
    simp [json, track, elsewhere, clips, session, ofJson, container, Json.get?, list,
      Snapshot.track, clip, members, Snapshot.optional, flag, boolean, two, five, seven, bind,
      Except.bind, pure, Except.pure, Functor.map, Except.map, unknown, trackKeys, clipKeys]
  obtain ⟨wrapped, shown, settled⟩ := ofJson_places
  refine ⟨own, loaded, (wrapped json own).trans loaded, rfl, ⟨_, rfl, ?_, rfl, rfl⟩, ?_⟩
  · exact (shown json session loaded).2 1 track _ rfl rfl
  · exact (settled session).2

end Session

end StudioScript
