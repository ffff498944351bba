import Mathlib.Data.List.Nodup
import StudioScript.Proofs.Session.Loading

/-! # Indices of loaded items

An object of a snapshot that gives no index gets its position as its index, whatever the others
give (`Snapshot.indicesOf`).  The indices of a list are therefore distinct if and only if those that
are given are, and none of these is the position of an object that gives none
(`Session.indices_distinct_iff`).  In a session whose tracks have distinct indices, an index leads
back to the one track that has it.
-/

namespace StudioScript

namespace Snapshot

/-- The index that an object gives, if it gives one. -/
def givenIndex? (object : Json) : Option Nat :=
  (((object.get? "index").bind Json.number?).bind Number.whole?).map Int.toNat

/-- The indices of what is loaded from objects: the one that each object gives, or else its
    position. -/
def indicesOf (objects : List Json) : List (Option Nat) :=
  objects.mapIdx fun n object => some ((givenIndex? object).getD n)

/-- Whether the indices that objects give are distinct. -/
def GivesDistinct (objects : List Json) : Prop := (objects.filterMap givenIndex?).Nodup

/-- Whether no object gives as its index the position of one that gives none. -/
def LeavesPositions (objects : List Json) : Prop :=
  ∀ n object, objects[n]? = some object → givenIndex? object = none →
    n ∉ objects.filterMap givenIndex?

/-- The index that is read is the one that is given. -/
theorem givenIndex?_of_optional {object : Json} {i : Option Nat}
    (read : optional index (object.get? "index") = .ok i) : givenIndex? object = i := by
  unfold optional at read
  unfold givenIndex?
  split at read
  · next missing =>
    cases read
    rw [missing]
    rfl
  · next null =>
    cases read
    rw [null]
    rfl
  · next given =>
    obtain ⟨k, made, rfl⟩ := Except.map_eq_ok.mp read
    rw [given, Option.bind_some, index_eq_ok made]

/-! ## Filling in -/

/-- Positions filled in for what is missing give distinct numbers if and only if the given ones are
    distinct, and none of them is a position that is filled in. -/
theorem nodup_filled_iff {α : Type} (given? : α → Option Nat) (xs : List α) :
    (xs.mapIdx fun n x => some ((given? x).getD n)).Nodup ↔
      (xs.filterMap given?).Nodup ∧
        ∀ n x, xs[n]? = some x → given? x = none → n ∉ xs.filterMap given? := by
  simp only [List.Nodup, List.pairwise_filterMap]
  simp only [List.pairwise_iff_getElem, List.getElem_mapIdx, List.length_mapIdx, ne_eq,
    Option.some.injEq]
  constructor
  · intro distinct
    refine ⟨fun i j inside inside' before b first b' second same => ?_,
      fun n x found missing taken => ?_⟩
    · apply distinct i j inside inside' before
      rw [first, second, same, Option.getD_some, Option.getD_some]
    · obtain ⟨y, member, gives⟩ := List.mem_filterMap.mp taken
      obtain ⟨m, inside, rfl⟩ := List.mem_iff_getElem.mp member
      obtain ⟨inside', rfl⟩ := List.getElem?_eq_some_iff.mp found
      have same : (given? xs[m]).getD m = (given? xs[n]).getD n := by
        rw [gives, missing, Option.getD_some, Option.getD_none]
      rcases Nat.lt_trichotomy m n with before | rfl | behind
      · exact distinct m n inside inside' before same
      · rw [gives] at missing
        cases missing
      · exact distinct n m inside' inside behind same.symm
  · rintro ⟨distinct, free⟩ i j inside inside' before same
    have taken {k m : Nat} (inside : k < xs.length) (gives : given? xs[k] = some m) :
        m ∈ xs.filterMap given? :=
      List.mem_filterMap.mpr ⟨xs[k], List.getElem_mem inside, gives⟩
    -- A number that is given may be given again, or be a position; two positions always differ.
    cases first : given? xs[i] with
    | none =>
      cases second : given? xs[j] with
      | none =>
        rw [first, second, Option.getD_none, Option.getD_none] at same
        exact Nat.ne_of_lt before same
      | some b =>
        rw [first, second, Option.getD_none, Option.getD_some] at same
        subst same
        exact free i xs[i] (List.getElem?_eq_getElem inside) first (taken inside' second)
    | some b =>
      cases second : given? xs[j] with
      | none =>
        rw [first, second, Option.getD_some, Option.getD_none] at same
        subst same
        exact free b xs[b] (List.getElem?_eq_getElem inside') second (taken inside first)
      | some b' =>
        rw [first, second, Option.getD_some, Option.getD_some] at same
        exact distinct i j inside inside' before b first b' second same

theorem nodup_indicesOf_iff (objects : List Json) :
    (indicesOf objects).Nodup ↔ GivesDistinct objects ∧ LeavesPositions objects :=
  nodup_filled_iff givenIndex? objects

/-- What is read from objects has their indices when it is placed, if placing fills in what was read
    as missing. -/
theorem indices_placed {α : Type} {read : Json → Result α} {indexOf : α → Option Nat}
    {place : Nat → α → α} (given : ∀ object x, read object = .ok x → givenIndex? object = indexOf x)
    (placed : ∀ n x, indexOf (place n x) = some ((indexOf x).getD n)) {objects : List Json}
    {xs : List α} (each : List.Forall₂ (fun object x => read object = .ok x) objects xs) :
    (xs.mapIdx place).map indexOf = indicesOf objects := by
  refine List.ext_getElem (by simp [indicesOf, each.length_eq]) fun n inside inside' => ?_
  rw [List.length_map, List.length_mapIdx] at inside
  have made := each.get (each.length_eq ▸ inside) inside
  simp only [List.get_eq_getElem] at made
  simp only [indicesOf, List.getElem_map, List.getElem_mapIdx, placed, given _ _ made]

end Snapshot

open Snapshot

namespace Session

/-! ## Looking up -/

/-- In a session whose tracks have distinct indices, the index of a track leads back to it. -/
theorem track?_of_nodup {session : Session} (distinct : (session.tracks.map Track.index).Nodup)
    {t : Track} (member : t ∈ session.tracks) {i : Nat} (indexed : t.index = some i) :
    session.track? i = some t := by
  unfold track?
  cases found : session.tracks.find? fun u => u.index == some i with
  | none =>
    have missing := List.find?_eq_none.mp found t member
    simp [indexed] at missing
  | some u =>
    have indexed' : u.index = some i := by simpa using List.find?_some found
    have same := List.inj_on_of_nodup_map distinct (List.mem_of_find?_eq_some found) member
      (indexed'.trans indexed.symm)
    rw [same]

/-! ## Loaded sessions -/

/-- In a session that is loaded, each track has the index that the snapshot gives, or else its
    position, whatever the others give.  These indices are distinct if and only if those that the
    snapshot gives are, and none of them is the position of a track that it gives none; then each
    track and its effects are found under its index.  The same holds of the indices of the clips and
    of the effects on each track, with the same condition on the list of these. -/
theorem indices_distinct_iff {json : Json} {session : Session}
    (loaded : ofJson json = .ok session) :
    session.tracks.map Track.index = indicesOf (trackObjects json) ∧
    ((session.tracks.map Track.index).Nodup ↔
      GivesDistinct (trackObjects json) ∧ LeavesPositions (trackObjects json)) ∧
    (GivesDistinct (trackObjects json) → LeavesPositions (trackObjects json) →
      ∀ t ∈ session.tracks, ∃ i, t.index = some i ∧ session.track? i = some t ∧
        session.effectsOf i = t.effects) ∧
    ∀ (n : Nat) (t : Track), session.tracks[n]? = some t →
      ∃ object, (trackObjects json)[n]? = some object ∧
      t.clips.map Clip.index = indicesOf (clipObjects object) ∧
      ((t.clips.map Clip.index).Nodup ↔
        GivesDistinct (clipObjects object) ∧ LeavesPositions (clipObjects object)) ∧
      t.effects.map Effect.index = indicesOf (effectObjects object) ∧
      ((t.effects.map Effect.index).Nodup ↔
        GivesDistinct (effectObjects object) ∧ LeavesPositions (effectObjects object)) := by
  obtain ⟨tracks, each, rfl⟩ := tracks_of_ofJson loaded
  have indices : (ofTracks tracks).tracks.map Track.index = indicesOf (trackObjects json) :=
    indices_placed (fun _ _ made => givenIndex?_of_optional (track_eq_ok made).1)
      (fun _ _ => rfl) each
  have distinct := nodup_indicesOf_iff (trackObjects json)
  rw [← indices] at distinct
  refine ⟨indices, distinct, fun given free t member => ?_, fun n t found => ?_⟩
  · obtain ⟨i, indexed, _⟩ := (ofTracks tracks).isPlaced t member
    have leads := track?_of_nodup (distinct.mpr ⟨given, free⟩) member indexed
    exact ⟨i, indexed, leads, by rw [effectsOf, leads]⟩
  · have placed : (tracks.mapIdx Track.placeAt)[n]? = some t := found
    rw [List.getElem?_mapIdx] at placed
    obtain ⟨t', among, rfl⟩ := Option.map_eq_some_iff.mp placed
    obtain ⟨object, written, made⟩ := exists_getElem?_of_forall₂ each.flip among
    obtain ⟨_, clips, effects, _⟩ := track_eq_ok made
    have clipIndices : (t'.placeAt n).clips.map Clip.index = indicesOf (clipObjects object) :=
      indices_placed (fun _ _ made => givenIndex?_of_optional (clip_eq_ok made).1)
        (fun _ _ => rfl) (forall₂_of_list clips)
    have effectIndices :
        (t'.placeAt n).effects.map Effect.index = indicesOf (effectObjects object) :=
      indices_placed (fun _ _ made => givenIndex?_of_optional (effect_eq_ok made).1)
        (fun _ _ => rfl) (forall₂_of_list effects)
    refine ⟨object, written, clipIndices, ?_, effectIndices, ?_⟩
    · rw [clipIndices]
      exact nodup_indicesOf_iff _
    · rw [effectIndices]
      exact nodup_indicesOf_iff _

/-- A track that gives no index stands behind one that gives index 0.  It gets its position, which
    is free, and each of the two tracks is found under its index. -/
theorem indices_distinct_iff_behind_first :
    let json : Json := .obj [("tracks", .arr [.obj [("index", .int 0)], .obj []])]
    let session := ofTracks [{ index := some 0 }, {}]
    ofJson json = .ok session ∧ session.tracks.map Track.index = [some 0, some 1] ∧
      GivesDistinct (trackObjects json) ∧ LeavesPositions (trackObjects json) ∧
      ∀ t ∈ session.tracks, ∃ i, t.index = some i ∧ session.track? i = some t ∧
        session.effectsOf i = t.effects := by
  intro json session
  have loaded : ofJson json = .ok session := by
    have zero : index (.int 0) = .ok 0 := by decide +kernel
    simp [json, session, ofJson, container, Json.get?, list, track, members, Snapshot.optional,
      flag, zero, bind, Except.bind, pure, Except.pure, Functor.map, Except.map, unknown, trackKeys]
  have indices : session.tracks.map Track.index = [some 0, some 1] := rfl
  obtain ⟨_, distinct, found, _⟩ := indices_distinct_iff loaded
  obtain ⟨given, free⟩ := distinct.mp (indices ▸ by decide)
  exact ⟨loaded, indices, given, free, found given free⟩

/-- A track that gives no index stands in front of one that gives index 0, and so do a clip and an
    effect on the latter.  The positions of the former are taken: no list gives an index twice, and
    yet both tracks have index 0, and so have both clips and both effects of the second track, which
    is not found under its index. -/
theorem indices_taken_by_given :
    let first : Json := .obj [("index", .int 0)]
    let full : Json :=
      .obj [("clips", .arr [.obj [], first]), ("fx", .arr [.obj [], first]), ("index", .int 0)]
    let json : Json := .obj [("tracks", .arr [.obj [], full])]
    let t : Track :=
      { index := some 0, clips := [{}, { index := some 0 }], effects := [{}, { index := some 0 }] }
    let session := ofTracks [{}, t]
    let placed := t.placeAt 1
    ofJson json = .ok session ∧ GivesDistinct (trackObjects json) ∧
      (∀ object ∈ trackObjects json,
        GivesDistinct (clipObjects object) ∧ GivesDistinct (effectObjects object)) ∧
      session.tracks.map Track.index = [some 0, some 0] ∧
      session.tracks[1]? = some placed ∧ session.track? 0 ≠ some placed ∧
      session.effectsOf 0 ≠ placed.effects ∧
      placed.clips.map Clip.index = [some 0, some 0] ∧
      placed.effects.map Effect.index = [some 0, some 0] := by
  intro first full json t session placed
  have zero : index (.int 0) = .ok 0 := by decide +kernel
  refine ⟨?_, ?_, ?_, rfl, rfl, ?_, ?_, rfl, rfl⟩
  · simp [json, full, first, t, session, ofJson, container, Json.get?, list, track, clip, effect,
      members, Snapshot.optional, flag, zero, bind, Except.bind, pure, Except.pure, Functor.map,
      Except.map, unknown, trackKeys, clipKeys, effectKeys]
  · show List.Nodup _
    decide +kernel
  · have objects : trackObjects json = [.obj [], full] := rfl
    rw [objects]
    rintro object (_ | ⟨_, _ | ⟨_, ⟨⟩⟩⟩)
    · exact ⟨List.nodup_nil, List.nodup_nil⟩
    · constructor <;>
      · show List.Nodup _
        decide +kernel
  · intro same
    have lengths := congrArg (Option.map fun u => u.effects.length) same
    cases lengths
  · intro same
    cases same

end Session

end StudioScript
