import Mathlib.Data.List.Forall2
import StudioScript.Proofs.Members
import StudioScript.Proofs.Results
import StudioScript.Session.Item
import StudioScript.Session.Snapshot

/-! # From objects to items

A snapshot that loads has an object for every track, clip and effect of the session, and the session
has an item for every such object, at the same place (`Session.item_of_object`).  The readers of the
three kinds of objects are taken apart once, into what later modules need of each.
-/

namespace StudioScript

namespace Snapshot

/-! ## Lists -/

/-- The items of a list in a snapshot; none if it is missing. -/
def items : Option Json → List Json
  | some (.arr items) => items
  | _ => []

theorem forall₂_of_mapM {α : Type} {read : Json → Result α} {items : List Json} {xs : List α}
    (done : items.mapM read = .ok xs) :
    List.Forall₂ (fun item x => read item = .ok x) items xs := by
  induction items generalizing xs with
  | nil =>
    rw [List.mapM_nil] at done
    cases done
    exact .nil
  | cons item items inductionHypothesis =>
    rw [List.mapM_cons] at done
    obtain ⟨first, head, rest⟩ := Except.bind_eq_ok.mp done
    obtain ⟨others, tail, joined⟩ := Except.bind_eq_ok.mp rest
    cases joined
    exact .cons head (inductionHypothesis tail)

theorem exists_getElem?_of_forall₂ {α β : Type} {related : α → β → Prop} {xs : List α}
    {ys : List β} (each : List.Forall₂ related xs ys) {n : Nat} {x : α} (found : xs[n]? = some x) :
    ∃ y, ys[n]? = some y ∧ related x y := by
  induction each generalizing n with
  | nil => cases found
  | @cons x' y' xs ys first _ inductionHypothesis =>
    cases n with
    | zero =>
      cases found
      exact ⟨y', rfl, first⟩
    | succ n => exact inductionHypothesis found

/-- A list that is read has an element for each of the items, in their order. -/
theorem forall₂_of_list {α : Type} {read : Json → Result α} {json : Option Json} {xs : List α}
    (done : list read json = .ok xs) :
    List.Forall₂ (fun item x => read item = .ok x) (items json) xs := by
  unfold list at done
  split at done
  · cases done
    exact .nil
  · cases done
    exact .nil
  · exact forall₂_of_mapM done
  · cases done

/-! ## Objects -/

theorem number_eq_ok {json : Json} {x : Number} (read : number json = .ok x) :
    json.number? = some x := by
  unfold number at read
  split at read
  · next counts =>
    cases read
    exact counts
  · cases read

theorem index_eq_ok {json : Json} {i : Nat} (read : index json = .ok i) :
    (json.number?.bind Number.whole?).map Int.toNat = some i := by
  obtain ⟨x, counts, rest⟩ := Except.bind_eq_ok.mp read
  split at rest
  · next k denotes =>
    split at rest
    · cases rest
      rw [number_eq_ok counts, Option.bind_some, denotes, Option.map_some]
    · cases rest
  · cases rest

theorem members_eq_ok {json : Json} {ms : Members Json} (read : members json = .ok ms) :
    json = .obj ms := by
  cases json with
  | obj members =>
    cases read
    rfl
  | null | bool | int | real | str | arr => cases read

/-- Members that are not among the known ones are kept under their keys. -/
theorem get?_unknown {known : List String} {key : String} (other : key ∉ known)
    (ms : Members Json) : Members.get? key (unknown known ms) = Members.get? key ms := by
  induction ms with
  | nil => rfl
  | cons member ms inductionHypothesis =>
    obtain ⟨k, value⟩ := member
    have behind : unknown known ((k, value) :: ms) =
        if known.contains k then unknown known ms else (k, value) :: unknown known ms := by
      simp only [unknown, List.filter_cons]
      cases known.contains k <;> rfl
    rw [behind, Members.get?_cons]
    split
    · next isKnown =>
      have differ : k ≠ key := by
        rintro rfl
        exact other (List.contains_iff_mem.mp isKnown)
      rw [inductionHypothesis, if_neg differ]
    · rw [Members.get?_cons, inductionHypothesis]

/-- What is kept of an object whose members are known under some keys: all the others. -/
def KeepsUnknown (known : List String) (object : Json) (extra : Members Json) : Prop :=
  ∀ key, key ∉ known → Members.get? key extra = object.get? key

theorem clip_eq_ok {object : Json} {c : Clip} (read : clip object = .ok c) :
    optional index (object.get? "index") = .ok c.index ∧
      (∃ key, optional number (object.get? key) = .ok c.position) ∧
      KeepsUnknown clipKeys object c.extra := by
  obtain ⟨ms, opened, rest⟩ := Except.bind_eq_ok.mp read
  obtain rfl := members_eq_ok opened
  obtain ⟨bar, _, rest⟩ := Except.bind_eq_ok.mp rest
  obtain ⟨color, _, rest⟩ := Except.bind_eq_ok.mp rest
  obtain ⟨index, indexed, rest⟩ := Except.bind_eq_ok.mp rest
  obtain ⟨length, _, rest⟩ := Except.bind_eq_ok.mp rest
  obtain ⟨name, _, rest⟩ := Except.bind_eq_ok.mp rest
  obtain ⟨position, placed, rest⟩ := Except.bind_eq_ok.mp rest
  obtain ⟨selected, _, rest⟩ := Except.bind_eq_ok.mp rest
  dsimp only at rest
  -- The position is written under one of two keys, and a clip with both is refused.
  split at rest
  · cases rest
  · obtain ⟨start, started, rest⟩ := Except.bind_eq_ok.mp rest
    obtain ⟨track, _, made⟩ := Except.bind_eq_ok.mp rest
    cases made
    exact ⟨indexed, ⟨"start", started⟩, fun key other => get?_unknown other ms⟩
  · obtain ⟨start, kept, rest⟩ := Except.bind_eq_ok.mp rest
    obtain ⟨track, _, made⟩ := Except.bind_eq_ok.mp rest
    cases made
    cases kept
    exact ⟨indexed, ⟨"position", placed⟩, fun key other => get?_unknown other ms⟩

theorem effect_eq_ok {object : Json} {e : Effect} (read : effect object = .ok e) :
    optional index (object.get? "index") = .ok e.index ∧
      KeepsUnknown effectKeys object e.extra := by
  obtain ⟨ms, opened, rest⟩ := Except.bind_eq_ok.mp read
  obtain rfl := members_eq_ok opened
  obtain ⟨enabled, _, rest⟩ := Except.bind_eq_ok.mp rest
  obtain ⟨index, indexed, rest⟩ := Except.bind_eq_ok.mp rest
  obtain ⟨name, _, rest⟩ := Except.bind_eq_ok.mp rest
  obtain ⟨track, _, made⟩ := Except.bind_eq_ok.mp rest
  cases made
  exact ⟨indexed, fun key other => get?_unknown other ms⟩

theorem track_eq_ok {object : Json} {t : Track} (read : track object = .ok t) :
    optional index (object.get? "index") = .ok t.index ∧
      list clip (object.get? "clips") = .ok t.clips ∧
      list effect (object.get? "fx") = .ok t.effects ∧
      KeepsUnknown trackKeys object t.extra := by
  obtain ⟨ms, opened, rest⟩ := Except.bind_eq_ok.mp read
  obtain rfl := members_eq_ok opened
  obtain ⟨clips, clipped, rest⟩ := Except.bind_eq_ok.mp rest
  obtain ⟨effects, chained, rest⟩ := Except.bind_eq_ok.mp rest
  obtain ⟨index, indexed, rest⟩ := Except.bind_eq_ok.mp rest
  obtain ⟨muted, _, rest⟩ := Except.bind_eq_ok.mp rest
  obtain ⟨name, _, rest⟩ := Except.bind_eq_ok.mp rest
  obtain ⟨pan, _, rest⟩ := Except.bind_eq_ok.mp rest
  obtain ⟨selected, _, rest⟩ := Except.bind_eq_ok.mp rest
  obtain ⟨soloed, _, rest⟩ := Except.bind_eq_ok.mp rest
  obtain ⟨volumeDb, _, made⟩ := Except.bind_eq_ok.mp rest
  cases made
  exact ⟨indexed, clipped, chained, fun key other => get?_unknown other ms⟩

/-! ## Places -/

/-- Where an object stands in a snapshot, and its item in the session: a track among the tracks, or
    a clip or an effect on the track at a place. -/
inductive Place where
  | track (n : Nat)
  | clip (n m : Nat)
  | effect (n m : Nat)
deriving DecidableEq, Repr

/-- The objects of the tracks. -/
def trackObjects (json : Json) : List Json := items ((container json).get? "tracks")

/-- The objects of the clips on a track. -/
def clipObjects (track : Json) : List Json := items (track.get? "clips")

/-- The objects of the effects on a track. -/
def effectObjects (track : Json) : List Json := items (track.get? "fx")

/-- The object at a place of a snapshot. -/
def object? (json : Json) : Place → Option Json
  | .track n => (trackObjects json)[n]?
  | .clip n m => (trackObjects json)[n]?.bind fun track => (clipObjects track)[m]?
  | .effect n m => (trackObjects json)[n]?.bind fun track => (effectObjects track)[m]?

/-- Whether an item is what an object at a place is read as, with an index if it gives none. -/
inductive LoadedAs (object : Json) : Place → Item → Prop where
  | track {n t} (read : Snapshot.track object = .ok t) :
      LoadedAs object (.track n) (.track (t.placeAt n))
  | clip {n m i c} (read : Snapshot.clip object = .ok c) :
      LoadedAs object (.clip n m) (.clip (c.placeOn i m))
  | effect {n m i e} (read : Snapshot.effect object = .ok e) :
      LoadedAs object (.effect n m) (.effect (e.placeOn i m))

end Snapshot

open Snapshot

namespace Session

/-- The item at a place of the session. -/
def item? (session : Session) : Place → Option Item
  | .track n => session.tracks[n]?.map .track
  | .clip n m => (session.tracks[n]?.bind fun t => t.clips[m]?).map .clip
  | .effect n m => (session.tracks[n]?.bind fun t => t.effects[m]?).map .effect

/-- A session that is loaded places the tracks that are read from the objects. -/
theorem tracks_of_ofJson {json : Json} {session : Session} (loaded : ofJson json = .ok session) :
    ∃ tracks, List.Forall₂ (fun object t => Snapshot.track object = .ok t) (trackObjects json)
      tracks ∧ session = ofTracks tracks := by
  obtain ⟨tracks, listed, made⟩ := Except.bind_eq_ok.mp loaded
  cases made
  exact ⟨tracks, forall₂_of_list listed, rfl⟩

/-- Each object of a snapshot that loads has its item in the session, at the same place. -/
theorem item_of_object {json : Json} {session : Session} (loaded : ofJson json = .ok session)
    {place : Place} {object : Json} (written : object? json place = some object) :
    ∃ item, session.item? place = some item ∧ LoadedAs object place item := by
  obtain ⟨tracks, read, rfl⟩ := tracks_of_ofJson loaded
  have placed {n : Nat} {track : Json} (among : (trackObjects json)[n]? = some track) :
      ∃ t, Snapshot.track track = .ok t ∧ (ofTracks tracks).tracks[n]? = some (t.placeAt n) := by
    obtain ⟨t, found, made⟩ := exists_getElem?_of_forall₂ read among
    exact ⟨t, made, by simp only [ofTracks, List.getElem?_mapIdx, found, Option.map_some]⟩
  cases place with
  | track n =>
    obtain ⟨t, made, found⟩ := placed written
    exact ⟨_, by simp only [item?, found, Option.map_some], .track made⟩
  | clip n m =>
    obtain ⟨track, among, written⟩ := Option.bind_eq_some_iff.mp written
    obtain ⟨t, made, found⟩ := placed among
    obtain ⟨c, found', made'⟩ :=
      exists_getElem?_of_forall₂ (forall₂_of_list (track_eq_ok made).2.1) written
    refine ⟨.clip (c.placeOn (t.index.getD n) m), ?_, .clip made'⟩
    simp only [item?, found, Option.bind_some, Track.placeAt, List.getElem?_mapIdx, found',
      Option.map_some]
  | effect n m =>
    obtain ⟨track, among, written⟩ := Option.bind_eq_some_iff.mp written
    obtain ⟨t, made, found⟩ := placed among
    obtain ⟨e, found', made'⟩ :=
      exists_getElem?_of_forall₂ (forall₂_of_list (track_eq_ok made).2.2.1) written
    refine ⟨.effect (e.placeOn (t.index.getD n) m), ?_, .effect made'⟩
    simp only [item?, found, Option.bind_some, Track.placeAt, List.getElem?_mapIdx, found',
      Option.map_some]

end Session

end StudioScript
