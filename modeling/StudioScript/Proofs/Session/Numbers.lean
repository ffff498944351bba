import StudioScript.Proofs.Json.Numbers
import StudioScript.Proofs.Session.Loading

/-! # The positions of clips

A snapshot is a JSON text, which writes finite numbers only, and placing a track leaves its clips
where they are: all clips of a session that is loaded are at finite positions
(`Session.hasFinitePositions_of_ofText`).
-/

namespace StudioScript

open Number

/-- Whether the position of the clip, if it has one, is finite. -/
def Clip.HasFinitePosition (c : Clip) : Prop := ∀ x, c.position = some x → x.isFinite = true

/-- Whether all clips are at finite positions, if at any. -/
def Session.HasFinitePositions (session : Session) : Prop :=
  ∀ c ∈ session.clips, c.HasFinitePosition

/-! ## Values inside values -/

namespace Json

theorem allFinite_of_get? {json value : Json} {key : String} (finite : AllFinite json.numbers)
    (found : json.get? key = some value) : AllFinite value.numbers := by
  unfold get? at found
  split at found
  · next members =>
    rw [numbers_obj] at finite
    exact fun x member =>
      finite x (List.mem_flatMap.mpr ⟨(key, value), Members.mem_of_get? found, member⟩)
  · cases found

theorem allFinite_of_mem {items : List Json} (finite : AllFinite (arr items).numbers) {item : Json}
    (inside : item ∈ items) : AllFinite item.numbers := by
  rw [numbers_arr] at finite
  exact fun x member => finite x (List.mem_flatMap.mpr ⟨item, inside, member⟩)

theorem mem_numbers_of_number? {json : Json} {x : Number} (read : json.number? = some x) :
    x ∈ json.numbers := by
  cases json with
  | int | real =>
    rw [numbers, ← Option.some.inj read]
    exact List.mem_singleton_self _
  | null | bool | str | arr | obj => cases read

end Json

/-! ## Loading -/

namespace Snapshot

theorem mem_numbers_of_optional {json : Option Json} {x : Number}
    (read : optional number json = .ok (some x)) : ∃ value ∈ json, x ∈ value.numbers := by
  unfold optional at read
  split at read
  · cases read
  · cases read
  · next value _ =>
    obtain ⟨y, read, same⟩ := Except.map_eq_ok.mp read
    cases same
    exact ⟨value, rfl, Json.mem_numbers_of_number? (number_eq_ok read)⟩

/-- What is in a list is read from a value with finite numbers, if the list is. -/
theorem read_of_mem_list {α : Type} {read : Json → Result α} {json : Option Json} {xs : List α}
    (finite : ∀ value ∈ json, AllFinite value.numbers) (done : list read json = .ok xs) :
    ∀ x ∈ xs, ∃ item, AllFinite item.numbers ∧ read item = .ok x := by
  intro x member
  obtain ⟨n, found⟩ := List.mem_iff_getElem?.mp member
  obtain ⟨item, among, made⟩ := exists_getElem?_of_forall₂ (forall₂_of_list done).flip found
  have inside := List.mem_of_getElem? among
  unfold items at inside
  split at inside
  · exact ⟨item, Json.allFinite_of_mem (finite _ rfl) inside, made⟩
  · cases inside

theorem hasFinitePosition_of_clip {json : Json} {c : Clip} (finite : AllFinite json.numbers)
    (read : clip json = .ok c) : c.HasFinitePosition := by
  obtain ⟨_, ⟨key, placed⟩, _⟩ := clip_eq_ok read
  intro x given
  rw [given] at placed
  obtain ⟨value, found, member⟩ := mem_numbers_of_optional placed
  exact Json.allFinite_of_get? finite found x member

theorem hasFinitePositions_of_track {json : Json} {t : Track} (finite : AllFinite json.numbers)
    (read : track json = .ok t) : ∀ c ∈ t.clips, c.HasFinitePosition := by
  obtain ⟨_, listed, _⟩ := track_eq_ok read
  intro c member
  obtain ⟨item, inner, made⟩ :=
    read_of_mem_list (fun _ found => Json.allFinite_of_get? finite found) listed c member
  exact hasFinitePosition_of_clip inner made

theorem allFinite_of_container {json : Json} (finite : AllFinite json.numbers) :
    AllFinite (container json).numbers := by
  unfold container
  split
  · next state found =>
    split
    · exact Json.allFinite_of_get? finite found
    · exact finite
  · exact finite

end Snapshot

/-! ## Placing -/

namespace Session

theorem hasFinitePositions_ofTracks {tracks : List Track}
    (finite : ∀ t ∈ tracks, ∀ c ∈ t.clips, c.HasFinitePosition) :
    (ofTracks tracks).HasFinitePositions := by
  intro c member
  obtain ⟨t, placed, on⟩ := List.mem_flatMap.mp member
  obtain ⟨i, inside, rfl⟩ := List.mem_mapIdx.mp placed
  obtain ⟨j, inside', rfl⟩ := List.mem_mapIdx.mp on
  -- Placing a clip sets its index and its track only.
  exact fun x given => finite _ (List.getElem_mem inside) _ (List.getElem_mem inside') x given

/-- All clips of a session that a text shows are at finite positions. -/
theorem hasFinitePositions_of_ofText {text : String} {session : Session}
    (loaded : ofText text = .ok session) : session.HasFinitePositions := by
  unfold ofText at loaded
  split at loaded
  · next json read =>
    obtain ⟨tracks, listed, made⟩ := Except.bind_eq_ok.mp loaded
    cases made
    have finite := Snapshot.allFinite_of_container (Json.allFinite_of_ofText? read)
    refine hasFinitePositions_ofTracks fun t member => ?_
    obtain ⟨item, inner, made⟩ :=
      Snapshot.read_of_mem_list (fun _ found => Json.allFinite_of_get? finite found) listed t member
    exact Snapshot.hasFinitePositions_of_track inner made
  · cases loaded

end Session

end StudioScript
