import StudioScript.Execution.Predicate
import StudioScript.Proofs.Session.Loading

/-! # Fields of loaded items

A member of an object in a snapshot that the library does not know is a field of the loaded item
under its own key (`Session.field_of_member`), with one exception: some fields have a name that is
no member of a snapshot, and they hide a member under this name (`Session.field_hides_member`).
-/

namespace StudioScript

open Snapshot

namespace Snapshot.Place

/-- The keys of the members that are known of an object at the place. -/
def keys : Place → List String
  | .track _ => trackKeys
  | .clip .. => clipKeys
  | .effect .. => effectKeys

/-- The names of fields that are no members of an object at the place: other names of members, and
    counts. -/
def otherNames : Place → List String
  | .track _ => ["mute", "solo", "volume", "clip_count", "fx_count"]
  | .clip .. => ["clip"]
  | .effect .. => []

end Snapshot.Place

namespace Item

/-- Where no field has the name of its own, the field of an item is a member that is not known. -/
theorem field?_of_loaded {object : Json} {place : Place} {item : Item}
    (loaded : LoadedAs object place item) {name : String} (unknown : name ∉ place.keys)
    (other : name ∉ place.otherNames) :
    item.field? name = (object.get? name).map Literal.ofJson := by
  have free : name ∉ place.keys ++ place.otherNames := by
    simp only [List.mem_append, unknown, other, or_self, not_false_eq_true]
  -- Each name that is looked at before the members that are not known is excluded.
  cases loaded with
  | track read =>
    simp only [Place.keys, Place.otherNames] at free
    rw [← (track_eq_ok read).2.2.2 name unknown]
    simp only [field?, trackField?]
    split
    case h_13 => rfl
    all_goals exact absurd (by decide) free
  | clip read =>
    simp only [Place.keys, Place.otherNames] at free
    rw [← (clip_eq_ok read).2.2 name unknown]
    simp only [field?, clipField?]
    split
    case h_11 => rfl
    all_goals exact absurd (by decide) free
  | effect read =>
    simp only [Place.keys, Place.otherNames] at free
    rw [← (effect_eq_ok read).2 name unknown]
    simp only [field?, effectField?]
    split
    case h_5 => rfl
    all_goals exact absurd (by decide) free

end Item

theorem Predicate.holds_of_field {p : Predicate} {item : Item} {field : Literal}
    (found : item.field? p.field = some field) :
    p.holds p.binder item = p.comparison.holds field p.operand := by
  simp only [Predicate.holds, found, beq_self_eq_true, Bool.true_and]

namespace Session

/-- Each track, clip or effect of a snapshot that loads has its item in the session.  If a member of
    the object is not among the known ones, and its key is no name that a field has otherwise, then
    the item has a field under this key, which is the value of the member read as a literal (null as
    the empty string), and a predicate on this field compares that value. -/
theorem field_of_member {json : Json} {session : Session} (loaded : ofJson json = .ok session)
    {place : Place} {object : Json} (written : object? json place = some object) :
    ∃ item, session.item? place = some item ∧
      ∀ key value, object.get? key = some value → key ∉ place.keys → key ∉ place.otherNames →
        item.field? key = some (Literal.ofJson value) ∧
        ∀ p : Predicate, p.field = key →
          p.holds p.binder item = p.comparison.holds (Literal.ofJson value) p.operand := by
  obtain ⟨item, found, loadedAs⟩ := item_of_object loaded written
  refine ⟨item, found, fun key value member unknown other => ?_⟩
  have field : item.field? key = some (Literal.ofJson value) := by
    rw [Item.field?_of_loaded loadedAs unknown other, member, Option.map_some]
  refine ⟨field, ?_⟩
  rintro p rfl
  exact Predicate.holds_of_field field

/-- A clip of a snapshot has a member `take`, which is null, beside its name.  The clip that is
    loaded has a field `take`, which is the empty string. -/
theorem field_of_member_take :
    let clip : Json := .obj [("name", .str "Intro"), ("take", .null)]
    let json : Json := .obj [("tracks", .arr [.obj [("clips", .arr [clip])]])]
    ∃ session item, ofJson json = .ok session ∧ session.item? (.clip 0 0) = some item ∧
      item.field? "take" = some (.string "") := by
  intro clip json
  have loaded : ofJson json = .ok (ofTracks [{ clips := [_] }]) := rfl
  have written : object? json (.clip 0 0) = some clip := rfl
  obtain ⟨item, found, fields⟩ := field_of_member loaded written
  exact ⟨_, item, loaded, found, (fields "take" .null rfl (by decide) (by decide)).1⟩

/-- Each of the other names hides a member: of a track that calls itself mute, and of a clip of it
    that names its take under `clip`, the fields under these names are not what the snapshot says,
    and so are the others. -/
theorem field_hides_member :
    let clip : Json := .obj [("clip", .str "second take")]
    let track : Json := .obj [("mute", .bool true), ("solo", .bool true), ("volume", .str "loud"),
      ("clip_count", .str "one"), ("fx_count", .str "none"), ("clips", .arr [clip])]
    let json : Json := .obj [("tracks", .arr [track])]
    ∃ session, ofJson json = .ok session ∧
      ∀ place ∈ [Place.track 0, .clip 0 0], ∀ key ∈ place.otherNames,
        ∃ object value item, object? json place = some object ∧ object.get? key = some value ∧
          key ∉ place.keys ∧ session.item? place = some item ∧
          item.field? key ≠ some (Literal.ofJson value) := by
  intro clip track json
  refine ⟨_, rfl, fun place among key other => ?_⟩
  simp only [List.mem_cons, List.not_mem_nil, or_false] at among
  rcases among with rfl | rfl
  · simp only [Place.otherNames, List.mem_cons, List.not_mem_nil, or_false] at other
    refine ⟨track, ?_⟩
    rcases other with rfl | rfl | rfl | rfl | rfl <;>
      exact ⟨_, _, rfl, rfl, by decide, rfl, by intro same; cases same⟩
  · simp only [Place.otherNames, List.mem_cons, List.not_mem_nil, or_false] at other
    subst other
    exact ⟨clip, _, _, rfl, rfl, by decide, rfl, by intro same; cases same⟩

end Session

end StudioScript
