import StudioScript.Literal.Json
import StudioScript.Proofs.Json.Numbers
import StudioScript.Proofs.Script.Numbers

/-! # Literals to JSON and back

A literal comes back from JSON as it was if and only if its numbers are finite.  A JSON value comes
back from a literal with the empty string in the place of every null, and with every whole number as
a binary64 number; nothing else in it changes (`Literal.json_roundTrip`).  JSON itself has no number
that is not finite (`Json.allFinite_of_ofText?`), so that this holds of all that is read.
-/

namespace StudioScript

open Number

/-! ## Leaves of JSON values -/

namespace Json

section

variable (f : Json → Json)

mutual

/-- The value with all that is no array and no object in it replaced, at any depth. -/
def mapLeaves : Json → Json
  | .arr items => .arr (mapItemLeaves items)
  | .obj members => .obj (mapMembersLeaves members)
  | .null => f .null
  | .bool b => f (.bool b)
  | .int i => f (.int i)
  | .real x => f (.real x)
  | .str s => f (.str s)

def mapItemLeaves : List Json → List Json
  | [] => []
  | item :: items => mapLeaves item :: mapItemLeaves items

def mapMemberLeaves : String × Json → String × Json
  | (key, value) => (key, mapLeaves value)

def mapMembersLeaves : List (String × Json) → List (String × Json)
  | [] => []
  | member :: members => mapMemberLeaves member :: mapMembersLeaves members

end

/-- Arrays keep their lengths. -/
theorem mapLeaves_arr (items : List Json) :
    (arr items).mapLeaves f = arr (items.map (mapLeaves f)) := by
  rw [mapLeaves]
  congr 1
  induction items with
  | nil => rfl
  | cons item items inductionHypothesis =>
    rw [mapItemLeaves, List.map_cons, inductionHypothesis]

/-- Objects keep their keys. -/
theorem mapLeaves_obj (members : List (String × Json)) :
    (obj members).mapLeaves f = obj (members.map fun m => (m.1, m.2.mapLeaves f)) := by
  rw [mapLeaves]
  congr 1
  induction members with
  | nil => rfl
  | cons member members inductionHypothesis =>
    obtain ⟨key, value⟩ := member
    rw [mapMembersLeaves, mapMemberLeaves, List.map_cons, inductionHypothesis]

end

/-- A leaf without null and without whole numbers: null as the empty string, and a whole number as
    the nearest binary64 number. -/
def plainLeaf : Json → Json
  | .null => .str ""
  | .int i => .real (Number.ofInt i)
  | leaf => leaf

end Json

namespace Literal

/-! ## From literals to JSON and back -/

mutual

theorem ofJson_toJson_iff (v : Literal) : ofJson v.toJson = v ↔ AllFinite v.numbers := by
  cases v with
  | string s => simp [toJson, ofJson, numbers]
  | boolean b => simp [toJson, ofJson, numbers]
  | number x =>
    -- A number that is not finite goes to null, which comes back as a string.
    by_cases finite : x.isFinite = true <;> simp [toJson, ofJson, numbers, finite]
  | array items =>
    rw [toJson, ofJson, numbers, Literal.array.injEq]
    exact ofJsonItems_toJsonItems_iff items
  | object fields =>
    rw [toJson, ofJson, numbers, Literal.object.injEq]
    exact ofJsonMembers_toJsonFields_iff fields

theorem ofJsonItems_toJsonItems_iff (items : List Literal) :
    ofJsonItems (toJsonItems items) = items ↔ AllFinite (itemNumbers items) := by
  cases items with
  | nil => simp [toJsonItems, ofJsonItems, itemNumbers]
  | cons item items =>
    rw [toJsonItems, ofJsonItems, itemNumbers, List.cons.injEq, allFinite_append]
    exact and_congr (ofJson_toJson_iff item) (ofJsonItems_toJsonItems_iff items)

theorem ofJsonMember_toJsonField_iff (field : String × Literal) :
    ofJsonMember (toJsonField field) = field ↔ AllFinite (fieldNumbers field) := by
  obtain ⟨key, value⟩ := field
  rw [toJsonField, ofJsonMember, fieldNumbers, Prod.mk.injEq, eq_self, true_and]
  exact ofJson_toJson_iff value

theorem ofJsonMembers_toJsonFields_iff (fields : List (String × Literal)) :
    ofJsonMembers (toJsonFields fields) = fields ↔ AllFinite (fieldsNumbers fields) := by
  cases fields with
  | nil => simp [toJsonFields, ofJsonMembers, fieldsNumbers]
  | cons field fields =>
    rw [toJsonFields, ofJsonMembers, fieldsNumbers, List.cons.injEq, allFinite_append]
    exact and_congr (ofJsonMember_toJsonField_iff field) (ofJsonMembers_toJsonFields_iff fields)

end

/-! ## From JSON to literals and back -/

mutual

theorem toJson_ofJson_iff (json : Json) :
    (ofJson json).toJson = json.mapLeaves Json.plainLeaf ↔ AllFinite json.numbers := by
  cases json with
  | null => simp [ofJson, toJson, Json.mapLeaves, Json.plainLeaf, Json.numbers]
  | bool b => simp [ofJson, toJson, Json.mapLeaves, Json.plainLeaf, Json.numbers]
  | int i =>
    by_cases finite : (Number.ofInt i).isFinite = true <;>
      simp [ofJson, toJson, Json.mapLeaves, Json.plainLeaf, Json.numbers, finite]
  | real x =>
    by_cases finite : x.isFinite = true <;>
      simp [ofJson, toJson, Json.mapLeaves, Json.plainLeaf, Json.numbers, finite]
  | str s => simp [ofJson, toJson, Json.mapLeaves, Json.plainLeaf, Json.numbers]
  | arr items =>
    rw [ofJson, toJson, Json.mapLeaves, Json.numbers, Json.arr.injEq]
    exact toJsonItems_ofJsonItems_iff items
  | obj members =>
    rw [ofJson, toJson, Json.mapLeaves, Json.numbers, Json.obj.injEq]
    exact toJsonFields_ofJsonMembers_iff members

theorem toJsonItems_ofJsonItems_iff (items : List Json) :
    toJsonItems (ofJsonItems items) = Json.mapItemLeaves Json.plainLeaf items ↔
      AllFinite (Json.itemNumbers items) := by
  cases items with
  | nil => simp [ofJsonItems, toJsonItems, Json.mapItemLeaves, Json.itemNumbers]
  | cons item items =>
    rw [ofJsonItems, toJsonItems, Json.mapItemLeaves, Json.itemNumbers, List.cons.injEq,
      allFinite_append]
    exact and_congr (toJson_ofJson_iff item) (toJsonItems_ofJsonItems_iff items)

theorem toJsonField_ofJsonMember_iff (member : String × Json) :
    toJsonField (ofJsonMember member) = Json.mapMemberLeaves Json.plainLeaf member ↔
      AllFinite (Json.memberNumbers member) := by
  obtain ⟨key, value⟩ := member
  rw [ofJsonMember, toJsonField, Json.mapMemberLeaves, Json.memberNumbers, Prod.mk.injEq, eq_self,
    true_and]
  exact toJson_ofJson_iff value

theorem toJsonFields_ofJsonMembers_iff (members : List (String × Json)) :
    toJsonFields (ofJsonMembers members) = Json.mapMembersLeaves Json.plainLeaf members ↔
      AllFinite (Json.membersNumbers members) := by
  cases members with
  | nil => simp [ofJsonMembers, toJsonFields, Json.mapMembersLeaves, Json.membersNumbers]
  | cons member members =>
    rw [ofJsonMembers, toJsonFields, Json.mapMembersLeaves, Json.membersNumbers, List.cons.injEq,
      allFinite_append]
    exact and_congr (toJsonField_ofJsonMember_iff member) (toJsonFields_ofJsonMembers_iff members)

end

mutual

/-- A literal has the numbers of the JSON value that it is read from. -/
theorem numbers_ofJson (json : Json) : (ofJson json).numbers = json.numbers := by
  cases json with
  | null | bool | int | real | str => simp [ofJson, numbers, Json.numbers]
  | arr items =>
    rw [ofJson, numbers, Json.numbers]
    exact itemNumbers_ofJsonItems items
  | obj members =>
    rw [ofJson, numbers, Json.numbers]
    exact fieldsNumbers_ofJsonMembers members

theorem itemNumbers_ofJsonItems (items : List Json) :
    itemNumbers (ofJsonItems items) = Json.itemNumbers items := by
  cases items with
  | nil => rfl
  | cons item items =>
    rw [ofJsonItems, itemNumbers, Json.itemNumbers, numbers_ofJson item,
      itemNumbers_ofJsonItems items]

theorem fieldNumbers_ofJsonMember (member : String × Json) :
    fieldNumbers (ofJsonMember member) = Json.memberNumbers member := by
  obtain ⟨key, value⟩ := member
  rw [ofJsonMember, fieldNumbers, Json.memberNumbers, numbers_ofJson value]

theorem fieldsNumbers_ofJsonMembers (members : List (String × Json)) :
    fieldsNumbers (ofJsonMembers members) = Json.membersNumbers members := by
  cases members with
  | nil => rfl
  | cons member members =>
    rw [ofJsonMembers, fieldsNumbers, Json.membersNumbers, fieldNumbers_ofJsonMember member,
      fieldsNumbers_ofJsonMembers members]

end

/-! ## Both ways -/

/-- A literal comes back from JSON if and only if its numbers are finite.  A JSON value comes back
    from a literal with null as the empty string and whole numbers as binary64 numbers if and only
    if its numbers are finite; then the literal does not change any more, and neither does what it
    is written as. -/
theorem json_roundTrip :
    (∀ v : Literal, ofJson v.toJson = v ↔ AllFinite v.numbers) ∧
    (∀ json : Json,
      (ofJson json).toJson = json.mapLeaves Json.plainLeaf ↔ AllFinite json.numbers) ∧
    ∀ json : Json, AllFinite json.numbers →
      ofJson (ofJson json).toJson = ofJson json ∧
        (ofJson (ofJson json).toJson).toJson = (ofJson json).toJson := by
  refine ⟨ofJson_toJson_iff, toJson_ofJson_iff, fun json finite => ?_⟩
  have again : ofJson (ofJson json).toJson = ofJson json := by
    rw [ofJson_toJson_iff, numbers_ofJson]
    exact finite
  exact ⟨again, by rw [again]⟩

/-- Null and a whole number inside an array inside an object. -/
theorem json_roundTrip_of_nested :
    let json : Json := .obj [("at", .arr [.null, .int 2, .real .zero]), ("on", .bool true)]
    let again : Json :=
      .obj [("at", .arr [.str "", .real (Number.ofInt 2), .real .zero]), ("on", .bool true)]
    AllFinite json.numbers ∧ (ofJson json).toJson = again ∧
      (ofJson (ofJson json).toJson).toJson = again := by
  intro json again
  have numbers : json.numbers = [Number.ofInt 2, .zero] := by
    simp [json, Json.numbers, Json.itemNumbers, Json.membersNumbers, Json.memberNumbers]
  have finite : AllFinite json.numbers := by
    rw [numbers]
    exact List.forall_mem_cons.mpr ⟨isFinite_ofInt (by decide), allFinite_singleton.mpr rfl⟩
  obtain ⟨_, back, settled⟩ := json_roundTrip
  have once : (ofJson json).toJson = again := ((back json).mpr finite).trans rfl
  exact ⟨finite, once, (settled json finite).2.trans once⟩

end Literal

end StudioScript
