import StudioScript.Json.Basic
import StudioScript.Literal.Basic

/-! # Literals as JSON

Literals and JSON values convert into each other.  JSON has no infinities and no `nan`, and
literals have no null: the former go to null, and null goes to the empty string.  Nothing else is
lost but the distinction between whole and other numbers.
-/

namespace StudioScript

namespace Literal

mutual

/-- The literal that a JSON value is read as. -/
def ofJson : Json → Literal
  | .null => .string ""
  | .bool b => .boolean b
  | .int i => .number (Number.ofInt i)
  | .real x => .number x
  | .str s => .string s
  | .arr items => .array (ofJsonItems items)
  | .obj members => .object (ofJsonMembers members)

/-- The literals that the items of a JSON array are read as. -/
def ofJsonItems : List Json → List Literal
  | [] => []
  | item :: items => ofJson item :: ofJsonItems items

/-- The field that a member of a JSON object is read as. -/
def ofJsonMember : String × Json → String × Literal
  | (key, value) => (key, ofJson value)

/-- The fields that the members of a JSON object are read as. -/
def ofJsonMembers : List (String × Json) → List (String × Literal)
  | [] => []
  | member :: members => ofJsonMember member :: ofJsonMembers members

end

mutual

/-- The JSON value that a literal is written as. -/
def toJson : Literal → Json
  | .string s => .str s
  | .number x => if x.isFinite then .real x else .null
  | .boolean b => .bool b
  | .array items => .arr (toJsonItems items)
  | .object fields => .obj (toJsonFields fields)

/-- The JSON values that the items of an array are written as. -/
def toJsonItems : List Literal → List Json
  | [] => []
  | item :: items => toJson item :: toJsonItems items

/-- The member that a field of an object is written as. -/
def toJsonField : String × Literal → String × Json
  | (key, value) => (key, toJson value)

/-- The members that the fields of an object are written as. -/
def toJsonFields : List (String × Literal) → List (String × Json)
  | [] => []
  | field :: fields => toJsonField field :: toJsonFields fields

end

end Literal

end StudioScript
