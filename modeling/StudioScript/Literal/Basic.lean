import StudioScript.Members
import StudioScript.Number.Text
import StudioScript.Number.Reading
import StudioScript.Text.Blank

/-! # Literals

A literal is a value that a script writes down: an argument of a call, the right side of a
predicate, or an item that a script stores.  The fields of session items are read as literals too.

* `Literal.text` — the text by which literals are compared and reported; scalars stand bare in it;
* `Literal.toNumber?` — the numeric reading, in which a string counts if it writes a number.
-/

namespace StudioScript

/-- A literal value.  The fields of an object are kept in the order of their keys. -/
inductive Literal where
  | string (value : String)
  | number (value : Number)
  | boolean (value : Bool)
  | array (items : List Literal)
  | object (fields : List (String × Literal))
deriving Repr, Inhabited

namespace Literal

/-- The name of the kind of value, for messages. -/
def typeName : Literal → String
  | .string _ => "string"
  | .number _ => "number"
  | .boolean _ => "boolean"
  | .array _ => "array"
  | .object _ => "object"

/-! ## Views -/

def asString? : Literal → Option String
  | .string s => some s
  | _ => none

/-- The value of a number; a string is none. -/
def asNumber? : Literal → Option Number
  | .number x => some x
  | _ => none

def asBoolean? : Literal → Option Bool
  | .boolean b => some b
  | _ => none

def asArray? : Literal → Option (List Literal)
  | .array items => some items
  | _ => none

def asObject? : Literal → Option (Members Literal)
  | .object fields => some fields
  | _ => none

/-- The numeric reading: of a number its value, of a string the number that it writes between
    blanks. -/
def toNumber? : Literal → Option Number
  | .number x => some x
  | .string s => Number.ofChars? (Text.trimChars s.toList)
  | _ => none

/-! ## Text -/

mutual

def text : Literal → String
  | .string s => s
  | .number x => x.text
  | .boolean b => if b then "true" else "false"
  | .array items => "[" ++ String.intercalate ", " (itemTexts items) ++ "]"
  | .object fields => "\x7b" ++ String.intercalate ", " (fieldTexts fields) ++ "\x7d"

def itemTexts : List Literal → List String
  | [] => []
  | item :: items => text item :: itemTexts items

def fieldText : String × Literal → String
  | (key, value) => key ++ "=" ++ text value

def fieldTexts : List (String × Literal) → List String
  | [] => []
  | field :: fields => fieldText field :: fieldTexts fields

end

end Literal

end StudioScript
