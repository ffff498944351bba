import StudioScript.Members
import StudioScript.Number.Rounding

/-! # JSON values

Snapshots come in as JSON and actions go out as JSON.  Whole numbers and binary64 numbers are kept
apart, because they are written differently.
-/

namespace StudioScript

/-- A JSON value. -/
inductive Json where
  | null
  | bool (value : Bool)
  | int (value : Int)
  | real (value : Number)
  | str (value : String)
  | arr (items : List Json)
  | obj (members : List (String × Json))
deriving Repr, Inhabited

namespace Json

def get? (key : String) : Json → Option Json
  | .obj members => Members.get? key members
  | _ => none

/-- The number that a JSON number denotes, rounded. -/
def number? : Json → Option Number
  | .int i => some (Number.ofInt i)
  | .real x => some x
  | _ => none

end Json

end StudioScript
