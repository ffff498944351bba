import StudioScript.Script.Basic
import StudioScript.Session.Item

/-! # Predicates on items

Whether an item satisfies a predicate.  Every comparison has an answer: what cannot be compared
does not match.

* Booleans are equal by value, and equal to nothing else; all other literals are equal if their
  texts are.
* The order compares numeric readings.
* Membership is equality to one of the items, where two numbers are equal by value.
-/

namespace StudioScript

namespace Comparison

/-- `==`. -/
def areEqual (field operand : Literal) : Bool :=
  match operand with
  | .boolean b => field.asBoolean? == some b
  | _ => field.text == operand.text

/-- `!=`.  A boolean operand only matches boolean fields, either way round. -/
def areDifferent (field operand : Literal) : Bool :=
  match operand with
  | .boolean _ => field.asBoolean?.isSome && !areEqual field operand
  | _ => !areEqual field operand

/-- Whether an item of an array is what the field holds. -/
def isSameMember (field candidate : Literal) : Bool :=
  match field, candidate with
  | .boolean a, .boolean b => a == b
  | .number x, .number y => x.isEqual y
  | .boolean _, _ => false
  | _, .boolean _ => false
  | _, _ => field.text == candidate.text

/-- Whether the numeric readings stand in a relation; if one is missing, they do not. -/
def areOrdered (relation : Number → Number → Bool) (field operand : Literal) : Bool :=
  match field.toNumber?, operand.toNumber? with
  | some x, some y => relation x y
  | _, _ => false

/-- Whether the comparison of a field with an operand holds. -/
def holds (comparison : Comparison) (field operand : Literal) : Bool :=
  match comparison with
  | .equal => areEqual field operand
  | .notEqual => areDifferent field operand
  | .less => areOrdered Number.isLess field operand
  | .greater => areOrdered Number.isGreater field operand
  | .atMost => areOrdered Number.isAtMost field operand
  | .atLeast => areOrdered Number.isAtLeast field operand
  | .member =>
      match operand with
      | .array candidates => candidates.any (isSameMember field)
      | _ => false

end Comparison

/-- Whether an item that goes by the given name satisfies the predicate.  If the predicate calls it
    otherwise, or if it lacks the field, it does not. -/
def Predicate.holds (p : Predicate) (itemName : String) (item : Item) : Bool :=
  p.binder == itemName &&
    match item.field? p.field with
    | some field => p.comparison.holds field p.operand
    | none => false

end StudioScript
