import StudioScript.Action.Wire
import StudioScript.Json.Writer

/-! # The numbers of actions

JSON has no spelling for infinities and `nan`, and `null` is written in their place.  The numbers of
an action (`Action.numbers`) are all that can be written in this way: an action comes out with a
`null` in it exactly if one of them is not finite (`Action.writesNull_toJson`).
-/

namespace StudioScript

/-! ## Finite numbers -/

namespace Number

/-- Whether all of the numbers are finite. -/
def AllFinite (xs : List Number) : Prop := ∀ x ∈ xs, x.isFinite = true

theorem AllFinite.ne_nan {xs : List Number} (finite : AllFinite xs) : ∀ x ∈ xs, x ≠ .nan := by
  rintro x member rfl
  cases finite _ member

@[simp] theorem allFinite_nil : AllFinite [] := List.forall_mem_nil _

@[simp] theorem allFinite_singleton {x : Number} : AllFinite [x] ↔ x.isFinite = true :=
  List.forall_mem_singleton

@[simp] theorem allFinite_append {xs ys : List Number} :
    AllFinite (xs ++ ys) ↔ AllFinite xs ∧ AllFinite ys := List.forall_mem_append

theorem AllFinite.append {xs ys : List Number} (left : AllFinite xs) (right : AllFinite ys) :
    AllFinite (xs ++ ys) := allFinite_append.mpr ⟨left, right⟩

end Number

/-! ## Null in JSON -/

namespace Json

mutual

/-- Whether `null` is written somewhere in the value. -/
def writesNull : Json → Bool
  | .null => true
  | .real x => x.scientificText?.isNone
  | .arr items => itemsWriteNull items
  | .obj members => membersWriteNull members
  | .bool _ | .int _ | .str _ => false

def itemsWriteNull : List Json → Bool
  | [] => false
  | item :: items => writesNull item || itemsWriteNull items

def memberWritesNull : String × Json → Bool
  | (_, value) => writesNull value

def membersWriteNull : List (String × Json) → Bool
  | [] => false
  | member :: members => memberWritesNull member || membersWriteNull members

end

theorem itemsWriteNull_eq_any (items : List Json) :
    itemsWriteNull items = items.any writesNull := by
  induction items with
  | nil => rfl
  | cons item items inductionHypothesis =>
    simp only [itemsWriteNull, List.any_cons, inductionHypothesis]

theorem membersWriteNull_eq_any (members : List (String × Json)) :
    membersWriteNull members = members.any (writesNull ·.2) := by
  induction members with
  | nil => rfl
  | cons member members inductionHypothesis =>
    obtain ⟨key, value⟩ := member
    simp only [membersWriteNull, memberWritesNull, List.any_cons, inductionHypothesis]

@[simp] theorem writesNull_real (x : Number) : (Json.real x).writesNull = !x.isFinite := by
  cases x <;> rfl

end Json

/-! ## Numbers -/

def TrackProps.numbers (props : TrackProps) : List Number :=
  props.volumeDb.toList ++ props.pan.toList

def ClipProps.numbers (props : ClipProps) : List Number := props.length.toList

def ClipRef.numbers : ClipRef → List Number
  | .position x => [x]
  | .clip _ | .bar _ => []

def ClipDestination.numbers : ClipDestination → List Number
  | .position x => [x]
  | .bar _ => []

def ClipSource.numbers : ClipSource → List Number
  | .oldPosition x => [x]
  | .clip _ => []

def PointTime.number : PointTime → Number
  | .time x | .bar x => x

def AutomationPoint.numbers (p : AutomationPoint) : List Number := [p.when.number, p.value]

def Curve.numbers (c : Curve) : List Number :=
  c.start.toList ++ c.stop.toList ++ c.startBar.toList ++ c.stopBar.toList ++ c.fromValue.toList
    ++ c.toValue.toList ++ c.frequency.toList ++ c.amplitude.toList ++ c.phase.toList

def Automation.numbers : Automation → List Number
  | .curve c => c.numbers
  | .points ps _ => ps.flatMap AutomationPoint.numbers

namespace Action

/-- The numbers of an action that are written with a point or an exponent. -/
def numbers : Action → List Number
  | .createClip _ position length => [position, length]
  | .setTrack _ props => props.numbers
  | .deleteClip _ clip => clip.numbers
  | .setClip _ clip props => clip.numbers ++ props.numbers
  | .setClipPosition _ destination source => destination.numbers ++ source.numbers
  | .addAutomation _ _ body => body.numbers
  | .createTrack .. | .createClipAtBar .. | .addTrackFx .. | .addInstrument ..
  | .deleteTrack _ => []

end Action

/-! ## Null in actions -/

/-- Whether `null` is written for one of the members. -/
def Wire.Fields.writeNull (fields : Wire.Fields) : Bool := fields.any (·.2.writesNull)

namespace Wire.Fields

@[simp] theorem writeNull_nil : writeNull [] = false := rfl

@[simp] theorem writeNull_cons (key : String) (value : Json) (fields : Fields) :
    writeNull ((key, value) :: fields) = (value.writesNull || fields.writeNull) := rfl

@[simp] theorem writeNull_append (fields fields' : Fields) :
    writeNull (fields ++ fields') = (fields.writeNull || fields'.writeNull) := List.any_append

@[simp] theorem writeNull_optional_real (key : String) (x : Option Number) :
    (optional key .real x).writeNull = x.toList.any (!·.isFinite) := by
  cases x with
  | none => rfl
  | some x => simp [optional]

/-- Only numbers can come out as `null`. -/
theorem writeNull_optional {α : Type} {write : α → Json} (never : ∀ x, (write x).writesNull = false)
    (key : String) (x : Option α) : (optional key write x).writeNull = false := by
  cases x with
  | none => rfl
  | some x => simp [optional, never]

@[simp] theorem writeNull_optional_str (key : String) (x : Option String) :
    (optional key .str x).writeNull = false := writeNull_optional (fun _ => rfl) key x

@[simp] theorem writeNull_optional_bool (key : String) (x : Option Bool) :
    (optional key .bool x).writeNull = false := writeNull_optional (fun _ => rfl) key x

@[simp] theorem writeNull_optional_int (key : String) (x : Option Int) :
    (optional key .int x).writeNull = false := writeNull_optional (fun _ => rfl) key x

end Wire.Fields

namespace Json

@[simp] theorem writesNull_obj (fields : Wire.Fields) :
    (obj fields).writesNull = fields.writeNull := membersWriteNull_eq_any fields

@[simp] theorem writesNull_str (s : String) : (str s).writesNull = false := rfl

@[simp] theorem writesNull_int (i : Int) : (int i).writesNull = false := rfl

end Json

@[simp] theorem AutomationPoint.writesNull_toJson (p : AutomationPoint) :
    p.toJson.writesNull = p.numbers.any (!·.isFinite) := by
  obtain ⟨when', value⟩ := p
  cases when' <;> simp [toJson, PointTime.field, numbers, PointTime.number]

theorem AutomationPoint.writesNull_points (ps : List AutomationPoint) :
    (Json.arr (ps.map toJson)).writesNull = (ps.flatMap numbers).any (!·.isFinite) := by
  rw [Json.writesNull, Json.itemsWriteNull_eq_any, List.any_map, List.any_flatMap]
  congr 1
  funext p
  exact p.writesNull_toJson

/-- An action is written with a `null` exactly if one of its numbers is not finite. -/
theorem Action.writesNull_toJson (a : Action) :
    a.toJson.writesNull = a.numbers.any (!·.isFinite) := by
  rw [toJson, Json.writesNull_obj, Wire.Fields.writeNull_cons, Json.writesNull_str, Bool.false_or]
  cases a with
  | createTrack | createClipAtBar | createClip | addTrackFx | addInstrument | deleteTrack =>
    simp [fields, numbers, Wire.index]
  | setTrack track props =>
    simp [fields, numbers, Wire.index, TrackProps.fields, TrackProps.numbers]
  | deleteClip track clip =>
    cases clip <;> simp [fields, numbers, Wire.index, ClipRef.field, ClipRef.numbers]
  | setClip track clip props =>
    cases clip <;> simp [fields, numbers, Wire.index, ClipRef.field, ClipRef.numbers,
      ClipProps.fields, ClipProps.numbers]
  | setClipPosition track destination source =>
    cases destination <;> cases source <;> simp [fields, numbers, Wire.index,
      ClipDestination.field, ClipDestination.numbers, ClipSource.field, ClipSource.numbers]
  | addAutomation track param body =>
    cases body with
    | curve c =>
      simp [fields, numbers, Wire.index, Automation.fields, Automation.numbers, Curve.fields,
        Curve.numbers]
    | points ps shape =>
      simp [fields, numbers, Wire.index, Automation.fields, Automation.numbers,
        AutomationPoint.writesNull_points]

theorem Action.writesNull_eq_false_iff (a : Action) :
    a.toJson.writesNull = false ↔ Number.AllFinite a.numbers := by
  rw [writesNull_toJson, List.any_eq_false]
  exact forall₂_congr fun x _ => by simp

end StudioScript
