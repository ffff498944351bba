import Mathlib.Data.List.Forall2
import StudioScript.Execution.Edit
import StudioScript.Proofs.Results

/-! # Automation points

`Edit.WritesPoint` says which literals write an automation point, and which one.  Points are read if
and only if each element of an array writes one (`Edit.automationPoints_eq_ok`), and else the first
element that does not is reported (`Edit.automationPoints_eq_error`).
-/

namespace StudioScript

/-! ## Numbers in fields -/

namespace Literal

variable {fields : Members Literal} {key : String}

/-- A field is read as a number only if it is one; a string is not. -/
theorem field_eq_some {x : Number} :
    (fields.get? key).bind asNumber? = some x ↔ fields.get? key = some (.number x) := by
  rw [Option.bind_eq_some_iff]
  constructor
  · rintro ⟨value, found, number⟩
    cases value with
    | number y =>
      cases number
      exact found
    | string | boolean | array | object => cases number
  · intro found
    exact ⟨_, found, rfl⟩

theorem field_eq_none :
    (fields.get? key).bind asNumber? = none ↔ ∀ x, fields.get? key ≠ some (.number x) := by
  rw [Option.eq_none_iff_forall_ne_some]
  exact forall_congr' fun _ => not_congr field_eq_some

end Literal

namespace Edit

/-! ## One point -/

/-- Whether a literal writes an automation point: an object with a number under `value`, and with a
    number under exactly one of `time` and `bar`. -/
inductive WritesPoint : Literal → AutomationPoint → Prop where
  | time {fields value time} (valued : Members.get? "value" fields = some (.number value))
      (timed : Members.get? "time" fields = some (.number time))
      (noBar : ∀ bar, Members.get? "bar" fields ≠ some (.number bar)) :
      WritesPoint (.object fields) ⟨.time time, value⟩
  | bar {fields value bar} (valued : Members.get? "value" fields = some (.number value))
      (noTime : ∀ time, Members.get? "time" fields ≠ some (.number time))
      (barred : Members.get? "bar" fields = some (.number bar)) :
      WritesPoint (.object fields) ⟨.bar bar, value⟩

theorem automationPoint_eq_ok {n : Nat} {element : Literal} {point : AutomationPoint} :
    automationPoint n element = .ok point ↔ WritesPoint element point := by
  constructor
  · intro made
    unfold automationPoint at made
    split at made
    · cases made
    · next fields object =>
      obtain rfl : element = .object fields := by
        cases element <;> cases object
        rfl
      split at made
      · cases made
      · next value valued =>
        have valued' := Literal.field_eq_some.mp valued
        split at made
        · next time timed noBar =>
          cases made
          exact .time valued' (Literal.field_eq_some.mp timed) (Literal.field_eq_none.mp noBar)
        · next bar noTime barred =>
          cases made
          exact .bar valued' (Literal.field_eq_none.mp noTime) (Literal.field_eq_some.mp barred)
        · cases made
  · intro writes
    cases writes with
    | time valued timed noBar =>
      simp only [automationPoint, Literal.asObject?, Literal.field_eq_some.mpr valued,
        Literal.field_eq_some.mpr timed, Literal.field_eq_none.mpr noBar]
    | bar valued noTime barred =>
      simp only [automationPoint, Literal.asObject?, Literal.field_eq_some.mpr valued,
        Literal.field_eq_none.mpr noTime, Literal.field_eq_some.mpr barred]

/-- What is wrong with a point is reported with its number. -/
theorem message_of_automationPoint {n : Nat} {element : Literal} {fault : PointsFault}
    (failed : automationPoint n element = .error fault) :
    ∃ reason, fault.message = "point " ++ toString n ++ ": " ++ reason := by
  -- Every wording has the number in front, and only the first has more than a fixed text behind it.
  have reported {tail reason : String} (joined : tail = ": " ++ reason) :
      "point " ++ toString n ++ tail = "point " ++ toString n ++ ": " ++ reason := by
    rw [joined, String.append_assoc, String.append_assoc, String.append_assoc]
  unfold automationPoint at failed
  split at failed
  · cases failed
    refine ⟨"expected \x7btime|bar, value\x7d, got " ++ element.typeName, ?_⟩
    have joined : ": expected \x7btime|bar, value\x7d, got " ++ element.typeName =
        ": " ++ ("expected \x7btime|bar, value\x7d, got " ++ element.typeName) := by
      rw [← String.append_assoc]
      rfl
    exact String.append_assoc.trans (reported joined)
  · split at failed
    · cases failed
      exact ⟨"missing numeric value", reported rfl⟩
    · split at failed <;> cases failed
      exact ⟨"needs exactly one numeric time or bar", reported rfl⟩

/-! ## All points -/

theorem automationPointsFrom_eq_ok {n : Nat} {elements : List Literal}
    {points : List AutomationPoint} :
    automationPointsFrom n elements = .ok points ↔ List.Forall₂ WritesPoint elements points := by
  induction elements generalizing n points with
  | nil =>
    rw [List.forall₂_nil_left_iff]
    exact ⟨fun made => by cases made; rfl, fun same => same ▸ rfl⟩
  | cons element elements inductionHypothesis =>
    rw [List.forall₂_cons_left_iff]
    constructor
    · intro made
      obtain ⟨point, first, rest⟩ := Except.bind_eq_ok.mp made
      obtain ⟨others, later, joined⟩ := Except.bind_eq_ok.mp rest
      cases joined
      exact ⟨point, others, automationPoint_eq_ok.mp first, inductionHypothesis.mp later, rfl⟩
    · rintro ⟨point, others, first, later, rfl⟩
      rw [automationPointsFrom, automationPoint_eq_ok.mpr first, Except.ok_bind,
        inductionHypothesis.mpr later]
      rfl

/-- The first element that writes no point is reported. -/
theorem automationPointsFrom_eq_error {n : Nat} {elements : List Literal} {fault : PointsFault}
    (failed : automationPointsFrom n elements = .error fault) :
    ∃ before element after, elements = before ++ element :: after ∧
      (∀ e ∈ before, ∃ point, WritesPoint e point) ∧
      automationPoint (n + before.length) element = .error fault := by
  induction elements generalizing n with
  | nil => cases failed
  | cons element elements inductionHypothesis =>
    cases first : automationPoint n element with
    | error fault' =>
      rw [automationPointsFrom, first] at failed
      cases failed
      exact ⟨[], element, elements, rfl, List.forall_mem_nil _, first⟩
    | ok point =>
      have later : automationPointsFrom (n + 1) elements = .error fault := by
        rw [automationPointsFrom, first, Except.ok_bind] at failed
        cases others : automationPointsFrom (n + 1) elements with
        | ok points =>
          rw [others] at failed
          cases failed
        | error fault' =>
          rw [others] at failed
          cases failed
          rfl
      obtain ⟨before, element', after, rfl, points, failed'⟩ := inductionHypothesis later
      rw [Nat.add_right_comm] at failed'
      exact ⟨element :: before, element', after, rfl,
        List.forall_mem_cons.mpr ⟨⟨point, automationPoint_eq_ok.mp first⟩, points⟩, failed'⟩

theorem automationPoints_eq_ok {literal : Literal} {points : List AutomationPoint} :
    automationPoints literal = .ok points ↔
      ∃ elements, literal = .array elements ∧ elements ≠ [] ∧
        List.Forall₂ WritesPoint elements points := by
  constructor
  · intro made
    unfold automationPoints at made
    split at made
    · cases made
    · cases made
    · next elements some array =>
      obtain rfl : literal = .array elements := by
        cases literal <;> cases array
        rfl
      exact ⟨elements, rfl, some, automationPointsFrom_eq_ok.mp made⟩
  · rintro ⟨elements, rfl, some, writes⟩
    cases elements with
    | nil => exact absurd rfl some
    | cons element elements => exact automationPointsFrom_eq_ok.mpr writes

theorem exists_writesPoint_of_mem {elements : List Literal} {points : List AutomationPoint}
    (writes : List.Forall₂ WritesPoint elements points) :
    ∀ point ∈ points, ∃ element ∈ elements, WritesPoint element point := by
  induction writes with
  | nil => exact List.forall_mem_nil _
  | cons first _ inductionHypothesis =>
    refine List.forall_mem_cons.mpr ⟨⟨_, List.mem_cons_self, first⟩, fun point member => ?_⟩
    obtain ⟨element, among, written⟩ := inductionHypothesis point member
    exact ⟨element, List.mem_cons_of_mem _ among, written⟩

theorem exists_forall₂_writesPoint {elements : List Literal} :
    (∃ points, List.Forall₂ WritesPoint elements points) ↔
      ∀ e ∈ elements, ∃ point, WritesPoint e point := by
  induction elements with
  | nil => exact ⟨fun _ => List.forall_mem_nil _, fun _ => ⟨[], .nil⟩⟩
  | cons element elements inductionHypothesis =>
    rw [List.forall_mem_cons, ← inductionHypothesis]
    constructor
    · rintro ⟨_, writes⟩
      cases writes with
      | cons first others => exact ⟨⟨_, first⟩, _, others⟩
    · rintro ⟨⟨_, first⟩, _, others⟩
      exact ⟨_, .cons first others⟩

/-- Points are read if and only if there is one element at least, and each writes a point. -/
theorem automationPoints_succeeds_iff {literal : Literal} :
    (∃ points, automationPoints literal = .ok points) ↔
      ∃ elements, literal = .array elements ∧ elements ≠ [] ∧
        ∀ e ∈ elements, ∃ point, WritesPoint e point := by
  simp only [automationPoints_eq_ok, ← exists_forall₂_writesPoint]
  constructor
  · rintro ⟨points, elements, same, some, writes⟩
    exact ⟨elements, same, some, points, writes⟩
  · rintro ⟨elements, same, some, points, writes⟩
    exact ⟨points, elements, same, some, writes⟩

/-- Points are rejected for the first element that writes none, and the message has its number. -/
theorem automationPoints_eq_error {elements : List Literal} {fault : PointsFault}
    (some : elements ≠ []) (failed : automationPoints (.array elements) = .error fault) :
    ∃ before element after reason, elements = before ++ element :: after ∧
      (∀ e ∈ before, ∃ point, WritesPoint e point) ∧ (∀ point, ¬ WritesPoint element point) ∧
      fault.message = "point " ++ toString before.length ++ ": " ++ reason := by
  obtain _ | ⟨first, others⟩ := elements
  · exact absurd rfl some
  · obtain ⟨before, element, after, shape, points, failed'⟩ := automationPointsFrom_eq_error failed
    rw [Nat.zero_add] at failed'
    obtain ⟨reason, message⟩ := message_of_automationPoint failed'
    refine ⟨before, element, after, reason, shape, points, fun point writes => ?_, message⟩
    rw [automationPoint_eq_ok.mpr writes] at failed'
    cases failed'

end Edit

end StudioScript
