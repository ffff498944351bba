import StudioScript.Proofs.Number.Text

/-! # Order and text

Two numbers have the same text only if they are the same (`Number.text_inj`).  The numerical order
tells all finite numbers apart but the two zeros, which have different texts and are equal in value
(`Number.isEqual_iff`).
-/

namespace StudioScript

namespace Magnitude

/-- The count of units determines the magnitude. -/
theorem units_inj {x y : Magnitude} : x.units = y.units ↔ x = y := by
  refine ⟨fun same => ?_, congrArg units⟩
  have near : nearest? (x.units * 1) 1 = some x := nearest?_units x Nat.one_pos
  rw [same, nearest?_units y Nat.one_pos] at near
  exact (Option.some.inj near).symm

theorem units_eq_zero {x : Magnitude} : x.units = 0 ↔ x = zero := units_inj (y := zero)

end Magnitude

namespace Number

/-! ## Texts -/

/-- Every number is read from its text, and not only the finite ones. -/
theorem ofChars?_text : ∀ x : Number, ofChars? x.textChars = some x
  | .finite .. => ofChars?_textChars rfl
  | .infinite true | .infinite false | .nan => rfl

/-- Numbers with the same text are the same. -/
theorem text_inj {x y : Number} : x.text = y.text ↔ x = y := by
  refine ⟨fun same => ?_, congrArg text⟩
  have chars : x.textChars = y.textChars := String.ofList_injective same
  have read := ofChars?_text x
  rw [chars, ofChars?_text y] at read
  exact (Option.some.inj read).symm

/-! ## The numerical order -/

/-- Whether the numbers are the two zeros, in either order. -/
def areOppositeZeros : Number → Number → Bool
  | .finite a x, .finite b y => x == .zero && y == .zero && a != b
  | _, _ => false

/-- Only the two zeros are told apart by nothing but their sign. -/
theorem signedUnits_eq_iff {a b : Bool} {x y : Magnitude} :
    signedUnits a x = signedUnits b y ↔
      Number.finite a x = .finite b y ∨ areOppositeZeros (.finite a x) (.finite b y) = true := by
  have same : x.units = y.units ↔ x = y := Magnitude.units_inj
  have none : x.units = 0 ↔ x = .zero := Magnitude.units_eq_zero
  have none' : y.units = 0 ↔ y = .zero := Magnitude.units_eq_zero
  simp only [signedUnits, areOppositeZeros, Number.finite.injEq, Bool.and_eq_true, beq_iff_eq,
    ← same, ← none, ← none']
  cases a <;> cases b <;> simp

section

variable {a b : Bool} {x y : Magnitude}

theorem isLess_finite :
    (finite a x).isLess (finite b y) = true ↔ signedUnits a x < signedUnits b y := by
  simp [isLess, compare?, compare_lt_iff_lt]

theorem isGreater_finite :
    (finite a x).isGreater (finite b y) = true ↔ signedUnits b y < signedUnits a x := by
  simp [isGreater, compare?, compare_gt_iff_gt]

theorem isEqual_finite :
    (finite a x).isEqual (finite b y) = true ↔ signedUnits a x = signedUnits b y := by
  simp [isEqual, compare?]

end

/-- Finite numbers are equal in value if they are the same, or the two zeros. -/
theorem isEqual_iff : ∀ {x y : Number}, x.isFinite = true → y.isFinite = true →
    (x.isEqual y = true ↔ x = y ∨ areOppositeZeros x y = true)
  | .finite .., .finite .., _, _ => isEqual_finite.trans signedUnits_eq_iff

/-- Of two finite numbers either one is less than the other, or they are equal in value. -/
theorem order_cases : ∀ {x y : Number}, x.isFinite = true → y.isFinite = true →
    (x.isLess y = true ∧ x.isEqual y = false ∧ x.isGreater y = false) ∨
      (x.isLess y = false ∧ x.isEqual y = true ∧ x.isGreater y = false) ∨
      (x.isLess y = false ∧ x.isEqual y = false ∧ x.isGreater y = true)
  | .finite a x, .finite b y, _, _ => by
    simp only [← Bool.not_eq_true, isLess_finite, isEqual_finite, isGreater_finite]
    omega

end Number

end StudioScript
