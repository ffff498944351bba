import Mathlib
import StudioScript.Number.Rounding

/-! # What rounding keeps

Rounding a quotient depends on its value alone, not on how it is written
(`Magnitude.nearest?_mul_right`), and it changes no magnitude that is one already
(`Magnitude.nearest?_units`).  For decimals this means that zeros at the end of the coefficient may
be moved into the exponent.
-/

namespace StudioScript

theorem roundHalfEven_mul_right (n d : Nat) {k : Nat} (positive : 0 < k) :
    roundHalfEven (n * k) (d * k) = roundHalfEven n d := by
  have above : 2 * (n % d) * k > d * k ↔ 2 * (n % d) > d := Nat.mul_lt_mul_right positive
  have half : 2 * (n % d) * k = d * k ↔ 2 * (n % d) = d := Nat.mul_left_inj (Nat.ne_of_gt positive)
  simp only [roundHalfEven, Nat.mul_div_mul_right _ _ positive, Nat.mul_mod_mul_right,
    ← Nat.mul_assoc, above, half]

/-- A quotient that is whole stays as it is. -/
theorem roundHalfEven_mul_self (n : Nat) {d : Nat} (positive : 0 < d) :
    roundHalfEven (n * d) d = n := by
  have inexact : ¬(2 * 0 > d ∨ 2 * 0 = d ∧ n % 2 = 1) := by omega
  simp only [roundHalfEven, Nat.mul_div_cancel _ positive, Nat.mul_mod_left, if_neg inexact]

theorem roundHalfEven_eq_zero {n d : Nat} (small : 2 * n < d) : roundHalfEven n d = 0 := by
  have below : n < d := by omega
  have nearZero : ¬(2 * n > d ∨ 2 * n = d ∧ 0 % 2 = 1) := by omega
  simp only [roundHalfEven, Nat.div_eq_of_lt below, Nat.mod_eq_of_lt below, if_neg nearZero]

namespace Magnitude

@[ext] theorem ext_parts {x y : Magnitude} (significand : x.significand = y.significand)
    (exponent : x.exponent = y.exponent) : x = y := by
  cases x
  cases y
  cases significand
  cases exponent
  rfl

/-- The nearest magnitude has the rounded significand, or it is the next power of two if that no
    longer fits into 53 bits. -/
theorem nearest?_eq_some {n d : Nat} {m : Magnitude} :
    nearest? n d = some m ↔
      m.significand = roundHalfEven n (d * 2 ^ exponentNear (n / d)) ∧
          m.exponent = exponentNear (n / d) ∨
        2 ^ 53 ≤ roundHalfEven n (d * 2 ^ exponentNear (n / d)) ∧ m.significand = 2 ^ 52 ∧
          m.exponent = exponentNear (n / d) + 1 := by
  have fits := m.significand_lt
  have small := m.exponent_le
  simp only [nearest?, Nat.pow_eq] at *
  constructor
  · intro near
    split at near
    · split at near
      · cases near
        exact .inl ⟨rfl, rfl⟩
      · cases near
    · next large =>
      split at near
      · cases near
        exact .inr ⟨Nat.le_of_not_lt large, rfl, rfl⟩
      · cases near
  · rintro (⟨significand, exponent⟩ | ⟨large, significand, exponent⟩)
    · rw [dif_pos (significand ▸ fits), dif_pos (exponent ▸ small)]
      exact congrArg some (ext_parts significand.symm exponent.symm)
    · rw [dif_neg (Nat.not_lt_of_le large), dif_pos (exponent ▸ small)]
      exact congrArg some (ext_parts significand.symm exponent.symm)

theorem nearest?_mul_right (n d : Nat) {k : Nat} (positive : 0 < k) :
    nearest? (n * k) (d * k) = nearest? n d := by
  have scaled (e : Nat) : roundHalfEven (n * k) (d * k * 2 ^ e) = roundHalfEven n (d * 2 ^ e) := by
    rw [Nat.mul_right_comm, roundHalfEven_mul_right _ _ positive]
  ext m
  rw [nearest?_eq_some, nearest?_eq_some, Nat.mul_div_mul_right _ _ positive, scaled]

/-- A size of one form has the exponent at which it is rounded. -/
theorem exponentNear_units (m : Magnitude) : exponentNear m.units = m.exponent := by
  have fits := m.significand_lt
  simp only [exponentNear, units, Nat.pow_eq] at *
  rcases m.normal with least | full
  · by_cases zero : m.significand = 0
    · simp [zero, least]
    · have bits : (m.significand * 2 ^ m.exponent).log2 < 53 := by
        rw [least, Nat.pow_zero, Nat.mul_one]
        exact (Nat.log2_lt zero).mpr fits
      omega
  · have some : m.significand * 2 ^ m.exponent ≠ 0 := by
      refine Nat.mul_ne_zero ?_ (Nat.ne_of_gt (Nat.two_pow_pos _))
      exact Nat.ne_of_gt (Nat.lt_of_lt_of_le (by decide) full)
    have bits : (m.significand * 2 ^ m.exponent).log2 = 52 + m.exponent := by
      rw [Nat.log2_eq_iff some, Nat.pow_add, Nat.add_right_comm, Nat.pow_add]
      exact ⟨Nat.mul_le_mul_right _ full,
        Nat.mul_lt_mul_of_pos_right fits (Nat.two_pow_pos _)⟩
    omega

/-- Nothing is lost when a quotient is a magnitude. -/
theorem nearest?_units (m : Magnitude) {k : Nat} (positive : 0 < k) :
    nearest? (m.units * k) k = some m := by
  have unscaled := nearest?_mul_right m.units 1 positive
  rw [Nat.one_mul] at unscaled
  rw [unscaled, nearest?_eq_some, Nat.div_one, Nat.one_mul, exponentNear_units]
  exact .inl ⟨(roundHalfEven_mul_self _ (Nat.two_pow_pos _)).symm, rfl⟩

/-- Below half a unit there is only zero. -/
theorem nearest?_eq_zero {n d : Nat} (small : 2 * n < d) : nearest? n d = some zero := by
  have quotient : n / d = 0 := Nat.div_eq_of_lt (by omega)
  rw [nearest?_eq_some, quotient]
  refine .inl ⟨?_, rfl⟩
  rw [roundHalfEven_eq_zero]
  · rfl
  · exact Nat.lt_of_lt_of_le small (Nat.le_mul_of_pos_right d (Nat.two_pow_pos _))

/-! ## Decimals -/

/-- Only one of the two powers of ten is there. -/
theorem ofDecimal?_eq (coefficient : Nat) (exponent : Int) :
    ofDecimal? coefficient exponent =
      nearest? (coefficient * 10 ^ exponent.toNat * unitsPerOne) (10 ^ (-exponent).toNat) := by
  unfold ofDecimal?
  split
  · next natural =>
    have none : (-exponent).toNat = 0 := by omega
    rw [none]
    rfl
  · next negative =>
    have none : exponent.toNat = 0 := by omega
    rw [none, Nat.pow_zero, Nat.mul_one]
    rfl

/-- Zeros at the end of a coefficient count in the exponent. -/
theorem ofDecimal?_mul_pow (coefficient k : Nat) (exponent : Int) :
    ofDecimal? (coefficient * 10 ^ k) exponent = ofDecimal? coefficient (exponent + k) := by
  rw [ofDecimal?_eq, ofDecimal?_eq]
  -- What the one side has more in its denominator it has more in its numerator as well.
  obtain ⟨j, denominator, numerator⟩ : ∃ j, (-exponent).toNat = (-(exponent + k)).toNat + j ∧
      k + exponent.toNat = (exponent + k).toNat + j :=
    ⟨(-exponent).toNat - (-(exponent + k)).toNat, by omega, by omega⟩
  have positive : 0 < 10 ^ j := Nat.pow_pos (by decide)
  have scaled (one : Nat) : coefficient * 10 ^ k * 10 ^ exponent.toNat * one =
      coefficient * 10 ^ (exponent + k).toNat * one * 10 ^ j := by
    rw [Nat.mul_assoc coefficient, ← Nat.pow_add, numerator, Nat.pow_add]
    ac_rfl
  rw [scaled, denominator, Nat.pow_add, nearest?_mul_right _ _ positive]

theorem ofDecimal?_zero (exponent : Int) : ofDecimal? 0 exponent = some zero := by
  rw [ofDecimal?_eq, Nat.zero_mul, Nat.zero_mul]
  exact nearest?_eq_zero (Nat.pow_pos (by decide))

/-- A decimal that is less than half a unit, and by far, reads as zero. -/
theorem ofDecimal?_eq_zero {coefficient : Nat} {exponent : Int}
    (small : exponent + (Nat.toDigits 10 coefficient).length < -400) :
    ofDecimal? coefficient exponent = some zero := by
  generalize length : (Nat.toDigits 10 coefficient).length = digits at small
  have below : coefficient < 10 ^ digits := by
    have bound : (Nat.toDigits 10 coefficient).length ≤ digits := Nat.le_of_eq length
    exact (Nat.length_toDigits_le_iff (by decide) (length ▸ Nat.length_toDigits_pos)).mp bound
  have none : exponent.toNat = 0 := by omega
  obtain ⟨margin, least, within⟩ : ∃ k, 2 * unitsPerOne ≤ 10 ^ k ∧ k ≤ 400 :=
    ⟨400, by decide +kernel, Nat.le_refl _⟩
  have positive : 0 < 2 * unitsPerOne := by decide +kernel
  rw [ofDecimal?_eq, none, Nat.pow_zero, Nat.mul_one]
  refine nearest?_eq_zero ?_
  calc 2 * (coefficient * unitsPerOne)
      = coefficient * (2 * unitsPerOne) := Nat.mul_left_comm _ _ _
    _ < 10 ^ digits * (2 * unitsPerOne) :=
        Nat.mul_lt_mul_of_pos_right below positive
    _ ≤ 10 ^ digits * 10 ^ margin := Nat.mul_le_mul_left _ least
    _ = 10 ^ (digits + margin) := (Nat.pow_add _ _ _).symm
    _ ≤ 10 ^ (-exponent).toNat := Nat.pow_le_pow_right (by decide) (by omega)

end Magnitude

end StudioScript
