import StudioScript.Number.Basic

/-! # Rounding to the nearest number

Every exact result in the library is a quotient of natural numbers, and there is one way from a
quotient to a number: the nearest magnitude, ties to the even significand (`Magnitude.nearest?`).
Integers, decimals, products and quotients all go through it.
-/

namespace StudioScript

/-- The natural number nearest to `n / d`; of two that are equally near, the even one. -/
def roundHalfEven (n d : Nat) : Nat :=
  let q := n / d
  let twice := 2 * (n % d)
  if twice > d ∨ (twice = d ∧ q % 2 = 1) then q + 1 else q

/-- Rounding goes up or down by less than one. -/
theorem div_le_roundHalfEven (n d : Nat) : n / d ≤ roundHalfEven n d := by
  simp only [roundHalfEven]
  split <;> omega

namespace Magnitude

/-- The exponent of the sizes around `q` units: none while 53 bits hold `q`, else the number of
    bits that `q` has too many. -/
def exponentNear (q : Nat) : Nat := Nat.log2 q - 52

/-- Rounding at the exponent of the quotient fills the significand, unless the exponent is the
    least one. -/
theorem le_roundHalfEven_of_exponentNear (n d : Nat) :
    exponentNear (n / d) = 0 ∨
      Nat.pow 2 52 ≤ roundHalfEven n (d * Nat.pow 2 (exponentNear (n / d))) := by
  by_cases least : exponentNear (n / d) = 0
  · exact .inl least
  · refine .inr (Nat.le_trans ?_ (div_le_roundHalfEven _ _))
    have positive : n / d ≠ 0 := by
      intro none
      simp [exponentNear, none] at least
    have bits := Nat.log2_self_le positive
    simp only [Nat.pow_eq]
    rw [← Nat.div_div_eq_div_mul, Nat.le_div_iff_mul_le (Nat.two_pow_pos _), ← Nat.pow_add]
    refine Nat.le_trans (Nat.pow_le_pow_right (by decide) ?_) bits
    simp only [exponentNear] at least ⊢
    omega

/-- The size nearest to `n / d` units; of two equally near ones, the one with the even
    significand.  There is none when the quotient is too large for binary64. -/
def nearest? (n d : Nat) : Option Magnitude :=
  let e := exponentNear (n / d)
  let s := roundHalfEven n (d * Nat.pow 2 e)
  if inRange : s < Nat.pow 2 53 then
    if small : e ≤ 2045 then
      some ⟨s, e, inRange, small, le_roundHalfEven_of_exponentNear n d⟩
    else none
  else if small : e + 1 ≤ 2045 then
    some ⟨Nat.pow 2 52, e + 1, by decide, small, .inr (Nat.le_refl _)⟩
  else none

/-- The size nearest to `coefficient * 10 ^ exponent`. -/
def ofDecimal? (coefficient : Nat) (exponent : Int) : Option Magnitude :=
  if 0 ≤ exponent then
    nearest? (coefficient * Nat.pow 10 exponent.toNat * unitsPerOne) 1
  else
    nearest? (coefficient * unitsPerOne) (Nat.pow 10 (-exponent).toNat)

def times? (x y : Magnitude) : Option Magnitude := nearest? (x.units * y.units) unitsPerOne

def over? (x y : Magnitude) : Option Magnitude := nearest? (x.units * unitsPerOne) y.units

end Magnitude

namespace Number

/-- A number from a sign and a rounded size; a size beyond the range of binary64 is infinite. -/
def ofSize (negative : Bool) : Option Magnitude → Number
  | some size => .finite negative size
  | none => .infinite negative

def ofNat (n : Nat) : Number := ofSize false (Magnitude.nearest? (n * Magnitude.unitsPerOne) 1)

def ofInt (i : Int) : Number :=
  ofSize (decide (i < 0)) (Magnitude.nearest? (i.natAbs * Magnitude.unitsPerOne) 1)

/-- The number nearest to `coefficient * 10 ^ exponent`, with the given sign.  No number above
    zero has more than 310 digits before its point, and none is nearer to a decimal below
    `10 ^ -400` than zero is, so exponents beyond these need not be computed. -/
def ofDecimal (negative : Bool) (coefficient : Nat) (exponent : Int) : Number :=
  if coefficient = 0 then .finite negative .zero
  else if exponent > 400 then .infinite negative
  else if exponent + (Nat.toDigits 10 coefficient).length < -400 then .finite negative .zero
  else ofSize negative (Magnitude.ofDecimal? coefficient exponent)

end Number

end StudioScript
