import StudioScript.Number.Rounding

/-! # The shortest decimal of a number

Among the decimals that read back as a given magnitude, `Magnitude.shortest` takes one with the
fewest digits, and of those the nearest one.  Two decimals can be equally near; which of them is
taken is the caller's rule (`TieRule`).
-/

namespace StudioScript

/-- The decimal number `coefficient * 10 ^ exponent`. -/
structure Decimal where
  coefficient : Nat
  exponent : Int
deriving DecidableEq, Repr

/-- Which of two equally near neighbours on a decimal grid is taken, given the lower one: the
    upper one if the rule holds of it. -/
abbrev TieRule := Nat → Bool

namespace TieRule

/-- Ties go to the larger neighbour. -/
def upward : TieRule := fun _ => true

/-- Ties go to the neighbour whose last digit is even. -/
def toEven : TieRule := fun lower => lower % 2 == 1

end TieRule

namespace Magnitude

/-- The places after the point that write every magnitude exactly. -/
def places : Nat := 1074

/-- The size as a count of `10 ^ -1074`: one unit is `5 ^ 1074` of these. -/
def exactDecimal (m : Magnitude) : Nat := m.units * Nat.pow 5 places

/-- Whether `d * 10 ^ (dropped - 1074)` is nearer to the size than to any other. -/
def readsBack (m : Magnitude) (d dropped : Nat) : Bool :=
  decide (ofDecimal? d ((dropped : Int) - places) = some m)

/-- The decimal that stands for the size on the grid of `10 ^ (dropped - 1074)`: the nearer of
    the size's two neighbours on the grid that read back. -/
def onGrid? (tie : TieRule) (m : Magnitude) (dropped : Nat) : Option Nat :=
  let grid := Nat.pow 10 dropped
  let lower := m.exactDecimal / grid
  let twice := 2 * (m.exactDecimal % grid)
  let upperNearer := decide (grid < twice) || (decide (twice = grid) && tie lower)
  match m.readsBack lower dropped, m.readsBack (lower + 1) dropped with
  | true, true => some (if upperNearer then lower + 1 else lower)
  | true, false => some lower
  | false, true => some (lower + 1)
  | false, false => none

/-- The first hit on the grids from `10 ^ (dropped - 1074)` down to the finest one, on which the
    size itself lies. -/
def shortestFrom (tie : TieRule) (m : Magnitude) : Nat → Decimal
  | 0 => ⟨m.exactDecimal, -(places : Int)⟩
  | dropped + 1 =>
      match onGrid? tie m (dropped + 1) with
      | some d => ⟨d, ((dropped + 1 : Nat) : Int) - places⟩
      | none => shortestFrom tie m dropped

/-- The shortest decimal that reads back as the size. -/
def shortest (tie : TieRule) (m : Magnitude) : Decimal :=
  shortestFrom tie m ((Nat.toDigits 10 m.exactDecimal).length - 1)

end Magnitude

namespace Decimal

/-- The digits of the decimal, without zeros at their end, and how many digits stand before the
    point (below zero: how many zeros stand between the point and the first digit). -/
def significantDigits (d : Decimal) : List Char × Int :=
  let digits := Nat.toDigits 10 d.coefficient
  ((digits.reverse.dropWhile (· == '0')).reverse, digits.length + d.exponent)

/-- Digits with a point after the first `point` of them, filled up with zeros on either side. -/
def positional (digits : List Char) (point : Int) : List Char :=
  if point ≤ 0 then
    '0' :: '.' :: (List.replicate (-point).toNat '0' ++ digits)
  else if digits.length ≤ point.toNat then
    digits ++ List.replicate (point.toNat - digits.length) '0'
  else
    digits.take point.toNat ++ '.' :: digits.drop point.toNat

end Decimal

end StudioScript
