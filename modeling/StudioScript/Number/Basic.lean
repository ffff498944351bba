/-! # Numbers

The numbers of a script are binary64 numbers.  A finite one is a sign and a `Magnitude`; every
magnitude is a whole count of units of `2 ^ -1074`, the least positive one, so that order,
wholeness and equality are statements about natural numbers:

* `Magnitude.units` — the count of units, which determines the magnitude;
* `Number.compare?` — numerical order, undefined as soon as one side is `nan`;
* `Number.whole?` — the integer that a number denotes, if it denotes one.
-/

namespace StudioScript

/-- The size of a finite number: `significand * 2 ^ exponent` units of `2 ^ -1074`.  Each size has
    one form: the significand fills its 53 bits unless the exponent is already the least one. -/
structure Magnitude where
  significand : Nat
  exponent : Nat
  significand_lt : significand < Nat.pow 2 53
  exponent_le : exponent ≤ 2045
  normal : exponent = 0 ∨ Nat.pow 2 52 ≤ significand
deriving DecidableEq, Repr

namespace Magnitude

/-- How many units make one. -/
def unitsPerOne : Nat := Nat.pow 2 1074

/-- The size as a count of units. -/
def units (m : Magnitude) : Nat := m.significand * Nat.pow 2 m.exponent

/-- The size nothing has. -/
def zero : Magnitude := ⟨0, 0, by decide, by decide, .inl rfl⟩

instance : Inhabited Magnitude := ⟨zero⟩

/-- The natural number that the size is, if it is one. -/
def whole? (m : Magnitude) : Option Nat :=
  if m.units % unitsPerOne = 0 then some (m.units / unitsPerOne) else none

end Magnitude

/-- A binary64 number.  Zero has two signs; all that is not a number is one value. -/
inductive Number where
  | finite (negative : Bool) (size : Magnitude)
  | infinite (negative : Bool)
  | nan
deriving DecidableEq, Repr

namespace Number

/-- The number zero, without a minus sign. -/
def zero : Number := .finite false .zero

instance : Inhabited Number := ⟨zero⟩

/-- Whether the number is neither infinite nor `nan`. -/
def isFinite : Number → Bool
  | .finite .. => true
  | _ => false

/-- The signed count of units of a finite number.  Both zeros count none. -/
def signedUnits (negative : Bool) (size : Magnitude) : Int :=
  if negative then -(size.units : Int) else size.units

/-- Numerical order.  Infinities lie beyond all finite numbers; `nan` is ordered with nothing. -/
def compare? : Number → Number → Option Ordering
  | .nan, _ => none
  | _, .nan => none
  | .infinite a, .infinite b =>
      some (if a = b then .eq else if a then .lt else .gt)
  | .infinite negative, .finite .. => some (if negative then .lt else .gt)
  | .finite .., .infinite negative => some (if negative then .gt else .lt)
  | .finite a x, .finite b y => some (compare (signedUnits a x) (signedUnits b y))

/-- `x < y`. -/
def isLess (x y : Number) : Bool := x.compare? y == some .lt

/-- `x > y`. -/
def isGreater (x y : Number) : Bool := x.compare? y == some .gt

/-- `x = y` in value: the two zeros are equal, and `nan` equals nothing. -/
def isEqual (x y : Number) : Bool := x.compare? y == some .eq

/-- `x ≤ y`. -/
def isAtMost (x y : Number) : Bool := x.isLess y || x.isEqual y

/-- `x ≥ y`. -/
def isAtLeast (x y : Number) : Bool := x.isGreater y || x.isEqual y

/-- Whether the number is below zero.  Minus zero is not. -/
def isNegative (x : Number) : Bool := x.isLess zero

def isNonPositive (x : Number) : Bool := x.isAtMost zero

/-- The integer that the number denotes, if it denotes one. -/
def whole? : Number → Option Int
  | .finite negative size =>
      size.whole?.map fun n => if negative then -(n : Int) else n
  | _ => none

end Number

end StudioScript
