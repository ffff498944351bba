import StudioScript.Number.Rounding

/-! # Reading numbers

`Number.ofText?` reads the text of a number: a sign, then digits with at most one point among
them and at least one digit, then an exponent; or, in any case of letters, `inf`, `infinity` or
`nan`.  The result is the number nearest to the decimal that the text denotes.
-/

namespace StudioScript

/-- A numeral taken apart: the digits before and after its point, and its exponent. -/
structure Numeral where
  whole : List Char
  fraction : List Char
  exponent : Int
deriving DecidableEq, Repr

namespace Numeral

/-- The number that the numeral denotes, rounded. -/
def value (negative : Bool) (n : Numeral) : Number :=
  Number.ofDecimal negative (Nat.ofDigitChars 10 (n.whole ++ n.fraction) 0)
    (n.exponent - n.fraction.length)

/-- An exponent: a sign and at least one digit, and nothing else. -/
def exponent? (cs : List Char) : Option Int :=
  let (negative, digits) := match cs with
    | '-' :: rest => (true, rest)
    | '+' :: rest => (false, rest)
    | _ => (false, cs)
  if digits.isEmpty || !digits.all Char.isDigit then none
  else
    let size := Nat.ofDigitChars 10 digits 0
    some (if negative then -(size : Int) else size)

/-- The numeral that the characters write, without a sign before it. -/
def ofChars? (cs : List Char) : Option Numeral :=
  let whole := cs.takeWhile Char.isDigit
  let (fraction, rest) := match cs.dropWhile Char.isDigit with
    | '.' :: rest => (rest.takeWhile Char.isDigit, rest.dropWhile Char.isDigit)
    | rest => ([], rest)
  if whole.isEmpty && fraction.isEmpty then none
  else match rest with
    | [] => some ⟨whole, fraction, 0⟩
    | c :: rest =>
        if c = 'e' ∨ c = 'E' then (exponent? rest).map fun e => ⟨whole, fraction, e⟩
        else none

end Numeral

namespace Number

/-- The number that the characters write behind a sign. -/
def ofUnsignedChars? (negative : Bool) (cs : List Char) : Option Number :=
  let word := cs.map Char.toLower
  if word = ['i', 'n', 'f'] ∨ word = ['i', 'n', 'f', 'i', 'n', 'i', 't', 'y'] then
    some (.infinite negative)
  else if word = ['n', 'a', 'n'] then some .nan
  else (Numeral.ofChars? cs).map (Numeral.value negative)

def ofChars? : List Char → Option Number
  | '-' :: cs => ofUnsignedChars? true cs
  | '+' :: cs => ofUnsignedChars? false cs
  | cs => ofUnsignedChars? false cs

def ofText? (s : String) : Option Number := ofChars? s.toList

end Number

end StudioScript
