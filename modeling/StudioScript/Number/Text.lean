import StudioScript.Number.Shortest

/-! # The two spellings of a number

* `Number.text` — in messages, and wherever values are compared by their text: the fewest digits
  that read back, never an exponent, and no point behind a whole number.
* `Number.scientificText?` — in JSON: always with a point or an exponent; an exponent only outside
  of `10 ^ -5 ≤ |x| < 10 ^ 16`.  Infinities and `nan` have no such spelling.
-/

namespace StudioScript

namespace Number

def signText (negative : Bool) : List Char := if negative then ['-'] else []

/-- The size in positional notation, with the fewest digits that read back. -/
def sizeText (size : Magnitude) : List Char :=
  if size = .zero then ['0']
  else
    let (digits, point) := (size.shortest .upward).significantDigits
    Decimal.positional digits point

def textChars : Number → List Char
  | .finite negative size => signText negative ++ sizeText size
  | .infinite negative => signText negative ++ ['i', 'n', 'f']
  | .nan => ['N', 'a', 'N']

/-- The number as scripts and messages write it. -/
def text (x : Number) : String := String.ofList x.textChars

/-- Digits with a point behind the first of them, and the exponent that this leaves. -/
def exponentNotation (digits : List Char) (point : Int) : List Char :=
  let mantissa := match digits with
    | first :: second :: rest => first :: '.' :: second :: rest
    | _ => digits
  let exponent := point - 1
  let sign := if exponent < 0 then '-' else '+'
  mantissa ++ 'e' :: sign :: Nat.toDigits 10 exponent.natAbs

def scientificSizeText (size : Magnitude) : List Char :=
  if size = .zero then ['0', '.', '0']
  else
    let (digits, point) := (size.shortest .toEven).significantDigits
    if -5 < point ∧ point ≤ 16 then
      let plain := Decimal.positional digits point
      if plain.contains '.' then plain else plain ++ ['.', '0']
    else exponentNotation digits point

/-- The number as JSON writes it, if JSON can write it. -/
def scientificText? : Number → Option String
  | .finite negative size => some (String.ofList (signText negative ++ scientificSizeText size))
  | _ => none

end Number

instance : ToString Number := ⟨Number.text⟩

end StudioScript
