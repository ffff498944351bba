import StudioScript.Json.Basic
import StudioScript.Text.Digit

/-! # Reading JSON

`Json.ofText?` reads a JSON text.  Members come out in the order of their keys, and of members with
one key the last one counts.  Values nest up to 127 levels deep.

A number without a point or an exponent that fits into 64 bits is whole.  Every other number is
*scaled*: the leading digits, as many as fit into 64 bits, are rounded to a number, and this is
multiplied by a rounded power of ten, or divided by such powers of at most 308 places each.  The
result is not always the nearest number to the decimal.  A number beyond the range of binary64 is
refused.
-/

namespace StudioScript

namespace Json

/-! ## Scaled numbers -/

/-- Takes digits into a significand while it stays below `2 ^ 64`; the other digits are left. -/
def takeSignificand (significand : Nat) : List Char → Nat × List Char
  | [] => (significand, [])
  | c :: cs =>
      let next := significand * 10 + (c.toNat - '0'.toNat)
      if next < Nat.pow 2 64 then takeSignificand next cs else (significand, c :: cs)

/-- The largest power of ten that is used in one step. -/
def stride : Nat := 308

/-- A size divided by a rounded power of ten. -/
def divideByPower (size : Magnitude) (k : Nat) : Option Magnitude :=
  (Magnitude.ofDecimal? 1 k).bind size.over?

/-- A size divided by the largest power so many times, as long as anything is left of it. -/
def shrink : Nat → Magnitude → Option Magnitude
  | 0, size => some size
  | steps + 1, size =>
      if size = .zero then some .zero else (divideByPower size stride).bind (shrink steps)

/-- `significand * 10 ^ exponent` with a rounded significand and a rounded power. -/
def scaled (significand : Nat) (exponent : Int) : Option Magnitude :=
  match Magnitude.nearest? (significand * Magnitude.unitsPerOne) 1 with
  | none => none
  | some size =>
      if exponent < 0 then
        let places := (-exponent).toNat
        (shrink (places / stride) size).bind fun size => divideByPower size (places % stride)
      else if size = .zero then some .zero
      else if exponent ≤ stride then (Magnitude.ofDecimal? 1 exponent).bind size.times?
      else none

/-- The digits at the head of a text, and the rest. -/
def digits (cs : List Char) : List Char × List Char :=
  (cs.takeWhile Char.isDigit, cs.dropWhile Char.isDigit)

/-- An exponent behind `e`: a sign and at least one digit. -/
def exponent (cs : List Char) : Option (Int × List Char) :=
  let (negative, cs) := match cs with
    | '-' :: rest => (true, rest)
    | '+' :: rest => (false, rest)
    | _ => (false, cs)
  match digits cs with
  | ([], _) => none
  | (ds, rest) =>
      let size : Int := Nat.ofDigitChars 10 ds 0
      some (if negative then -size else size, rest)

/-- A scaled number from its significand and the exponent found so far; an exponent may follow. -/
def scaledNumber (negative : Bool) (significand : Nat) (places : Int) (cs : List Char) :
    Option (Json × List Char) :=
  let finish (places : Int) (rest : List Char) : Option (Json × List Char) :=
    (scaled significand places).map fun size => (.real (.finite negative size), rest)
  match cs with
  | 'e' :: rest | 'E' :: rest =>
      (exponent rest).bind fun (e, rest) => finish (places + e) rest
  | _ => finish places cs

/-- A whole number: the 64-bit integers, and no minus zero among them. -/
def wholeNumber (negative : Bool) (significand : Nat) : Option Json :=
  if !negative then some (.int significand)
  else if 0 < significand ∧ significand ≤ Nat.pow 2 63 then some (.int (-(significand : Int)))
  else (scaled significand 0).map fun size => .real (.finite true size)

def unsignedNumber (negative : Bool) (cs : List Char) : Option (Json × List Char) :=
  match digits cs with
  | ([], _) => none
  | ('0' :: _ :: _, _) => none
  | (whole, rest) =>
      let (significand, left) := takeSignificand 0 whole
      match rest with
      | '.' :: rest =>
          match digits rest with
          | ([], _) => none
          | (fraction, rest) =>
              let (significand, unused) := takeSignificand significand fraction
              let used := fraction.length - unused.length
              scaledNumber negative significand ((left.length : Int) - used) rest
      | 'e' :: _ | 'E' :: _ => scaledNumber negative significand left.length rest
      | _ =>
          if left.isEmpty then (wholeNumber negative significand).map (·, rest)
          else scaledNumber negative significand left.length rest

def number : List Char → Option (Json × List Char)
  | '-' :: cs => unsignedNumber true cs
  | cs => unsignedNumber false cs

/-! ## Strings -/

/-- The 16-bit unit that four hexadecimal digits write. -/
def unit? (a b c d : Char) : Option Nat := Text.natural? 16 [a, b, c, d]

/-- The character behind a backslash, if it is not `u`. -/
def escaped? : Char → Option Char
  | '"' => some '"'
  | '\\' => some '\\'
  | '/' => some '/'
  | 'b' => some '\x08'
  | 'f' => some '\x0c'
  | 'n' => some '\n'
  | 'r' => some '\r'
  | 't' => some '\t'
  | _ => none

/-- The characters up to the closing quote, and the text behind it.  Control characters must be
    escaped, and a unit of a surrogate pair must not stand alone. -/
def stringBody : List Char → Option (List Char × List Char)
  | [] => none
  | '"' :: rest => some ([], rest)
  | '\\' :: 'u' :: a :: b :: c :: d :: rest => do
      let unit ← unit? a b c d
      if 0xDC00 ≤ unit ∧ unit ≤ 0xDFFF then none
      else if 0xD800 ≤ unit ∧ unit ≤ 0xDBFF then
        match rest with
        | '\\' :: 'u' :: a :: b :: c :: d :: rest =>
            let low ← unit? a b c d
            if 0xDC00 ≤ low ∧ low ≤ 0xDFFF then
              let c := Char.ofNat (0x10000 + (unit - 0xD800) * 0x400 + (low - 0xDC00))
              (stringBody rest).map fun (cs, rest) => (c :: cs, rest)
            else none
        | _ => none
      else (stringBody rest).map fun (cs, rest) => (Char.ofNat unit :: cs, rest)
  | '\\' :: c :: rest => do
      let c ← escaped? c
      (stringBody rest).map fun (cs, rest) => (c :: cs, rest)
  | c :: rest =>
      if c.toNat < 0x20 ∨ c = '\\' then none
      else (stringBody rest).map fun (cs, rest) => (c :: cs, rest)

/-! ## Values -/

/-- Skips the blanks that may stand between tokens. -/
def skipBlanks (cs : List Char) : List Char :=
  cs.dropWhile fun c => c = ' ' || c = '\n' || c = '\t' || c = '\r'

mutual

/-- A value at the head of the text, in which arrays and objects may still nest `depth` levels. -/
def value : Nat → Nat → List Char → Option (Json × List Char)
  | 0, _, _ => none
  | fuel + 1, depth, cs =>
      match cs, depth with
      | 'n' :: 'u' :: 'l' :: 'l' :: rest, _ => some (.null, rest)
      | 't' :: 'r' :: 'u' :: 'e' :: rest, _ => some (.bool true, rest)
      | 'f' :: 'a' :: 'l' :: 's' :: 'e' :: rest, _ => some (.bool false, rest)
      | '"' :: rest, _ => (stringBody rest).map fun (s, rest) => (.str (String.ofList s), rest)
      | '[' :: rest, depth + 1 =>
          match skipBlanks rest with
          | ']' :: rest => some (.arr [], rest)
          | rest => (items fuel depth rest).map fun (xs, rest) => (.arr xs, rest)
      | '{' :: rest, depth + 1 =>
          match skipBlanks rest with
          | '}' :: rest => some (.obj [], rest)
          | rest =>
              (entries fuel depth rest).map fun (ms, rest) => (.obj (Members.ofEntries ms), rest)
      | cs, _ => number cs

/-- The items of an array up to its closing bracket, at least one. -/
def items : Nat → Nat → List Char → Option (List Json × List Char)
  | 0, _, _ => none
  | fuel + 1, depth, cs => do
      let (first, rest) ← value fuel depth cs
      match skipBlanks rest with
      | ']' :: rest => some ([first], rest)
      | ',' :: rest =>
          (items fuel depth (skipBlanks rest)).map fun (xs, rest) => (first :: xs, rest)
      | _ => none

/-- The entries of an object up to its closing brace, at least one. -/
def entries : Nat → Nat → List Char → Option (List (String × Json) × List Char)
  | 0, _, _ => none
  | fuel + 1, depth, cs =>
      match cs with
      | '"' :: rest => do
          let (key, rest) ← stringBody rest
          match skipBlanks rest with
          | ':' :: rest =>
              let (first, rest) ← value fuel depth (skipBlanks rest)
              let entry := (String.ofList key, first)
              match skipBlanks rest with
              | '}' :: rest => some ([entry], rest)
              | ',' :: rest =>
                  (entries fuel depth (skipBlanks rest)).map fun (es, rest) => (entry :: es, rest)
              | _ => none
          | _ => none
      | _ => none

end

/-- How deep values may nest. -/
def maxDepth : Nat := 127

/-- The JSON value that a text writes.  Each level of nesting and each further item takes a
    character, so twice as many steps as there are characters suffice. -/
def ofText? (text : String) : Option Json :=
  let cs := text.toList
  match value (2 * cs.length + 1) maxDepth (skipBlanks cs) with
  | some (json, rest) => if (skipBlanks rest).isEmpty then some json else none
  | none => none

end Json

end StudioScript
