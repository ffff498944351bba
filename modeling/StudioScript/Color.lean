import StudioScript.Literal.Basic
import StudioScript.Text.Lowercase

/-! # Colors

A color argument is a name, a text with a leading `#`, or a number `0xrrggbb`.  Names that the
table knows become `#rrggbb`; other texts are left to the studio.
-/

namespace StudioScript

namespace Color

def named : List (String × String) := [
  ("red", "#ff0000"), ("green", "#00ff00"), ("lime", "#00ff00"), ("blue", "#0000ff"),
  ("yellow", "#ffff00"), ("orange", "#ffa500"), ("purple", "#800080"), ("pink", "#ffc0cb"),
  ("cyan", "#00ffff"), ("aqua", "#00ffff"), ("magenta", "#ff00ff"), ("maroon", "#800000"),
  ("navy", "#000080"), ("olive", "#808000"), ("teal", "#008080"), ("silver", "#c0c0c0"),
  ("gray", "#808080"), ("grey", "#808080"), ("black", "#000000"), ("white", "#ffffff"),
  ("brown", "#a52a2a"), ("violet", "#ee82ee"), ("indigo", "#4b0082"), ("gold", "#ffd700"),
  ("coral", "#ff7f50"), ("salmon", "#fa8072"), ("khaki", "#f0e68c"), ("tan", "#d2b48c"),
  ("beige", "#f5f5dc"), ("ivory", "#fffff0"), ("lavender", "#e6e6fa"), ("plum", "#dda0dd"),
  ("turquoise", "#40e0d0"), ("crimson", "#dc143c"), ("darkred", "#8b0000"),
  ("darkgreen", "#006400"), ("darkblue", "#00008b"), ("lightblue", "#add8e6"),
  ("lightgreen", "#90ee90"), ("lightgray", "#d3d3d3"), ("lightgrey", "#d3d3d3"),
  ("darkgray", "#a9a9a9"), ("darkgrey", "#a9a9a9")]

/-- The color that a text means.  Case and surrounding blanks do not count in a name or behind a
    `#`; any other text stays as it is. -/
def ofText (text : String) : String :=
  let key := Text.lowercase (Text.trim text)
  match named.lookup key with
  | some hex => hex
  | none => if key.startsWith "#" then key else text

/-- Six hexadecimal digits behind a `#`. -/
def ofCode (code : Nat) : String :=
  let digits := Nat.toDigits 16 code
  String.ofList ('#' :: (List.replicate (6 - digits.length) '0' ++ digits))

/-- The largest color code, white. -/
def maxCode : Int := 0xffffff

/-- The color that a literal means, if it can mean one. -/
def ofLiteral? : Literal → Option String
  | .string text => some (ofText text)
  | .number x =>
      match x.whole? with
      | some code => if 0 ≤ code ∧ code ≤ maxCode then some (ofCode code.toNat) else none
      | none => none
  | _ => none

end Color

end StudioScript
