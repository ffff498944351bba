import StudioScript.Json.Basic
import StudioScript.Number.Text

/-! # Writing JSON

`Json.compact` writes a value without any blanks, and `Json.pretty` with one item a line and two
spaces for each level.  Members are written in the order in which they are given.  Inside a string
only quotes, backslashes and control characters are escaped.
-/

namespace StudioScript

namespace Json

/-- A control character as `\u00xx`, with small hexadecimal digits. -/
def unicodeEscape (c : Char) : List Char :=
  let digit (n : Nat) : Char := Nat.digitChar (n % 16)
  ['\\', 'u', '0', '0', digit (c.toNat / 16), digit c.toNat]

def quotedChar (c : Char) : List Char :=
  if c = '"' then ['\\', '"']
  else if c = '\\' then ['\\', '\\']
  else if c = '\n' then ['\\', 'n']
  else if c = '\t' then ['\\', 't']
  else if c = '\r' then ['\\', 'r']
  else if c = '\x08' then ['\\', 'b']
  else if c = '\x0c' then ['\\', 'f']
  else if c.toNat < 0x20 then unicodeEscape c
  else [c]

def quoted (s : String) : String :=
  String.ofList ('"' :: (s.toList.flatMap quotedChar ++ ['"']))

/-- Where a value stands: on one line with everything else, or at a level of indentation. -/
abbrev Layout := Option Nat

namespace Layout

def inner (layout : Layout) : Layout := layout.map (· + 1)

/-- What stands before an item or a closing bracket. -/
def lineBreak : Layout → String
  | none => ""
  | some level => String.ofList ('\n' :: List.replicate (2 * level) ' ')

def colon : Layout → String
  | none => ":"
  | some _ => ": "

end Layout

mutual

def write (layout : Layout) : Json → String
  | .null => "null"
  | .bool b => if b then "true" else "false"
  | .int i => toString i
  | .real x => x.scientificText?.getD "null"
  | .str s => quoted s
  | .arr [] => "[]"
  | .arr (x :: xs) =>
      "[" ++ layout.inner.lineBreak ++ write layout.inner x ++ writeItems layout.inner xs
        ++ layout.lineBreak ++ "]"
  | .obj [] => "\x7b\x7d"
  | .obj (m :: ms) =>
      "\x7b" ++ layout.inner.lineBreak ++ writeMember layout.inner m
        ++ writeMembers layout.inner ms ++ layout.lineBreak ++ "\x7d"

/-- Further items, each behind a comma. -/
def writeItems (layout : Layout) : List Json → String
  | [] => ""
  | x :: xs => "," ++ layout.lineBreak ++ write layout x ++ writeItems layout xs

def writeMember (layout : Layout) : String × Json → String
  | (key, x) => quoted key ++ layout.colon ++ write layout x

/-- Further members, each behind a comma. -/
def writeMembers (layout : Layout) : List (String × Json) → String
  | [] => ""
  | m :: ms => "," ++ layout.lineBreak ++ writeMember layout m ++ writeMembers layout ms

end

/-- The value on one line, without blanks. -/
def compact (json : Json) : String := write none json

def pretty (json : Json) : String := write (some 0) json

end Json

end StudioScript
