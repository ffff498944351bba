import StudioScript.Yaml.Character

/-! # Places in a YAML text

A cursor is a place in a text together with the text behind it.  Indentation is a matter of columns,
and a key must not be longer than the number of characters that the index counts.
-/

namespace StudioScript.Yaml

/-- A place in a text, and the text behind it.  Lines and columns count from zero. -/
structure Cursor where
  rest : List Char
  index : Nat := 0
  line : Nat := 0
  column : Nat := 0
deriving Repr

namespace Cursor

/-- The place behind so many characters of the same line. -/
def past (c : Cursor) (count : Nat) : Cursor :=
  { c with rest := c.rest.drop count, index := c.index + count, column := c.column + count }

/-- The place behind a line break of so many characters. -/
def nextLine (c : Cursor) (count : Nat) : Cursor :=
  { rest := c.rest.drop count, index := c.index + count, line := c.line + 1, column := 0 }

/-- The place behind the characters of the same line that satisfy a condition. -/
def pastWhile (c : Cursor) (p : Char → Bool) : Cursor := c.past (c.rest.takeWhile p).length

def next? (c : Cursor) : Option Char := c.rest.head?

def isAt (c : Cursor) (expected : Char) : Bool := c.next? == some expected

/-- A bound on the steps of a loop that takes at least a character in every step but the last. -/
def steps (c : Cursor) : Nat := c.rest.length + 2

/-- Whether three of the given characters stand here at the start of a line, and a space behind
    them. -/
def isAtMarker (c : Cursor) (marker : Char) : Bool :=
  c.column == 0 && match c.rest with
    | x :: y :: z :: rest => x == marker && y == marker && z == marker && atSpace rest
    | _ => false

/-- Whether a line that starts or ends a document stands here. -/
def isAtDocumentMarker (c : Cursor) : Bool := c.isAtMarker '-' || c.isAtMarker '.'

end Cursor

end StudioScript.Yaml
