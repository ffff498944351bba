import StudioScript.Number.Text

/-! # Tokens

A script is read as a sequence of tokens, each with the place of its first character.  A line feed
is a token of its own, and the last token is the end of the input.
-/

namespace StudioScript

/-- A place in a text: a line and a column, both counted from one. -/
structure Position where
  line : Nat
  column : Nat
deriving DecidableEq, Repr, Inhabited

namespace Position

def start : Position := ⟨1, 1⟩

def nextLine (p : Position) : Position := ⟨p.line + 1, 1⟩

/-- The place behind characters of one token or of the blanks and comments between tokens.  A line
    feed inside a string takes no column and does not begin a new line. -/
def past (p : Position) (cs : List Char) : Position :=
  { p with column := p.column + cs.countP (· != '\n') }

end Position

/-- What a token is. -/
inductive TokenKind where
  | track
  | filter
  | map
  | forEach
  | member
  | identifier (word : String)
  | string (value : String)
  | number (value : Number)
  | boolean (value : Bool)
  | leftParen
  | rightParen
  | leftBracket
  | rightBracket
  | leftBrace
  | rightBrace
  | comma
  | dot
  | semicolon
  | atSign
  | assign
  | equal
  | notEqual
  | less
  | greater
  | atMost
  | atLeast
  | newline
  | endOfInput
deriving DecidableEq, Repr, Inhabited

namespace TokenKind

def describe : TokenKind → String
  | .track => "'track'"
  | .filter => "'filter'"
  | .map => "'map'"
  | .forEach => "'for_each'"
  | .member => "'in'"
  | .identifier word => "identifier '" ++ word ++ "'"
  | .string value => "string \"" ++ value ++ "\""
  | .number value => "number " ++ value.text
  | .boolean value => if value then "boolean true" else "boolean false"
  | .leftParen => "'('"
  | .rightParen => "')'"
  | .leftBracket => "'['"
  | .rightBracket => "']'"
  | .leftBrace => "'\x7b'"
  | .rightBrace => "'\x7d'"
  | .comma => "','"
  | .dot => "'.'"
  | .semicolon => "';'"
  | .atSign => "'@'"
  | .assign => "'='"
  | .equal => "'=='"
  | .notEqual => "'!='"
  | .less => "'<'"
  | .greater => "'>'"
  | .atMost => "'<='"
  | .atLeast => "'>='"
  | .newline => "end of line"
  | .endOfInput => "end of input"

end TokenKind

/-- A token and the place of its first character. -/
structure Token where
  kind : TokenKind
  position : Position
deriving DecidableEq, Repr, Inhabited

end StudioScript
