import StudioScript.Number.Reading
import StudioScript.SyntaxError

/-! # Reading tokens

`Token.ofText` reads a text as tokens.  Blanks and comments between tokens are skipped; a comment
runs from `//` to the end of its line.  What a token is, is decided by its first character
(`Lexeme.read`): a comparison of two characters is never split, and a name, a number or a string
extends as far as it can.
-/

namespace StudioScript

/-- A token as it stands in a text: its kind, and how many characters follow its first one. -/
structure Lexeme where
  kind : TokenKind
  tail : Nat
deriving DecidableEq, Repr

namespace Lexeme

/-! ## Words -/

/-- Whether a name may start with the character. -/
def startsWord (c : Char) : Bool := c.isAlpha || c == '_'

/-- Whether a name may go on with the character. -/
def continuesWord (c : Char) : Bool := c.isAlphanum || c == '_'

/-- The token that a word is: a keyword, a boolean or a name. -/
def wordKind (word : String) : TokenKind :=
  if word = "track" then .track
  else if word = "filter" then .filter
  else if word = "map" then .map
  else if word = "for_each" then .forEach
  else if word = "in" then .member
  else if word = "true" then .boolean true
  else if word = "false" then .boolean false
  else .identifier word

def word (c : Char) (cs : List Char) : Lexeme :=
  let rest := cs.takeWhile continuesWord
  ⟨wordKind (String.ofList (c :: rest)), rest.length⟩

/-! ## Numbers -/

/-- A point and the digits behind it, if digits follow. -/
def fraction : List Char → List Char
  | '.' :: d :: cs => if d.isDigit then '.' :: d :: cs.takeWhile Char.isDigit else []
  | _ => []

/-- The digits at the head of the text, and a fraction behind them. -/
def unsignedNumeral (cs : List Char) : List Char :=
  cs.takeWhile Char.isDigit ++ fraction (cs.dropWhile Char.isDigit)

/-- The spelling of a number at the head of the text. -/
def numeral : List Char → List Char
  | '-' :: cs => '-' :: unsignedNumeral cs
  | cs => unsignedNumeral cs

def number (c : Char) (cs : List Char) : Except LexicalFault Lexeme :=
  let spelling := numeral (c :: cs)
  match Number.ofChars? spelling with
  | none => .error (.invalidNumber (String.ofList spelling))
  | some value =>
      if value.isFinite then .ok ⟨.number value, spelling.length - 1⟩
      else .error .numberOutOfRange

/-! ## Strings -/

/-- The character that a backslash and the given character stand for. -/
def unescape : Char → Char
  | 'n' => '\n'
  | 't' => '\t'
  | c => c

/-- The characters of a string and the number of characters that write them, its closing quote
    included.  A line feed must stand behind a backslash. -/
def stringBody : List Char → Option (List Char × Nat)
  | [] => none
  | '"' :: _ => some ([], 1)
  | '\n' :: _ => none
  | ['\\'] => none
  | '\\' :: c :: cs => (stringBody cs).map fun (value, size) => (unescape c :: value, size + 2)
  | c :: cs => (stringBody cs).map fun (value, size) => (c :: value, size + 1)

def string (cs : List Char) : Except LexicalFault Lexeme :=
  match stringBody cs with
  | some (value, size) => .ok ⟨.string (String.ofList value), size⟩
  | none => .error .unclosedString

/-! ## All tokens -/

/-- The longer token if an equals sign follows, else the shorter one. -/
def withEquals (cs : List Char) (longer shorter : TokenKind) : Lexeme :=
  if cs.head? = some '=' then ⟨longer, 1⟩ else ⟨shorter, 0⟩

def digitFollows (cs : List Char) : Bool := cs.head?.any Char.isDigit

/-- The token that starts with the character `c` and may go on in `cs`. -/
def read (c : Char) (cs : List Char) : Except LexicalFault Lexeme :=
  match c with
  | '(' => .ok ⟨.leftParen, 0⟩
  | ')' => .ok ⟨.rightParen, 0⟩
  | '[' => .ok ⟨.leftBracket, 0⟩
  | ']' => .ok ⟨.rightBracket, 0⟩
  | '{' => .ok ⟨.leftBrace, 0⟩
  | '}' => .ok ⟨.rightBrace, 0⟩
  | ',' => .ok ⟨.comma, 0⟩
  | ';' => .ok ⟨.semicolon, 0⟩
  | '@' => .ok ⟨.atSign, 0⟩
  | '=' => .ok (withEquals cs .equal .assign)
  | '<' => .ok (withEquals cs .atMost .less)
  | '>' => .ok (withEquals cs .atLeast .greater)
  | '!' => if cs.head? = some '=' then .ok ⟨.notEqual, 1⟩ else .error .loneExclamationMark
  | '"' => string cs
  | '-' => if digitFollows cs || cs.head? = some '.' then number c cs else .error .loneMinus
  | '.' => if digitFollows cs then number c cs else .ok ⟨.dot, 0⟩
  | _ =>
      if c.isDigit then number c cs
      else if startsWord c then .ok (word c cs)
      else .error (.unexpectedCharacter c)

end Lexeme

namespace Token

/-- Whether the character only separates tokens. -/
def isBlank (c : Char) : Bool := c == ' ' || c == '\t' || c == '\r'

def restOfLine (cs : List Char) : List Char := cs.takeWhile (· != '\n')

/-- The tokens of the characters `cs`, of which the first stands at `p`.  Every step leaves fewer
    characters. -/
def ofCharsAt (p : Position) (cs : List Char) : Except SyntaxError (List Token) :=
  match cs with
  | [] => .ok [⟨.endOfInput, p⟩]
  | c :: cs =>
      if isBlank c then ofCharsAt (p.past [c]) cs
      else if c = '/' ∧ cs.head? = some '/' then
        let comment := restOfLine cs
        ofCharsAt (p.past (c :: comment)) (cs.drop comment.length)
      else if c = '\n' then
        (ofCharsAt p.nextLine cs).map (⟨.newline, p⟩ :: ·)
      else
        match Lexeme.read c cs with
        | .error fault => .error ⟨.lexical fault, p⟩
        | .ok lexeme =>
            (ofCharsAt (p.past (c :: cs.take lexeme.tail)) (cs.drop lexeme.tail)).map
              (⟨lexeme.kind, p⟩ :: ·)
termination_by cs.length
decreasing_by all_goals simp only [List.length_cons, List.length_drop]; omega

/-- The tokens of a text; the last one is the end of the input. -/
def ofText (text : String) : Except SyntaxError (List Token) :=
  ofCharsAt .start text.toList

end Token

end StudioScript
