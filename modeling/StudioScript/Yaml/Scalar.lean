import StudioScript.Text.Digit
import StudioScript.Yaml.Cursor

/-! # Plain and quoted scalars

A scalar outside of block style is written in parts with gaps between them.  A gap within a line is
kept as it is.  A gap with line breaks is *folded*: a single break becomes a space, and of several
breaks the first one goes.  Every reader returns the text of the scalar and the place behind it.
-/

namespace StudioScript.Yaml

/-! ## Gaps -/

/-- What stands between two parts of a scalar: blanks on one line, or line breaks with any blanks
    around them. -/
inductive Gap where
  | blanks (text : List Char)
  | breaks (first more : List Char)
deriving Repr

namespace Gap

/-- The gap without any characters. -/
def none : Gap := .blanks []

def isBroken : Gap → Bool
  | .blanks _ => false
  | .breaks .. => true

/-- The gap with a further blank.  Blanks do not count next to a line break. -/
def addBlank (c : Char) : Gap → Gap
  | .blanks text => .blanks (text ++ [c])
  | gap => gap

def addBreak (text : List Char) : Gap → Gap
  | .blanks _ => .breaks text []
  | .breaks first more => .breaks first (more ++ text)

/-- What the gap counts as. -/
def text : Gap → List Char
  | .blanks text => text
  | .breaks ['\n'] [] => [' ']
  | .breaks ['\n'] more => more
  | .breaks first more => first ++ more

end Gap

/-- Extends a gap by the blanks and the line breaks that follow.  Behind a break no tab may stand
    before the given column. -/
def gapFrom (textColumn : Nat) : Nat → Gap → Cursor → Option (Gap × Cursor)
  | 0, gap, c => some (gap, c)
  | steps + 1, gap, c =>
      match breakAt? c.rest with
      | some (text, count) => gapFrom textColumn steps (gap.addBreak text) (c.nextLine count)
      | none =>
          match c.next? with
          | some blank =>
              if !isBlank blank then some (gap, c)
              else if blank == '\t' && gap.isBroken && c.column < textColumn then none
              else gapFrom textColumn steps (gap.addBlank blank) (c.past 1)
          | none => some (gap, c)

/-! ## Plain scalars -/

/-- The part of a plain scalar at the head of the text.  A colon before a space ends it, and so does
    in brackets a character that has a meaning there.  A colon must not stand before one of these,
    nor before a question mark. -/
def plainPart (inFlow : Bool) : List Char → Option (List Char)
  | [] => some []
  | c :: rest =>
      if isSpace c || (c == ':' && atSpace rest) || (inFlow && isFlowIndicator c) then some []
      else if inFlow && c == ':' && rest.head?.any (fun next => isFlowIndicator next || next == '?')
          then none
      else (plainPart inFlow rest).map (c :: ·)

/-- Reads on in a plain scalar behind a text and a gap.  It goes on over lines as long as they are
    indented up to the given column.  The gap behind its last part is returned as well. -/
def plainFrom (inFlow : Bool) (textColumn : Nat) :
    Nat → List Char → Gap → Cursor → Option (List Char × Gap × Cursor)
  | 0, text, gap, c => some (text, gap, c)
  | steps + 1, text, gap, c =>
      if c.isAtDocumentMarker || c.isAt '#' then some (text, gap, c)
      else do
        let part ← plainPart inFlow c.rest
        let (text, gap) := if part.isEmpty then (text, gap) else (text ++ gap.text ++ part, .none)
        let c := c.past part.length
        if c.next?.any isSpace then
          let (gap, c) ← gapFrom textColumn c.steps gap c
          if !inFlow && c.column < textColumn then return (text, gap, c)
          else plainFrom inFlow textColumn steps text gap c
        else return (text, gap, c)

/-- A plain scalar, the place behind it, and whether a line break stands before that place. -/
def plainScalar (inFlow : Bool) (textColumn : Nat) (c : Cursor) :
    Option (String × Cursor × Bool) := do
  let (text, gap, c) ← plainFrom inFlow textColumn c.steps [] .none c
  return (String.ofList text, c, gap.isBroken)

/-! ## Quoted scalars -/

/-- A part of a quoted scalar: its text, and how many characters write it. -/
structure Part where
  text : List Char := []
  size : Nat := 0
deriving Repr

/-- The part with a further character before it, which so many characters write. -/
def Part.cons (c : Char) (size : Nat) (part : Part) : Part := ⟨c :: part.text, part.size + size⟩

/-- The part of a scalar in single quotes at the head of the text.  Two quotes write one. -/
def singleQuotedPart : List Char → Part
  | [] => {}
  | '\'' :: '\'' :: rest => (singleQuotedPart rest).cons '\'' 2
  | c :: rest => if isSpace c || c == '\'' then {} else (singleQuotedPart rest).cons c 1

/-- The character behind a backslash, if it stands for a single character. -/
def escaped? : Char → Option Char
  | '0' => some '\x00'
  | 'a' => some '\x07'
  | 'b' => some '\x08'
  | 't' | '\t' => some '\t'
  | 'n' => some '\n'
  | 'v' => some '\x0b'
  | 'f' => some '\x0c'
  | 'r' => some '\r'
  | 'e' => some '\x1b'
  | ' ' => some ' '
  | '"' => some '"'
  | '/' => some '/'
  | '\\' => some '\\'
  | 'N' => some '\u0085'
  | '_' => some '\u00a0'
  | 'L' => some '\u2028'
  | 'P' => some '\u2029'
  | _ => none

/-- The character whose code point hexadecimal digits write. -/
def codePoint? (digits : List Char) : Option Char :=
  (Text.natural? 16 digits).bind fun n => if n.isValidChar then some (Char.ofNat n) else none

/-- The part of a scalar in double quotes at the head of the text.  A backslash before a line break
    ends it. -/
def doubleQuotedPart : List Char → Option Part
  | [] => some {}
  | '\\' :: 'x' :: a :: b :: rest => do
      let c ← codePoint? [a, b]
      return (← doubleQuotedPart rest).cons c 4
  | '\\' :: 'u' :: a :: b :: c :: d :: rest => do
      let c ← codePoint? [a, b, c, d]
      return (← doubleQuotedPart rest).cons c 6
  | '\\' :: 'U' :: a :: b :: c :: d :: e :: f :: g :: h :: rest => do
      let c ← codePoint? [a, b, c, d, e, f, g, h]
      return (← doubleQuotedPart rest).cons c 10
  | '\\' :: c :: rest =>
      if isBreak c then some {}
      else do
        let c ← escaped? c
        return (← doubleQuotedPart rest).cons c 2
  | c :: rest =>
      if isSpace c || c == '"' then some {}
      else if c == '\\' then none
      else (doubleQuotedPart rest).map (·.cons c 1)

/-- Reads on in a quoted scalar behind a text.  A line break behind a backslash counts as
    nothing. -/
def quotedFrom (quote : Char) : Nat → List Char → Cursor → Option (List Char × Cursor)
  | 0, _, _ => none
  | steps + 1, text, c =>
      if c.isAtDocumentMarker then none
      else do
        let part ← if quote == '"' then doubleQuotedPart c.rest
          else some (singleQuotedPart c.rest)
        let text := text ++ part.text
        let c := c.past part.size
        let next ← c.next?
        if next == quote then return (text, c.past 1)
        else
          let (gap, c) := match next, breakAt? (c.past 1).rest with
            | '\\', some (_, count) => (Gap.breaks [] [], (c.past 1).nextLine count)
            | _, _ => (Gap.none, c)
          let (gap, c) ← gapFrom 0 c.steps gap c
          quotedFrom quote steps (text ++ gap.text) c

/-- A quoted scalar behind its opening quote. -/
def quotedScalar (quote : Char) (c : Cursor) : Option (String × Cursor) := do
  let (text, c) ← quotedFrom quote c.steps [] c
  return (String.ofList text, c)

end StudioScript.Yaml
