import StudioScript.Yaml.BlockScalar
import StudioScript.Yaml.Scalar
import StudioScript.Yaml.Tag
import StudioScript.Yaml.Token.Basic

/-! # Reading YAML tokens

`Token.ofText?` reads a text as tokens.  Three things make up the state of the reading
(`TokenReader`) besides the place in the text.

* *Blocks*: the columns of the collections that are written by indentation.  A deeper column opens a
  block, and a lesser one closes all blocks that are deeper.
* *Brackets*: how many collections in brackets are open.  Indentation does not count in them.
* *Key candidates*: tokens of which a colon may show that they start a key.  There is at most one at
  a time outside of brackets and in every pair of them, and the colon must stand on the same line.
-/

namespace StudioScript.Yaml

/-- A token that may start a key: where it stands, and how many tokens stand before it.  In some
    places only a key can stand (`required`). -/
structure KeyCandidate where
  index : Nat
  line : Nat
  column : Nat
  tokenCount : Nat
  required : Bool
deriving Repr

/-- The state of the reading of tokens: the place, the tokens so far, the last one first, the
    columns of the open blocks, the innermost first, the candidate here, and for each pair of
    brackets that is open the one outside of it. -/
structure TokenReader where
  cursor : Cursor
  tokens : List Token := []
  blocks : List Nat := []
  candidateAllowed : Bool := true
  candidate : Option KeyCandidate := none
  outerCandidates : List (Option KeyCandidate) := []
deriving Repr

namespace TokenReader

def inFlow (s : TokenReader) : Bool := !s.outerCandidates.isEmpty

/-- The least column of what stands inside the innermost block. -/
def innerColumn (s : TokenReader) : Nat := (s.blocks.head?.map (· + 1)).getD 0

/-- Adds a token, and goes on at a place. -/
def emit (s : TokenReader) (t : Token) (c : Cursor) : TokenReader :=
  { s with tokens := t :: s.tokens, cursor := c }

/-- Adds a token that so many characters write. -/
def emitNext (s : TokenReader) (t : Token) (count : Nat) : TokenReader :=
  s.emit t (s.cursor.past count)

def insert (s : TokenReader) (t : Token) (tokenCount : Nat) : TokenReader :=
  let later := s.tokens.length - tokenCount
  { s with tokens := s.tokens.take later ++ t :: s.tokens.drop later }

/-! ## Blocks -/

/-- Opens a block at a column, if it is deeper than the blocks that are open. -/
def openBlock (s : TokenReader) (column : Nat) (t : Token) (tokenCount : Nat) : TokenReader :=
  if !s.inFlow && s.blocks.head?.all (· < column) then
    { s.insert t tokenCount with blocks := column :: s.blocks }
  else s

/-- Opens a block here, if it is deeper than the blocks that are open. -/
def openBlockHere (s : TokenReader) (t : Token) : TokenReader :=
  s.openBlock s.cursor.column t s.tokens.length

/-- Closes the blocks that satisfy a condition, from the innermost on. -/
def closeBlocks (s : TokenReader) (closes : Nat → Bool) : TokenReader :=
  if s.inFlow then s
  else
    let closed := s.blocks.takeWhile closes
    { s with
      tokens := closed.map (fun _ => .blockEnd) ++ s.tokens
      blocks := s.blocks.drop closed.length }

/-! ## Key candidates -/

/-- How many characters behind its start the colon of a key may stand. -/
def maxKeyLength : Nat := 1024

/-- Whether a colon at the place is too far for the candidate. -/
def isPast (c : Cursor) (candidate : KeyCandidate) : Bool :=
  candidate.line < c.line || candidate.index + maxKeyLength < c.index

/-- What is left of a candidate that no colon can follow any more: nothing, but where a key must
    stand this is a fault. -/
def dropCandidate? : Option KeyCandidate → Option (Option KeyCandidate)
  | some candidate => if candidate.required then none else some none
  | none => some none

def passCandidate? (c : Cursor) (candidate : Option KeyCandidate) :
    Option (Option KeyCandidate) :=
  if candidate.any (isPast c) then dropCandidate? candidate else some candidate

/-- Drops the candidates that the place is too far for. -/
def passCandidates (s : TokenReader) : Option TokenReader := do
  let candidate ← passCandidate? s.cursor s.candidate
  let outerCandidates ← s.outerCandidates.mapM (passCandidate? s.cursor)
  return { s with candidate, outerCandidates }

/-- Drops the candidate, and says whether there may be one for the next token. -/
def withoutCandidate (s : TokenReader) (allowed : Bool) : Option TokenReader := do
  let candidate ← dropCandidate? s.candidate
  return { s with candidate, candidateAllowed := allowed }

/-- Makes the next token a candidate where this is allowed. -/
def withCandidate (s : TokenReader) : Option TokenReader :=
  if s.candidateAllowed then do
    let s ← s.withoutCandidate true
    let c := s.cursor
    return { s with
      candidate := some {
        index := c.index, line := c.line, column := c.column, tokenCount := s.tokens.length
        required := !s.inFlow && s.blocks.head? == some c.column } }
  else return s

/-- Makes the next token a candidate where this is allowed, and allows none behind it. -/
def withLastCandidate (s : TokenReader) : Option TokenReader := do
  return { ← s.withCandidate with candidateAllowed := false }

/-! ## Tokens -/

/-- Goes on to the next token: past blanks, comments and line breaks.  Outside of brackets a line
    break allows a key, and a tab must not stand where a key may start.  A byte order mark at the
    start of a line counts as a blank. -/
def skipSpace : Nat → TokenReader → TokenReader
  | 0, s => s
  | steps + 1, s =>
      let c := s.cursor
      let c := if c.column == 0 && c.isAt '\ufeff' then c.past 1 else c
      let c := c.pastWhile fun ch => ch == ' ' || (ch == '\t' && (s.inFlow || !s.candidateAllowed))
      let c := if c.isAt '#' then c.pastWhile fun ch => !isBreak ch else c
      match breakAt? c.rest with
      | some (_, count) => skipSpace steps { s with
          cursor := c.nextLine count, candidateAllowed := s.candidateAllowed || !s.inFlow }
      | none => { s with cursor := c }

def directive (s : TokenReader) : Option TokenReader := do
  let s ← (s.closeBlocks fun _ => true).withoutCandidate false
  let c := s.cursor
  let (directive, rest) ← directive? (c.rest.drop 1)
  let c := c.past (c.rest.length - rest.length)
  let c := match breakAt? c.rest with
    | some (_, count) => c.nextLine count
    | none => c
  match directive with
  | .version major minor => return s.emit (.version major minor) c
  | .tagHandle handle expansion => return s.emit (.tagHandle handle expansion) c

def documentMarker (s : TokenReader) (t : Token) : Option TokenReader := do
  return (← (s.closeBlocks fun _ => true).withoutCandidate false).emitNext t 3

def openFlow (s : TokenReader) (t : Token) : Option TokenReader := do
  let s ← s.withCandidate
  return { s.emitNext t 1 with
    outerCandidates := s.candidate :: s.outerCandidates
    candidate := none
    candidateAllowed := true }

def closeFlow (s : TokenReader) (t : Token) : Option TokenReader := do
  let s ← s.withoutCandidate false
  return match s.outerCandidates with
    | candidate :: outerCandidates => { s.emitNext t 1 with candidate, outerCandidates }
    | [] => s.emitNext t 1

def comma (s : TokenReader) : Option TokenReader := do
  return (← s.withoutCandidate true).emitNext .comma 1

/-- The hyphen before an item of a sequence. -/
def item (s : TokenReader) : Option TokenReader := do
  if !s.inFlow && !s.candidateAllowed then none
  return (← (s.openBlockHere .sequenceStart).withoutCandidate true).emitNext .item 1

/-- The question mark before a key. -/
def key (s : TokenReader) : Option TokenReader := do
  if !s.inFlow && !s.candidateAllowed then none
  return (← (s.openBlockHere .mappingStart).withoutCandidate (!s.inFlow)).emitNext .key 1

/-- The colon before a value.  The candidate, if there is one, has turned out to start the key. -/
def value (s : TokenReader) : Option TokenReader :=
  match s.candidate with
  | some candidate =>
      let s := s.insert .key candidate.tokenCount
      let s := s.openBlock candidate.column .mappingStart candidate.tokenCount
      some ({ s with candidate := none, candidateAllowed := false }.emitNext .value 1)
  | none =>
      if !s.inFlow && !s.candidateAllowed then none
      else some ({ s.openBlockHere .mappingStart with
        candidateAllowed := !s.inFlow }.emitNext .value 1)

/-- An anchor or an alias behind its first character. -/
def anchor (s : TokenReader) (token : String → Token) : Option TokenReader := do
  let s ← s.withLastCandidate
  let (name, rest) ← anchorName? (s.cursor.rest.drop 1)
  return s.emitNext (token name) (s.cursor.rest.length - rest.length)

def tag (s : TokenReader) : Option TokenReader := do
  let s ← s.withLastCandidate
  let ((handle, suffix), rest) ← tag? s.inFlow (s.cursor.rest.drop 1)
  return s.emitNext (.tag handle suffix) (s.cursor.rest.length - rest.length)

def block (s : TokenReader) (style : Style) : Option TokenReader := do
  let s ← s.withoutCandidate true
  let (text, c) ← blockScalar style (s.blocks.head?.getD 0) s.innerColumn (s.cursor.past 1)
  return s.emit (.scalar text style) c

def quoted (s : TokenReader) (quote : Char) (style : Style) : Option TokenReader := do
  let s ← s.withLastCandidate
  let (text, c) ← quotedScalar quote (s.cursor.past 1)
  return s.emit (.scalar text style) c

/-- A plain scalar.  If a line break stands behind it, a key may follow. -/
def plain (s : TokenReader) : Option TokenReader := do
  let s ← s.withLastCandidate
  let (text, c, isBroken) ← plainScalar s.inFlow s.innerColumn s.cursor
  return { s.emit (.scalar text .plain) c with candidateAllowed := isBroken }

/-- The characters that a plain scalar never starts with; the last one is the backquote. -/
def reservedStarts : List Char :=
  [',', '[', ']', '{', '}', '#', '&', '*', '!', '|', '>', '\'', '"', '%', '@', Char.ofNat 0x60]

/-- Whether a plain scalar may start like this. -/
def startsPlain (inFlow : Bool) : List Char → Bool
  | [] => false
  | c :: rest =>
      if c == '-' then !rest.head?.any isBlank
      else if c == '?' || c == ':' then !inFlow && !atSpace rest
      else !isSpace c && !reservedStarts.contains c

/-- Reads a token that starts with the character `c`, before the text `rest`. -/
def token (s : TokenReader) (c : Char) (rest : List Char) : Option TokenReader :=
  if c == '%' && s.cursor.column == 0 then s.directive
  else if s.cursor.isAtMarker '-' then s.documentMarker .documentStart
  else if s.cursor.isAtMarker '.' then s.documentMarker .documentEnd
  else if c == '[' then s.openFlow .openBracket
  else if c == '{' then s.openFlow .openBrace
  else if c == ']' then s.closeFlow .closeBracket
  else if c == '}' then s.closeFlow .closeBrace
  else if c == ',' then s.comma
  else if c == '-' && atSpace rest then s.item
  else if c == '?' && (s.inFlow || atSpace rest) then s.key
  else if c == ':' && (s.inFlow || atSpace rest) then s.value
  else if c == '*' then s.anchor .aliasOf
  else if c == '&' then s.anchor .anchor
  else if c == '!' then s.tag
  else if c == '|' && !s.inFlow then s.block .literal
  else if c == '>' && !s.inFlow then s.block .folded
  else if c == '\'' then s.quoted c .singleQuoted
  else if c == '"' then s.quoted c .doubleQuoted
  else if startsPlain s.inFlow (c :: rest) then s.plain
  else none

/-- Ends the text: nothing can follow a candidate, and all blocks are closed. -/
def finish (s : TokenReader) : Option TokenReader :=
  (s.closeBlocks fun _ => true).withoutCandidate false

def run : Nat → TokenReader → Option TokenReader
  | 0, _ => none
  | steps + 1, s => do
      let s ← (s.skipSpace s.cursor.steps).passCandidates
      let s := s.closeBlocks fun column => s.cursor.column < column
      match s.cursor.rest with
      | [] => s.finish
      | c :: rest => run steps (← s.token c rest)

end TokenReader

/-- The tokens of a text.  Every step of the reading takes a character. -/
def Token.ofText? (text : String) : Option (List Token) :=
  if text.all isAllowed then
    let cursor : Cursor := { rest := text.toList }
    (TokenReader.run cursor.steps { cursor }).map fun s => s.tokens.reverse
  else none

end StudioScript.Yaml
