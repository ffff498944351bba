import StudioScript.Text.Digit
import StudioScript.Yaml.Character

/-! # Anchors, tags and directives

A tag consists of a handle, which a directive may have given a meaning, and a suffix.  Every reader
takes its part from the head of a text and returns what it read and the text behind it.
-/

namespace StudioScript.Yaml

/-- The word at the head of the text, which may be empty. -/
def word (cs : List Char) : List Char × List Char := cs.span isWord

/-- Whether an anchor may end before the text. -/
def atAnchorEnd (cs : List Char) : Bool :=
  atSpace cs || cs.head?.any (['?', ':', ',', ']', '}', '%', '@', Char.ofNat 0x60].contains ·)

def anchorName? (cs : List Char) : Option (String × List Char) :=
  let (name, rest) := word cs
  if name.isEmpty || !atAnchorEnd rest then none else some (String.ofList name, rest)

/-! ## Tags -/

/-- Whether the character may stand in a tag.  Brackets and commas may in a tag that is written out
    between `<` and `>`. -/
def isTagCharacter (writtenOut : Bool) (c : Char) : Bool :=
  isWord c
    || [';', '/', '?', ':', '@', '&', '=', '+', '$', '.', '!', '~', '*', '\'', '(', ')'].contains c
    || (writtenOut && [',', '[', ']'].contains c)

/-- The octet that two hexadecimal digits behind a percent sign write. -/
def octet? : List Char → Option (Nat × List Char)
  | '%' :: a :: b :: rest => (Text.natural? 16 [a, b]).map (·, rest)
  | _ => none

/-- The number of octets that a first octet announces for its character. -/
def octetCount? (first : Nat) : Option Nat :=
  if first < 0x80 then some 1
  else if 0xC0 ≤ first ∧ first < 0xE0 then some 2
  else if 0xE0 ≤ first ∧ first < 0xF0 then some 3
  else if 0xF0 ≤ first ∧ first < 0xF8 then some 4
  else none

/-- So many octets that go on with a character. -/
def moreOctets : Nat → List Char → Option (List Nat × List Char)
  | 0, cs => some ([], cs)
  | count + 1, cs => do
      let (octet, rest) ← octet? cs
      if octet < 0x80 ∨ 0xC0 ≤ octet then none
      let (octets, rest) ← moreOctets count rest
      return (octet :: octets, rest)

/-- The octets of one character.  An octet is kept as the character with its number. -/
def escapedCharacter? (cs : List Char) : Option (List Char × List Char) := do
  let (first, rest) ← octet? cs
  let count ← octetCount? first
  let (more, rest) ← moreOctets (count - 1) rest
  return ((first :: more).map Char.ofNat, rest)

def tagCharacters (writtenOut : Bool) : Nat → List Char → Option (List Char × List Char)
  | 0, cs => some ([], cs)
  | steps + 1, cs =>
      match cs with
      | [] => some ([], [])
      | c :: rest =>
          if c == '%' then do
            let (octets, rest) ← escapedCharacter? cs
            let (more, rest) ← tagCharacters writtenOut steps rest
            return (octets ++ more, rest)
          else if isTagCharacter writtenOut c then
            (tagCharacters writtenOut steps rest).map fun (more, rest) => (c :: more, rest)
          else some ([], cs)

/-- The characters of a tag, at least one. -/
def someTagCharacters (writtenOut : Bool) (cs : List Char) : Option (List Char × List Char) :=
  (tagCharacters writtenOut cs.length cs).filter fun (tag, _) => !tag.isEmpty

/-- A tag behind its exclamation mark: its handle and its suffix.  The handle of a tag that is
    written out is empty, and so is that of the tag that is nothing but an exclamation mark. -/
def tagParts? : List Char → Option ((String × String) × List Char)
  | '<' :: cs => do
      let (suffix, rest) ← someTagCharacters true cs
      match rest with
      | '>' :: rest => return (("", String.ofList suffix), rest)
      | _ => none
  | cs => do
      let (name, rest) := word cs
      match rest with
      | '!' :: rest =>
          let (suffix, rest) ← someTagCharacters false rest
          return ((String.ofList ('!' :: name ++ ['!']), String.ofList suffix), rest)
      | _ =>
          let (suffix, rest) ← tagCharacters false cs.length cs
          if suffix.isEmpty then return (("", "!"), rest)
          else return (("!", String.ofList suffix), rest)

/-- A tag behind its exclamation mark.  A space must follow it, or in brackets a comma. -/
def tag? (inFlow : Bool) (cs : List Char) : Option ((String × String) × List Char) :=
  (tagParts? cs).filter fun (_, rest) => atSpace rest || (inFlow && rest.head? == some ',')

/-! ## Directives -/

/-- A directive: the version of YAML, or what a handle stands for. -/
inductive Directive where
  | version (major minor : Nat)
  | tagHandle (handle expansion : String)
deriving DecidableEq, Repr

/-- A number of a version, of at most nine digits. -/
def versionNumber? (cs : List Char) : Option (Nat × List Char) :=
  let (digits, rest) := cs.span Char.isDigit
  if 9 < digits.length then none else (Text.natural? 10 digits).map (·, rest)

def skipBlanks (cs : List Char) : List Char := cs.dropWhile isBlank

/-- The handle that a directive gives a meaning. -/
def handle? : List Char → Option (List Char × List Char)
  | '!' :: cs =>
      match word cs with
      | (name, '!' :: rest) => some ('!' :: name ++ ['!'], rest)
      | ([], rest) => some (['!'], rest)
      | _ => none
  | _ => none

/-- A directive behind its percent sign, up to the end of its line. -/
def directive? (cs : List Char) : Option (Directive × List Char) := do
  let (name, rest) := word cs
  if !atSpace rest then none
  let (directive, rest) ←
    if name = ['Y', 'A', 'M', 'L'] then do
      let (major, rest) ← versionNumber? (skipBlanks rest)
      match rest with
      | '.' :: rest => (versionNumber? rest).map fun (minor, rest) =>
          (Directive.version major minor, rest)
      | _ => none
    else if name = ['T', 'A', 'G'] then do
      let (handle, rest) ← handle? (skipBlanks rest)
      if !rest.head?.any isBlank then none
      let (expansion, rest) ← someTagCharacters true (skipBlanks rest)
      if !atSpace rest then none
      return (Directive.tagHandle (String.ofList handle) (String.ofList expansion), rest)
    else none
  let rest := skipBlanks rest
  let rest := if rest.head? = some '#' then rest.dropWhile fun c => !isBreak c else rest
  if rest.head?.all isBreak then return (directive, rest) else none

end StudioScript.Yaml
