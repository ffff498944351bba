/-! # The characters of YAML

Which characters a YAML text may have, which of them end a line, and which have a meaning of their
own in brackets.
-/

namespace StudioScript.Yaml

/-- Whether the character may stand in a YAML text: no control characters but tabs and line breaks,
    and none of the last two code points of the basic plane. -/
def isAllowed (c : Char) : Bool :=
  let n := c.toNat
  c == '\t' || c == '\n' || c == '\r' || (0x20 ≤ n && n ≤ 0x7E) || n == 0x85
    || (0xA0 ≤ n && n ≤ 0xFFFD) || 0x10000 ≤ n

def isBlank (c : Char) : Bool := c == ' ' || c == '\t'

def isBreak (c : Char) : Bool :=
  c == '\n' || c == '\r' || c == '\u0085' || c == '\u2028' || c == '\u2029'

def isSpace (c : Char) : Bool := isBlank c || isBreak c

/-- Whether the text ends or goes on with a character that separates words. -/
def atSpace (cs : List Char) : Bool := cs.head?.all isSpace

/-- The characters of names: letters, digits, hyphens and underscores of ASCII. -/
def isWord (c : Char) : Bool := c.isAlphanum || c == '_' || c == '-'

/-- Whether the character separates or encloses nodes in brackets. -/
def isFlowIndicator (c : Char) : Bool := [',', '[', ']', '{', '}'].contains c

/-- The line break at the head of a text: what it counts as, and how many characters write it.  The
    separators of Unicode count as themselves, all other breaks as line feeds. -/
def breakAt? : List Char → Option (List Char × Nat)
  | '\r' :: '\n' :: _ => some (['\n'], 2)
  | c :: _ =>
      if c == '\u2028' || c == '\u2029' then some ([c], 1)
      else if isBreak c then some (['\n'], 1)
      else none
  | [] => none

end StudioScript.Yaml
