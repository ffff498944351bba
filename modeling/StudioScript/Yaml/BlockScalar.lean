import StudioScript.Text.Digit
import StudioScript.Yaml.Basic
import StudioScript.Yaml.Cursor

/-! # Block scalars

A block scalar is a header behind `|` or `>` and the lines below it that are indented far enough.
In *literal* style the line breaks are kept; in *folded* style a break between two lines that do not
start with a blank becomes a space.  The header says what becomes of the breaks at the end.
-/

namespace StudioScript.Yaml

/-! ## Headers -/

/-- What becomes of the line breaks at the end of a block scalar: none is left, one is, or all. -/
inductive Chomping where
  | strip
  | clip
  | keep
deriving DecidableEq, Repr, Inhabited

/-- The header of a block scalar: how much further than its surroundings it is indented, if that is
    said, and its chomping. -/
structure BlockHeader where
  indentation : Option Nat := none
  chomping : Chomping := .clip
deriving DecidableEq, Repr, Inhabited

namespace BlockHeader

/-- The chomping that a character stands for. -/
def chomping? : Char → Option Chomping
  | '-' => some .strip
  | '+' => some .keep
  | _ => none

/-- The indentation that a character stands for; zero is none. -/
def indentation? (c : Char) : Option Nat := (Text.digitValue? 10 c).filter (0 < ·)

/-- The header that characters write, in either order.  The blanks and the comment behind it are
    left out. -/
def ofChars? (cs : List Char) : Option BlockHeader :=
  let (mark, rest) := cs.span fun c => !isBlank c && c != '#'
  let comment := rest.dropWhile isBlank
  if !comment.isEmpty && comment.head? != some '#' then none
  else match mark with
    | [] => some {}
    | [c] => match chomping? c with
        | some chomping => some { chomping }
        | none => (indentation? c).map fun n => { indentation := some n }
    | [c, d] => match chomping? c with
        | some chomping => (indentation? d).map fun n => { indentation := some n, chomping }
        | none => do return { indentation := some (← indentation? c), chomping := ← chomping? d }
    | _ => none

end BlockHeader

/-! ## Lines -/

/-- Reads empty lines, and the indentation of the line behind them up to the given column, if it is
    given.  Returns the line breaks, the column of the widest indentation, and the place. -/
def emptyLines (column : Option Nat) :
    Nat → List Char → Nat → Cursor → Option (List Char × Nat × Cursor)
  | 0, breaks, widest, c => some (breaks, widest, c)
  | steps + 1, breaks, widest, c =>
      let spaces := (c.rest.takeWhile (· == ' ')).length
      let c := c.past (match column with
        | some n => min spaces (n - c.column)
        | none => spaces)
      let widest := max widest c.column
      if c.isAt '\t' && column.all (c.column < ·) then none
      else match breakAt? c.rest with
        | some (text, count) => emptyLines column steps (breaks ++ text) widest (c.nextLine count)
        | none => some (breaks, widest, c)

/-- The lines of a block scalar that were read, and the breaks behind them. -/
structure BlockText where
  lines : List Char := []
  lastBreak : List Char := []
  moreBreaks : List Char := []
  startsBlank : Bool := false
deriving Repr

namespace BlockText

/-- What the breaks become if another line follows. -/
def joint (text : BlockText) (style : Style) (startsBlank : Bool) : List Char :=
  if style = .folded ∧ text.lastBreak = ['\n'] ∧ !text.startsBlank ∧ !startsBlank then
    if text.moreBreaks.isEmpty then [' '] else text.moreBreaks
  else text.lastBreak ++ text.moreBreaks

def chomped (text : BlockText) : Chomping → List Char
  | .strip => text.lines
  | .clip => text.lines ++ text.lastBreak
  | .keep => text.lines ++ text.lastBreak ++ text.moreBreaks

end BlockText

/-- Reads the lines that are indented up to the column. -/
def blockLines (style : Style) (column : Nat) :
    Nat → BlockText → Cursor → Option (BlockText × Cursor)
  | 0, text, c => some (text, c)
  | steps + 1, text, c =>
      if c.column ≠ column ∨ c.rest.isEmpty then some (text, c)
      else do
        let startsBlank := c.next?.any isBlank
        let line := c.rest.takeWhile fun ch => !isBreak ch
        let lines := text.lines ++ text.joint style startsBlank ++ line
        let c := c.past line.length
        let (lastBreak, c) := match breakAt? c.rest with
          | some (lastBreak, count) => (lastBreak, c.nextLine count)
          | none => ([], c)
        let (moreBreaks, _, c) ← emptyLines (some column) c.steps [] 0 c
        blockLines style column steps { lines, lastBreak, moreBreaks, startsBlank } c

/-- A block scalar behind its first character, and the place behind it.  Its lines are indented at
    least up to the given column; an indentation in the header counts from the given parent. -/
def blockScalar (style : Style) (parent leastColumn : Nat) (c : Cursor) :
    Option (String × Cursor) := do
  let header := c.rest.takeWhile fun ch => !isBreak ch
  let { indentation, chomping } ← BlockHeader.ofChars? header
  let c := c.past header.length
  let c := match breakAt? c.rest with
    | some (_, count) => c.nextLine count
    | none => c
  let given := indentation.map (parent + ·)
  let (moreBreaks, widest, c) ← emptyLines given c.steps [] 0 c
  let column := given.getD (max widest (max leastColumn 1))
  let (text, c) ← blockLines style column c.steps { moreBreaks } c
  return (String.ofList (text.chomped chomping), c)

end StudioScript.Yaml
