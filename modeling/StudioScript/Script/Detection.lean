import StudioScript.Text.Blank

/-! # Telling scripts from other text

A cheap check for whether a text is a script rather than prose or JSON, and the short form of a
text for log lines.  The check looks at the text alone and parses nothing.
-/

namespace StudioScript

namespace Detection

def heads : List String := ["track(", "filter(", "map(", "for_each("]

/-- The methods whose chained call shows a script, wherever it stands. -/
def markedMethods : List String :=
  ["new_clip", "newClip", "add_fx", "addFX", "addFx", "set_track", "setTrack", "delete",
    "delete_clip", "deleteClip", "set_clip", "setClip", "move_clip", "moveClip", "add_automation",
    "addAutomation"]

def marker (method : String) : String := "." ++ method ++ "("

def occursIn (part : List Char) : List Char → Bool
  | [] => part.isEmpty
  | c :: cs => part.isPrefixOf (c :: cs) || occursIn part cs

/-- Whether the text looks like a script: it starts with a statement or holds a chained call, and
    is not a JSON object or array. -/
def looksLikeScript (text : String) : Bool :=
  let cs := Text.trimChars text.toList
  match cs with
  | [] | '{' :: _ | '[' :: _ => false
  | _ =>
      heads.any (fun head => head.toList.isPrefixOf cs) ||
        markedMethods.any fun method => occursIn (marker method).toList cs

def previewLength : Nat := 200

/-- The start of a text, with three dots if more follows. -/
def preview (text : String) : String :=
  let cs := text.toList
  if cs.length ≤ previewLength then text
  else String.ofList (cs.take previewLength ++ ['.', '.', '.'])

end Detection

end StudioScript
