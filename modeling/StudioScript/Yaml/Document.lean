import StudioScript.Yaml.Token.Reader

/-! # Reading YAML documents

`Yaml.ofText?` reads a text as one document.  The rules take tokens from the head of a list.  In
many places a node may be missing; it is an empty plain scalar then.

The rules carry a bound on their steps.  At most three rules in a row take no token.
-/

namespace StudioScript.Yaml

/-- What the rules change: the tokens that are left, and the anchors by their names. -/
structure ParseState where
  tokens : List Token
  anchors : List (String × Nat) := []
deriving Repr

/-- A rule. -/
abbrev Parse := StateT ParseState Option

namespace Parse

/-! ## Single tokens -/

/-- The next token, which is left. -/
def next? : Parse (Option Token) := return (← get).tokens.head?

/-- Whether the next token is one of the given ones.  The end of the text counts as none. -/
def isNext (ts : List Token) : Parse Bool := return (← next?).any ts.contains

def skip : Parse Unit := modify fun s => { s with tokens := s.tokens.tail }

/-- Takes the next token if it is the given one, and says whether it was. -/
def takes (t : Token) : Parse Bool := do
  if ← isNext [t] then
    skip
    return true
  else return false

/-- Takes the next token, which must be the given one. -/
def expect (t : Token) : Parse Unit := do
  if !(← takes t) then failure

/-! ## Properties of nodes -/

/-- The meaning of a handle: what the directives say, or else its usual one. -/
def expansion? (handles : List (String × String)) (handle : String) : Option String :=
  (handles ++ [("!", "!"), ("!!", "tag:yaml.org,2002:")]).lookup handle

/-- A tag, if one is next. -/
def tagProperty (handles : List (String × String)) : Parse (Option String) := do
  match ← next? with
  | some (.tag handle suffix) =>
      skip
      if handle.isEmpty then return some suffix
      else match expansion? handles handle with
        | some expansion => return some (expansion ++ suffix)
        | none => failure
  | _ => return none

/-- An anchor, if one is next.  An anchor gets the number of names that there are already. -/
def anchorProperty : Parse (Option Nat) := do
  match ← next? with
  | some (.anchor name) =>
      let anchors := (← get).anchors
      let anchor := anchors.length
      modify fun s => {
        tokens := s.tokens.tail
        anchors := (name, anchor) :: anchors.filter fun (other, _) => other != name }
      return some anchor
  | _ => return none

/-- An anchor and a tag in either order, both of which may be missing. -/
def properties (handles : List (String × String)) : Parse (Option Nat × Option String) := do
  let anchor ← anchorProperty
  let tag ← tagProperty handles
  let anchor ← if anchor.isNone && tag.isSome then anchorProperty else pure anchor
  return (anchor, tag)

/-! ## Nodes -/

/-- The node with an anchor, if there is one. -/
def withAnchor (anchor : Option Nat) (node : Yaml) : Yaml :=
  match anchor with
  | some anchor => .anchored anchor node
  | none => node

mutual

/-- A node.  Nodes by indentation are only allowed in blocks, and a sequence that is not indented
    further than the keys only as a key or a value in a block. -/
def node (handles : List (String × String)) : Nat → Bool → Bool → Parse Yaml
  | 0, _, _ => failure
  | steps + 1, inBlock, inMapping => do
      match ← next? with
      | some (.aliasOf name) =>
          skip
          match (← get).anchors.lookup name with
          | some anchor => return .aliasOf anchor
          | none => failure
      | _ =>
          let (anchor, tag) ← properties handles
          let content ← match ← next? with
            | some .item =>
                if inMapping then .sequence <$> looseItems handles steps
                else if anchor.isSome || tag.isSome then pure (.scalar { tag })
                else failure
            | some (.scalar text style) =>
                skip
                pure (.scalar { text, style, tag })
            | some .openBracket =>
                skip
                .sequence <$> flowItems handles steps true
            | some .openBrace =>
                skip
                .mapping <$> flowEntries handles steps true
            | some .sequenceStart =>
                if inBlock then
                  skip
                  .sequence <$> blockItems handles steps
                else if anchor.isSome || tag.isSome then pure (.scalar { tag })
                else failure
            | some .mappingStart =>
                if inBlock then
                  skip
                  .mapping <$> blockEntries handles steps
                else if anchor.isSome || tag.isSome then pure (.scalar { tag })
                else failure
            | _ =>
                if anchor.isSome || tag.isSome then pure (.scalar { tag })
                else failure
          return withAnchor anchor content

/-- A node that is missing if one of the given tokens is next. -/
def nodeBefore (handles : List (String × String)) :
    Nat → List Token → Bool → Bool → Parse Yaml
  | 0, _, _, _ => failure
  | steps + 1, ends, inBlock, inMapping => do
      if ← isNext ends then return empty else node handles steps inBlock inMapping

def blockItems (handles : List (String × String)) : Nat → Parse (List Yaml)
  | 0 => failure
  | steps + 1 => do
      if ← takes .item then
        let item ← nodeBefore handles steps [.item, .blockEnd] true false
        let items ← blockItems handles steps
        return item :: items
      else
        expect .blockEnd
        return []

/-- The items of a sequence that is not indented further than the keys around it. -/
def looseItems (handles : List (String × String)) : Nat → Parse (List Yaml)
  | 0 => failure
  | steps + 1 => do
      if ← takes .item then
        let item ← nodeBefore handles steps [.item, .key, .value, .blockEnd] true false
        let items ← looseItems handles steps
        return item :: items
      else return []

def blockEntries (handles : List (String × String)) : Nat → Parse (List (Yaml × Yaml))
  | 0 => failure
  | steps + 1 => do
      if ← takes .key then
        let key ← nodeBefore handles steps [.key, .value, .blockEnd] true true
        let value ← if ← takes .value then
            nodeBefore handles steps [.key, .value, .blockEnd] true true
          else pure empty
        let entries ← blockEntries handles steps
        return (key, value) :: entries
      else
        expect .blockEnd
        return []

/-- The items of a sequence in brackets.  An item may be a mapping of one entry. -/
def flowItems (handles : List (String × String)) : Nat → Bool → Parse (List Yaml)
  | 0, _ => failure
  | steps + 1, isFirst => do
      if ← takes .closeBracket then return []
      else
        if !isFirst then expect .comma
        if ← takes .closeBracket then return []
        else
          let item ← if ← takes .key then
              (fun entry => .mapping [entry]) <$> flowPair handles steps
            else node handles steps false false
          let items ← flowItems handles steps false
          return item :: items

/-- An entry that is an item of a sequence in brackets, behind its key token. -/
def flowPair (handles : List (String × String)) : Nat → Parse (Yaml × Yaml)
  | 0 => failure
  | steps + 1 => do
      let key ← if ← isNext [.value, .comma, .closeBracket] then
          skip
          pure empty
        else node handles steps false false
      let value ← if ← takes .value then
          nodeBefore handles steps [.comma, .closeBracket] false false
        else pure empty
      return (key, value)

/-- The entries of a mapping in braces.  A key may stand without a value. -/
def flowEntries (handles : List (String × String)) :
    Nat → Bool → Parse (List (Yaml × Yaml))
  | 0, _ => failure
  | steps + 1, isFirst => do
      if ← takes .closeBrace then return []
      else
        if !isFirst then expect .comma
        if ← takes .closeBrace then return []
        else
          let entry ← if ← takes .key then do
              let key ← nodeBefore handles steps [.value, .comma, .closeBrace] false false
              let value ← if ← takes .value then
                  nodeBefore handles steps [.comma, .closeBrace] false false
                else pure empty
              pure (key, value)
            else do
              let key ← node handles steps false false
              pure (key, empty)
          let entries ← flowEntries handles steps false
          return entry :: entries

end

/-! ## Documents -/

/-- The meanings that directives give to handles.  The version must be 1.1 or 1.2; it may be given
    once, and so may be the meaning of a handle. -/
def handlesOf? : List Token → Bool → List (String × String) → Option (List (String × String))
  | [], _, handles => some handles
  | .version 1 minor :: ts, false, handles =>
      if minor = 1 ∨ minor = 2 then handlesOf? ts true handles else none
  | .tagHandle handle expansion :: ts, hasVersion, handles =>
      if (handles.lookup handle).isSome then none
      else handlesOf? ts hasVersion ((handle, expansion) :: handles)
  | _ :: _, _, _ => none

def isDirective : Token → Bool
  | .version .. | .tagHandle .. => true
  | _ => false

/-- A whole text: one document.  A text without a document is one with an empty node. -/
def document : Parse Yaml := do
  let ts := (← get).tokens
  let steps := 4 * (ts.length + 1)
  let directives := ts.takeWhile isDirective
  if ts.isEmpty then return empty
  else
    let root ← if directives.isEmpty && ts.head? != some .documentStart then
        node [] steps true false
      else do
        let handles ← handlesOf? directives false []
        modify fun s => { s with tokens := s.tokens.drop directives.length }
        expect .documentStart
        let next ← next?
        if next.all fun t => isDirective t || t == .documentStart || t == .documentEnd then
          pure empty
        else node handles steps true false
    let rest := (← get).tokens.dropWhile (· == .documentEnd)
    if rest.isEmpty then return root else failure

end Parse

def ofText? (text : String) : Option Yaml := do
  let tokens ← Token.ofText? text
  (·.1) <$> Parse.document { tokens }

end StudioScript.Yaml
