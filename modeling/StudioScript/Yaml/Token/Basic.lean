import StudioScript.Yaml.Basic

/-! # YAML tokens

The tokens that a YAML text consists of.  The tokens that start and end a block are not written:
they stand for a change of the indentation.  The same goes for the key token, which stands before a
key even if only the colon behind it shows that it is one.
-/

namespace StudioScript.Yaml

/-- A YAML token. -/
inductive Token where
  | version (major minor : Nat)
  | tagHandle (handle expansion : String)
  | documentStart
  | documentEnd
  | sequenceStart
  | mappingStart
  | blockEnd
  | openBracket
  | closeBracket
  | openBrace
  | closeBrace
  | item
  | comma
  | key
  | value
  | anchor (name : String)
  | aliasOf (name : String)
  | tag (handle suffix : String)
  | scalar (text : String) (style : Style)
deriving DecidableEq, Repr, Inhabited

end StudioScript.Yaml
