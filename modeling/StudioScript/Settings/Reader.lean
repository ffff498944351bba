import StudioScript.Number.Reading
import StudioScript.Settings.Basic
import StudioScript.Text.Blank
import StudioScript.Text.Digit
import StudioScript.Yaml.Document

/-! # Reading settings

Settings are read from a YAML document, a mapping in which every key may be missing.  Keys that are
not known do not count, whatever their value is; a known key must not occur twice.
-/

namespace StudioScript

/-- Why settings could not be read. -/
inductive SettingsError where
  | notFound (path : String)
  | invalid
deriving DecidableEq, Repr

/-- The wording of the error, where it has a fixed one. -/
def SettingsError.message? : SettingsError → Option String
  | .notFound path => some ("config " ++ path ++ ": No such file or directory (os error 2)")
  | .invalid => none

namespace Settings

/-! ## Scalars -/

/-- The scalar that a node of the document stands for. -/
def scalarOf? (document node : Yaml) : Option Yaml.Scalar :=
  match document.resolve node with
  | .scalar s => some s
  | _ => none

/-- The text of a scalar, however it is written. -/
def textOf? (document node : Yaml) : Option String := (scalarOf? document node).map (·.text)

/-- The text of a scalar that can be more than text: it must be plain, or in literal style with the
    given tag. -/
def typedTextOf? (tag : String) (document node : Yaml) : Option String := do
  let s ← scalarOf? document node
  if s.style = .plain ∨ (s.style = .literal ∧ s.tag = some tag) then return s.text else none

def booleanOf? (document node : Yaml) : Option Bool := do
  let text ← typedTextOf? "tag:yaml.org,2002:bool" document node
  if ["true", "True", "TRUE"].contains text then return true
  else if ["false", "False", "FALSE"].contains text then return false
  else none

/-- Digits with zeros before them write no number. -/
def hasLeadingZero : List Char → Bool
  | '0' :: c :: cs => (c :: cs).all Char.isDigit
  | _ => false

/-- The natural number that is written in a base, or in base ten without a leading zero. -/
def sizeOf? : List Char → Option Nat
  | '0' :: 'x' :: cs => Text.natural? 16 cs
  | '0' :: 'o' :: cs => Text.natural? 8 cs
  | '0' :: 'b' :: cs => Text.natural? 2 cs
  | cs => if hasLeadingZero cs then none else Text.natural? 10 cs

/-- The 64-bit integer that characters write. -/
def integerOfChars? (cs : List Char) : Option Int :=
  let value : Option Int := match cs with
    | '-' :: cs => (sizeOf? cs).map fun n => -(n : Int)
    | '+' :: cs => (sizeOf? cs).map Int.ofNat
    | cs => (sizeOf? cs).map Int.ofNat
  let bound : Int := Nat.pow 2 63
  value.filter fun i => -bound ≤ i && i < bound

def integerOf? (document node : Yaml) : Option Int := do
  integerOfChars? (← typedTextOf? "tag:yaml.org,2002:int" document node).toList

/-- The number that characters write.  Infinities and `nan` have a spelling of their own. -/
def numberOfChars? (cs : List Char) : Option Number :=
  let unsigned := match cs with
    | '+' :: rest => rest
    | _ => cs
  let text := String.ofList cs
  if [".inf", ".Inf", ".INF"].contains (String.ofList unsigned) then some (.infinite false)
  else if ["-.inf", "-.Inf", "-.INF"].contains text then some (.infinite true)
  else if [".nan", ".NaN", ".NAN"].contains text then some .nan
  else if cs.head? = some '+' ∧ (unsigned.head? = some '+' ∨ unsigned.head? = some '-') then none
  else (Number.ofChars? unsigned).filter Number.isFinite

def numberOf? (document node : Yaml) : Option Number := do
  numberOfChars? (← typedTextOf? "tag:yaml.org,2002:float" document node).toList

/-! ## Mappings -/

/-- The entries of a mapping, of which all keys are scalars; an empty plain scalar counts as an
    empty mapping. -/
def entriesOf? (document node : Yaml) : Option (List (String × Yaml)) :=
  match document.resolve node with
  | .mapping entries => entries.mapM fun (key, value) => (textOf? document key).map (·, value)
  | .scalar s => if s.text = "" ∧ s.style = .plain then some [] else none
  | _ => none

/-- The value under a key, or the default if the key is missing. -/
def field {α : Type} (entries : List (String × Yaml)) (key : String) (read : Yaml → Option α)
    (default : α) : Option α :=
  match entries.filter fun (k, _) => k == key with
  | [] => some default
  | [(_, value)] => read value
  | _ => none

def clipDefaultsOf? (document node : Yaml) : Option ClipDefaults := do
  let entries ← entriesOf? document node
  let defaults : ClipDefaults := {}
  let lengthBars ← field entries "length_bars" (integerOf? document) defaults.lengthBars
  let lengthSeconds ← field entries "length_seconds" (numberOf? document) defaults.lengthSeconds
  return { lengthBars, lengthSeconds }

def ofYaml? (document : Yaml) : Option Settings := do
  let entries ← entriesOf? document document
  let defaults : Settings := {}
  let logLevel ← field entries "log_level" (textOf? document) defaults.logLevel
  let pretty ← field entries "pretty" (booleanOf? document) defaults.pretty
  let clipDefaults ←
    field entries "clip_defaults" (clipDefaultsOf? document) defaults.clipDefaults
  return { logLevel, pretty, clipDefaults }

/-- The settings that a text writes.  A blank text leaves all settings at their defaults. -/
def ofText (text : String) : Except SettingsError Settings :=
  if (Text.trim text).isEmpty then .ok {}
  else match (Yaml.ofText? text).bind ofYaml? with
    | some settings => .ok settings
    | none => .error .invalid

/-- The settings in a file with the given content, if the file exists. -/
def ofFile (path : String) : Option ByteArray → Except SettingsError Settings
  | none => .error (.notFound path)
  | some bytes =>
      match String.fromUTF8? bytes with
      | some text => ofText text
      | none => .error .invalid

end Settings

end StudioScript
