/-! # YAML nodes

A YAML document is a tree of scalars, sequences and mappings (`Yaml`).  A node can be given an
anchor, and an alias stands for the node with its anchor (`Yaml.resolve`).
-/

namespace StudioScript

/-- How a scalar is written. -/
inductive Yaml.Style where
  | plain
  | singleQuoted
  | doubleQuoted
  | literal
  | folded
deriving DecidableEq, Repr, Inhabited

/-- A scalar: its text, and the tag that it has been given. -/
structure Yaml.Scalar where
  text : String := ""
  style : Style := .plain
  tag : Option String := none
deriving DecidableEq, Repr, Inhabited

/-- A YAML node.  Anchors are numbers. -/
inductive Yaml where
  | scalar (value : Yaml.Scalar)
  | sequence (items : List Yaml)
  | mapping (entries : List (Yaml × Yaml))
  | anchored (anchor : Nat) (node : Yaml)
  | aliasOf (anchor : Nat)
deriving Repr, Inhabited

namespace Yaml

/-- The node that nothing writes. -/
def empty : Yaml := .scalar {}

mutual

/-- The nodes with an anchor, in the order in which they start. -/
def definitions : Yaml → List (Nat × Yaml)
  | .anchored anchor node => (anchor, node) :: definitions node
  | .sequence items => itemDefinitions items
  | .mapping entries => entryDefinitions entries
  | .scalar _ | .aliasOf _ => []

/-- The nodes with an anchor among the items of a sequence. -/
def itemDefinitions : List Yaml → List (Nat × Yaml)
  | [] => []
  | item :: items => definitions item ++ itemDefinitions items

/-- The nodes with an anchor in an entry of a mapping. -/
def entryDefinition : Yaml × Yaml → List (Nat × Yaml)
  | (key, value) => definitions key ++ definitions value

/-- The nodes with an anchor among the entries of a mapping. -/
def entryDefinitions : List (Yaml × Yaml) → List (Nat × Yaml)
  | [] => []
  | entry :: entries => entryDefinition entry ++ entryDefinitions entries

end

/-- What a node of a document stands for: an alias for the last node with its anchor, every other
    node for itself. -/
def resolve (document : Yaml) : Yaml → Yaml
  | .aliasOf anchor => (document.definitions.reverse.lookup anchor).getD empty
  | .anchored _ node => node
  | node => node

end Yaml

end StudioScript
