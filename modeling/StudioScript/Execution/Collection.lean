import StudioScript.Session.Item

/-! # Collections

A collection is a list of items under a name.  The name says how predicates call an item of it:
`track` in `tracks`, `clip` in `clips_filtered`, `fx` in `fx_chain`.
-/

namespace StudioScript

/-- Items under a name. -/
structure Collection where
  name : String
  items : List Item
deriving Repr, Inhabited

namespace Collection

/-- What the name of a filtered collection ends in. -/
def filteredSuffix : String := "_filtered"

/-- What the name of a mapped collection ends in. -/
def mappedSuffix : String := "_mapped"

/-- The characters without an ending, if they have it. -/
def withoutSuffix? (suffix cs : List Char) : Option (List Char) :=
  if suffix.isSuffixOf cs then some (cs.take (cs.length - suffix.length)) else none

/-- The name that a collection was derived from by its last filter or map, if it was. -/
def derivedFrom? (cs : List Char) : Option (List Char) :=
  (withoutSuffix? filteredSuffix.toList cs).or (withoutSuffix? mappedSuffix.toList cs)

/-- Taking off an ending leaves fewer characters. -/
theorem length_lt_of_withoutSuffix? {suffix cs rest : List Char} (ending : suffix ≠ [])
    (h : withoutSuffix? suffix cs = some rest) : rest.length < cs.length := by
  simp only [withoutSuffix?] at h
  split at h
  · next ends =>
    have shorter := (List.isSuffixOf_iff_suffix.mp ends).length_le
    have positive : 0 < suffix.length := List.length_pos_iff.mpr ending
    cases h
    simp only [List.length_take]
    omega
  · cases h

/-- A derived name is longer than the name that it was derived from. -/
theorem length_lt_of_derivedFrom? {cs rest : List Char} (h : derivedFrom? cs = some rest) :
    rest.length < cs.length := by
  rcases Option.or_eq_some_iff.mp h with filtered | ⟨_, mapped⟩
  · exact length_lt_of_withoutSuffix? (by decide) filtered
  · exact length_lt_of_withoutSuffix? (by decide) mapped

/-- The name that a collection was derived from by any number of filters and maps. -/
def baseName (cs : List Char) : List Char :=
  match _h : derivedFrom? cs with
  | some rest => baseName rest
  | none => cs
termination_by cs.length
decreasing_by exact length_lt_of_derivedFrom? _h

/-- The name of one item of a collection with the given base name: the name without its plural
    ending, or `item` if nothing is left or there is none. -/
def singular (base : String) : String :=
  if base = "tracks" then "track"
  else if base = "clips" then "clip"
  else if base = "fx_chain" ∨ base = "fx" then "fx"
  else
    match withoutSuffix? ['s'] base.toList with
    | some (c :: cs) => String.ofList (c :: cs)
    | _ => "item"

/-- What predicates call an item of a collection with the given name. -/
def itemNameOf (name : String) : String := singular (String.ofList (baseName name.toList))

/-- What predicates call an item of the collection. -/
def itemName (c : Collection) : String := itemNameOf c.name

end Collection

end StudioScript
