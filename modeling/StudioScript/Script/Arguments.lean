import StudioScript.Literal.Basic

/-! # Arguments

The keyword arguments of a call, in the order in which the script gives them.  No key occurs twice.
-/

namespace StudioScript

/-- Keyword arguments with distinct keys. -/
structure Arguments where
  entries : List (String × Literal)
  distinct : (entries.map Prod.fst).Nodup
deriving Repr

namespace Arguments

def empty : Arguments := ⟨[], List.nodup_nil⟩

instance : Inhabited Arguments := ⟨empty⟩

/-- The keys, in order. -/
def keys (args : Arguments) : List String := args.entries.map Prod.fst

def get? (args : Arguments) (key : String) : Option Literal := Members.get? key args.entries

/-- Adds an argument at the end, unless its key is taken. -/
def add? (args : Arguments) (key : String) (value : Literal) : Option Arguments :=
  if taken : key ∈ args.keys then none
  else some
    { entries := args.entries ++ [(key, value)]
      distinct := by
        simp only [List.map_append, List.map_cons, List.map_nil]
        refine List.nodup_append.mpr ⟨args.distinct, by simp, ?_⟩
        intro k old k' new same
        simp only [List.mem_singleton] at new
        exact taken (new ▸ same ▸ old) }

def single (key : String) (value : Literal) : Arguments := ⟨[(key, value)], by simp⟩

end Arguments

end StudioScript
