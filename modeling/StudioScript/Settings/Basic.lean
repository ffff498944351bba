import StudioScript.Number.Rounding

/-! # Settings

What can be set for a run: how much is logged, how the answer is laid out, and the lengths of new
clips for which a script gives none.
-/

namespace StudioScript

/-- The lengths of new clips: in bars for one that starts at a bar, in seconds for one that starts
    at a time. -/
structure ClipDefaults where
  lengthBars : Int := 4
  lengthSeconds : Number := Number.ofNat 4
deriving DecidableEq, Repr, Inhabited

/-- The settings of a run. -/
structure Settings where
  logLevel : String := "warn"
  pretty : Bool := false
  clipDefaults : ClipDefaults := {}
deriving DecidableEq, Repr, Inhabited

end StudioScript
