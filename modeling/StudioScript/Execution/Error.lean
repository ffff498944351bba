import StudioScript.Action.Basic
import StudioScript.SyntaxError

/-! # Errors of a run

Why a script could not be turned into actions.  Every error has a fixed name for programs
(`RunError.kind`) and a wording for people (`RunError.message`).
-/

namespace StudioScript

/-- What is wrong with the value of an argument. -/
inductive ArgumentFault where
  | notNumber (typeName : String)
  | notWhole (found : Number)
  | notIndex (found : Int)
  | notString (typeName : String)
  | notBoolean (typeName : String)
  | notColor (text : String)
  | belowFirstId
  | negative
  | notPositive
  | besideFxname
deriving DecidableEq, Repr

def ArgumentFault.message : ArgumentFault → String
  | .notNumber typeName => "expected a number, got " ++ typeName
  | .notWhole found => "expected a whole number, got " ++ found.text
  | .notIndex found => "expected a non-negative index, got " ++ toString found
  | .notString typeName => "expected a string, got " ++ typeName
  | .notBoolean typeName => "expected true or false, got " ++ typeName
  | .notColor text => "not a color: " ++ text
  | .belowFirstId => "track ids start at 1"
  | .negative => "must not be negative"
  | .notPositive => "must be positive"
  | .besideFxname => "give either fxname or instrument, not both"

/-- What is wrong with automation points.  Points are counted from zero. -/
inductive PointsFault where
  | notArray (typeName : String)
  | noPoints
  | notObject (point : Nat) (typeName : String)
  | noValue (point : Nat)
  | notOneTime (point : Nat)
deriving DecidableEq, Repr

def PointsFault.message : PointsFault → String
  | .notArray typeName => "expected an array, got " ++ typeName
  | .noPoints => "no points given"
  | .notObject point typeName =>
      "point " ++ toString point ++ ": expected \x7btime|bar, value\x7d, got " ++ typeName
  | .noValue point => "point " ++ toString point ++ ": missing numeric value"
  | .notOneTime point => "point " ++ toString point ++ ": needs exactly one numeric time or bar"

/-- Why a script could not be turned into actions. -/
inductive RunError where
  | syntaxError (error : SyntaxError)
  | noTrackContext (call : String)
  | noSelectedTrack
  | noCollection (name : String)
  | ambiguousClip (call choices : String) (found : Nat)
  | unsupportedFunction (call name : String)
  | malformedPoints (fault : PointsFault)
  | missingArgument (call argument : String)
  | invalidArgument (call argument : String) (fault : ArgumentFault)
  | noActions
deriving DecidableEq, Repr

namespace RunError

def kind : RunError → String
  | .syntaxError _ => "syntax_error"
  | .noTrackContext _ => "no_track_context"
  | .noSelectedTrack => "no_selected_track"
  | .noCollection _ => "no_collection_found"
  | .ambiguousClip .. => "ambiguous_clip_identifier"
  | .unsupportedFunction .. => "unsupported_function_reference"
  | .malformedPoints _ => "malformed_automation_points"
  | .missingArgument .. => "missing_argument"
  | .invalidArgument .. => "invalid_argument"
  | .noActions => "no_actions_produced"

def message : RunError → String
  | .syntaxError error => error.display
  | .noTrackContext call => "no track context for " ++ call ++ " call"
  | .noSelectedTrack => "no selected track found in session"
  | .noCollection name => "collection '" ++ name ++ "' not found"
  | .ambiguousClip call choices found =>
      call ++ " requires exactly one of " ++ choices ++ " (got " ++ toString found ++ ")"
  | .unsupportedFunction call name =>
      call ++ " does not support function references (@" ++ name ++ ")"
  | .malformedPoints fault => "malformed automation points: " ++ fault.message
  | .missingArgument call argument => call ++ " requires " ++ argument
  | .invalidArgument call argument fault =>
      call ++ ": invalid " ++ argument ++ ": " ++ fault.message
  | .noActions => "script produced no actions"

end RunError

end StudioScript
