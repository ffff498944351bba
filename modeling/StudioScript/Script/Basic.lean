import StudioScript.Script.Arguments
import StudioScript.Script.Method

/-! # Scripts

A script is a list of statements.  A statement is a head call and the methods that are chained onto
it: `track(id=1).set_track(mute=true)` is one statement with two calls.
-/

namespace StudioScript

/-- How a predicate compares a field with a literal. -/
inductive Comparison where
  | equal
  | notEqual
  | less
  | greater
  | atMost
  | atLeast
  | member
deriving DecidableEq, Repr, Inhabited

def Comparison.symbol : Comparison → String
  | .equal => "=="
  | .notEqual => "!="
  | .less => "<"
  | .greater => ">"
  | .atMost => "<="
  | .atLeast => ">="
  | .member => "in"

/-- A condition on the items of a collection: `binder.field comparison operand`. -/
structure Predicate where
  binder : String
  field : String
  comparison : Comparison
  operand : Literal
deriving Repr, Inhabited

/-- The predicate on one line; a string operand stands in quotes. -/
def Predicate.text (p : Predicate) : String :=
  let operand := match p.operand with
    | .string s => "\"" ++ s ++ "\""
    | other => other.text
  p.binder ++ "." ++ p.field ++ " " ++ p.comparison.symbol ++ " " ++ operand

/-- A method and its arguments. -/
structure Invocation where
  method : Method
  args : Arguments
deriving Repr, Inhabited

/-- What `map` and `for_each` apply to each item: a function by its name, or a method of the item
    under the binder. -/
inductive ItemFunction where
  | named (name : String)
  | method (binder : String) (invocation : Invocation)
deriving Repr, Inhabited

/-- A single call of a statement. -/
inductive Call where
  | track (args : Arguments)
  | method (invocation : Invocation)
  | filter (collection : String) (predicate : Predicate)
  | map (collection : String) (function : ItemFunction)
  | forEach (collection : String) (function : ItemFunction)
deriving Repr, Inhabited

namespace Call

def name : Call → String
  | .track _ => "track"
  | .method invocation => invocation.method.name
  | .filter .. => "filter"
  | .map .. => "map"
  | .forEach .. => "for_each"

/-- Whether methods may be chained onto the call. -/
def isChainable : Call → Bool
  | .map .. | .forEach .. => false
  | _ => true

end Call

/-- A head call and the methods chained onto it. -/
structure Statement where
  line : Nat
  head : Call
  chain : List Invocation
deriving Repr, Inhabited

/-- The calls of a statement, in order. -/
def Statement.calls (s : Statement) : List Call := s.head :: s.chain.map .method

/-- A parsed script. -/
structure Script where
  statements : List Statement
deriving Repr, Inhabited

namespace Script

/-- The calls of a script, in order. -/
def calls (script : Script) : List Call := script.statements.flatMap Statement.calls

end Script

end StudioScript
