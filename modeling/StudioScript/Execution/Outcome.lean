import StudioScript.Execution.Call
import StudioScript.Script.Parser

/-! # The outcome of a script

A script runs statement by statement.  It stops at the first statement that fails; the failure
keeps the actions of the statements before that one, and none of its own.  A script that comes to
no action at all has failed too.
-/

namespace StudioScript

/-- Why a run failed, and the actions that it had come to before. -/
structure Failure where
  error : RunError
  emitted : List Action
deriving DecidableEq, Repr

/-- What a run comes to. -/
abbrev Outcome := Except Failure (List Action)

namespace Run

/-- Runs statements one after another, up to the first that fails. -/
def statements (ctx : Context) : List Statement → RunState → Except Failure RunState
  | [], s => .ok s
  | st :: rest, s =>
      match statement ctx st s with
      | .ok _ s' => statements ctx rest s'
      | .error e s' => .error ⟨e, s'.actions.take s.actions.length⟩

end Run

namespace Context

def execute (ctx : Context) (script : Script) : Outcome := do
  let final ← Run.statements ctx script.statements (RunState.initial ctx.session)
  if final.actions.isEmpty then throw ⟨.noActions, []⟩ else return final.actions

def run (ctx : Context) (source : String) : Outcome :=
  match Script.ofText source with
  | .ok script => ctx.execute script
  | .error e => .error ⟨.syntaxError e, []⟩

end Context

end StudioScript
