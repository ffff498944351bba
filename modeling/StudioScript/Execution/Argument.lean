import StudioScript.Color
import StudioScript.Execution.Error
import StudioScript.Script.Arguments

/-! # Reading arguments

What a call makes of an argument: nothing if it is missing, a value of the type that the call
wants, or the fault that the call fails with.  A string that writes a number counts as that number.
-/

namespace StudioScript

namespace Arguments

/-- Whole numbers reach up to this, exclusively, and down to its negative. -/
def wholeBound : Int := 1000000000000000

def refuse {α : Type} (call key : String) (fault : ArgumentFault) : Except RunError α :=
  .error (.invalidArgument call key fault)

def number? (args : Arguments) (call key : String) : Except RunError (Option Number) :=
  match args.get? key with
  | none => .ok none
  | some value =>
      match value.toNumber? with
      | some x => .ok (some x)
      | none => refuse call key (.notNumber value.typeName)

def whole? (args : Arguments) (call key : String) : Except RunError (Option Int) := do
  match ← args.number? call key with
  | none => return none
  | some x =>
      match x.whole? with
      | some i =>
          if -wholeBound < i ∧ i < wholeBound then return some i
          else refuse call key (.notWhole x)
      | none => refuse call key (.notWhole x)

def index? (args : Arguments) (call key : String) : Except RunError (Option Nat) := do
  match ← args.whole? call key with
  | none => return none
  | some i => if 0 ≤ i then return some i.toNat else refuse call key (.notIndex i)

def string? (args : Arguments) (call key : String) : Except RunError (Option String) :=
  match args.get? key with
  | none => .ok none
  | some (.string s) => .ok (some s)
  | some value => refuse call key (.notString value.typeName)

def boolean? (args : Arguments) (call key : String) : Except RunError (Option Bool) :=
  match args.get? key with
  | none => .ok none
  | some (.boolean b) => .ok (some b)
  | some value => refuse call key (.notBoolean value.typeName)

/-- The argument `color`. -/
def color? (args : Arguments) (call : String) : Except RunError (Option String) :=
  match args.get? "color" with
  | none => .ok none
  | some value =>
      match Color.ofLiteral? value with
      | some color => .ok (some color)
      | none => refuse call "color" (.notColor value.text)

/-- A string that must be there. -/
def string (args : Arguments) (call key : String) : Except RunError String := do
  match ← args.string? call key with
  | some s => return s
  | none => throw (.missingArgument call key)

end Arguments

end StudioScript
