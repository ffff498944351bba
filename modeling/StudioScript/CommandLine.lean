import StudioScript.Action.Wire
import StudioScript.Execution.Outcome
import StudioScript.Json.Writer
import StudioScript.Script.Grammar
import StudioScript.Session.Snapshot
import StudioScript.Settings.Reader

/-! # The command line

`CommandLine.Options.ofArguments?` reads the arguments of the program, and `CommandLine.respond`
says what the program answers once the files are read: the exit code and what is printed.

* 0: the script ran; its actions are printed.
* 1: the script failed; the failure is printed, with the actions before it.
* 2: the program could not start; nothing is printed.
-/

namespace StudioScript

namespace CommandLine

/-! ## Arguments -/

/-- What the arguments of the program ask for. -/
structure Options where
  script : Option String := none
  session : Option String := none
  config : Option String := none
  pretty : Bool := false
  verbosity : Nat := 0
  grammar : Bool := false
deriving DecidableEq, Repr, Inhabited

namespace Options

/-- An option of the program. -/
inductive Flag where
  | session
  | config
  | pretty
  | verbose
  | grammar
deriving DecidableEq, Repr

def Flag.ofLong? : String → Option Flag
  | "session" => some .session
  | "config" => some .config
  | "pretty" => some .pretty
  | "verbose" => some .verbose
  | "grammar" => some .grammar
  | _ => none

def Flag.ofShort? : Char → Option Flag
  | 's' => some .session
  | 'c' => some .config
  | 'p' => some .pretty
  | 'v' => some .verbose
  | _ => none

def Flag.takesValue : Flag → Bool
  | .session | .config => true
  | _ => false

/-- Takes an option without a value.  Only `verbose` may be given more than once. -/
def switch? (options : Options) : Flag → Option Options
  | .pretty => if options.pretty then none else some { options with pretty := true }
  | .grammar => if options.grammar then none else some { options with grammar := true }
  | .verbose => some { options with verbosity := options.verbosity + 1 }
  | _ => none

/-- Takes an option with a value, which must not be empty. -/
def assign? (options : Options) (flag : Flag) (value : String) : Option Options :=
  if value.isEmpty then none
  else match flag with
    | .session => if options.session.isSome then none else some { options with session := value }
    | .config => if options.config.isSome then none else some { options with config := value }
    | _ => none

/-- Takes the name of the script, which can be given once and must not be empty. -/
def positional? (options : Options) (value : String) : Option Options :=
  if value.isEmpty || options.script.isSome then none else some { options with script := value }

def splitEquals (cs : List Char) : List Char × Option (List Char) :=
  (cs.takeWhile (· != '='), (cs.dropWhile (· != '=')).tail?)

/-- Whether an argument can be the value of the option before it. -/
def isValue (argument : String) : Bool := !argument.startsWith "-" || argument = "-"

/-- Takes a group of short options.  The first one that has a value takes the rest of the group for
    it, or the next argument; whether it needs the latter is returned with the options. -/
def shortGroup? (options : Options) : List Char → Option (Options × Option Flag)
  | [] => some (options, none)
  | c :: rest => do
      let flag ← Flag.ofShort? c
      if flag.takesValue then
        match rest with
        | [] => some (options, some flag)
        | '=' :: value => (options.assign? flag (String.ofList value)).map (·, none)
        | value => (options.assign? flag (String.ofList value)).map (·, none)
      else
        let options ← options.switch? flag
        shortGroup? options rest

/-- Takes the arguments one after another.  `awaited` is an option that still needs its value, and
    behind `--` every argument is positional. -/
def take? (options : Options) (awaited : Option Flag) (positionalOnly : Bool) :
    List String → Option Options
  | [] => if awaited.isSome then none else some options
  | argument :: rest =>
      match awaited with
      | some flag =>
          if isValue argument then do
            let options ← options.assign? flag argument
            take? options none false rest
          else none
      | none =>
          if positionalOnly then do
            let options ← options.positional? argument
            take? options none true rest
          else if argument = "--" then take? options none true rest
          else match argument.toList with
            | '-' :: '-' :: long => do
                let (name, value) := splitEquals long
                let flag ← Flag.ofLong? (String.ofList name)
                match flag.takesValue, value with
                | true, some value =>
                    let options ← options.assign? flag (String.ofList value)
                    take? options none false rest
                | true, none => take? options (some flag) false rest
                | false, none =>
                    let options ← options.switch? flag
                    take? options none false rest
                | false, some _ => none
            | '-' :: c :: group => do
                let (options, awaited) ← options.shortGroup? (c :: group)
                take? options awaited false rest
            | _ => do
                let options ← options.positional? argument
                take? options none false rest

/-- What the arguments ask for; nothing if the program does not understand them. -/
def ofArguments? (arguments : List String) : Option Options := take? {} none false arguments

end Options

/-! ## Answers -/

/-- The contents of the files that the program reads; a file that does not exist has none.  The
    script is read from standard input if no file is named. -/
structure Files where
  config : Option ByteArray
  script : Option ByteArray
  session : Option ByteArray

/-- The exit code of the program and what it prints. -/
structure Response where
  exitCode : Nat
  output : String
deriving DecidableEq, Repr

/-- The answer of a program that could not start. -/
def Response.unstarted : Response := ⟨2, ""⟩

def failureJson (f : Failure) : Json :=
  .obj [("kind", .str f.error.kind), ("message", .str f.error.message),
    ("partial", .arr (f.emitted.map Action.toJson))]

def Response.ofOutcome (pretty : Bool) (outcome : Outcome) : Response :=
  let print (json : Json) : String := (if pretty then json.pretty else json.compact) ++ "\n"
  match outcome with
  | .ok actions => ⟨0, print (.arr (actions.map Action.toJson))⟩
  | .error f => ⟨1, print (failureJson f)⟩

/-- The settings: from the file that is named, which must exist, or from the usual one if that
    exists. -/
def settings (options : Options) (files : Files) : Option Settings :=
  match options.config, files.config with
  | none, none => some {}
  | path, content => (Settings.ofFile (path.getD "") content).toOption

/-- The session: from the file that is named, or an empty one. -/
def session (options : Options) (files : Files) : Option Session :=
  match options.session with
  | none => some .empty
  | some _ => do
      let text ← String.fromUTF8? (← files.session)
      (Session.ofText text).toOption

def respond (options : Options) (files : Files) : Response :=
  if options.grammar then ⟨0, StudioScript.grammar⟩
  else
    let prepared := do
      let settings ← settings options files
      let source ← String.fromUTF8? (← files.script)
      let session ← session options files
      return (settings, source, session)
    match prepared with
    | none => .unstarted
    | some (settings, source, session) =>
        .ofOutcome (options.pretty || settings.pretty)
          (Context.run ⟨session, settings.clipDefaults⟩ source)

end CommandLine

end StudioScript
