import StudioScript.CommandLine

/-! # The program

Reads the files that the command line names, and prints the answer.
-/

namespace StudioScript

namespace CommandLine

/-- The content of a file, if it can be read. -/
def readFile (path : String) : IO (Option ByteArray) := do
  try
    return some (← IO.FS.readBinFile path)
  catch _ => return none

/-- The bytes of a stream, behind those that were read. -/
partial def readAll (stream : IO.FS.Stream) (bytes : ByteArray) : IO ByteArray := do
  let more ← stream.read 65536
  if more.isEmpty then return bytes else readAll stream (bytes ++ more)

/-- The settings file that is read if none is named. -/
def usualSettings : IO (Option ByteArray) := do
  match ← IO.getEnv "HOME" with
  | some home => readFile (home ++ "/.tracklang/config.yaml")
  | none => return none

def readFiles (options : Options) : IO Files := do
  let config ← match options.config with
    | some path => readFile path
    | none => usualSettings
  let script ← match options.script with
    | some path => readFile path
    | none => some <$> readAll (← IO.getStdin) ByteArray.empty
  let session ← match options.session with
    | some path => readFile path
    | none => pure none
  return { config, script, session }

def answer (arguments : List String) : IO Response := do
  match Options.ofArguments? arguments with
  | none => return .unstarted
  | some options =>
      let files ← if options.grammar then pure ⟨none, none, none⟩ else readFiles options
      return respond options files

end CommandLine

end StudioScript

def main (arguments : List String) : IO UInt32 := do
  let response ← StudioScript.CommandLine.answer arguments
  IO.print response.output
  return response.exitCode.toUInt32
