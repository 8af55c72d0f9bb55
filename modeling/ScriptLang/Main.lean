import ScriptLang.CommandLine.Outcome

/-!
# The command line

Reads the script, asks the library for the outcome, and prints it.
-/

namespace ScriptLang.CommandLine

/-- The bytes that a stream still holds, behind those that were read. -/
partial def readBytes (stream : IO.FS.Stream) (read : ByteArray) : IO ByteArray := do
  let chunk ← stream.read 65536
  if chunk.isEmpty then return read
  readBytes stream (read ++ chunk)

/-- The bytes of the script, or the cause for which there are none. -/
def readScript (options : Options) : IO (Except String ByteArray) := do
  match options.file with
  | none => return .ok (← readBytes (← IO.getStdin) ByteArray.empty)
  | some name =>
      try
        return .ok (← IO.FS.readBinFile name)
      catch
        | .noFileOrDirectory .. => return .error missingFileCause
        | error => return .error (toString error)

/-- The outcome of a request. -/
def answer : Request → IO Outcome
  | .version => return .success versionText
  | .help => return .success helpText
  | .misuse => return .misuse
  | .process options => return options.process (← readScript options)

end ScriptLang.CommandLine

open ScriptLang.CommandLine in
/-- Runs the command line and gives its exit code. -/
def main (arguments : List String) : IO UInt32 := do
  let outcome ← answer (Request.ofArguments arguments)
  IO.print outcome.output
  IO.eprint outcome.errors
  return outcome.exitCode.toUInt32
