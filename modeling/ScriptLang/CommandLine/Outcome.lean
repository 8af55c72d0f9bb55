import ScriptLang.CommandLine.Request
import ScriptLang.Token.Listing

/-!
# Outcomes on the command line

What the command line answers: an exit code and what goes to the two outputs. A request to process
a script needs the bytes of the script; a failure reports what was being done and, indented below
it, why that failed.
-/

namespace ScriptLang.CommandLine

/-- An exit code, and the texts for the standard output and for the standard error. -/
structure Outcome where
  exitCode : Nat
  output : String
  errors : String
deriving DecidableEq, Repr

/-- The answer to a request for the version. -/
def versionText : String := "myc 0.1.0\n"

/-- How the command line is used. -/
def usageText : String := "Usage: myc [OPTIONS] [FILE]\n"

/-- The answer to a request for help. -/
def helpText : String :=
  "Runs a myc program, or translates it to C or Go\n\n" ++ usageText ++
    "\nArguments:\n  [FILE]  Source file; stdin when omitted\n" ++
    "\nOptions:\n" ++
    "  -b, --backend <BACKEND>  Back-end that consumes the parsed program " ++
    "[default: interpreter] [possible values: interpreter, c, go]\n" ++
    "  -t, --tokens             Print the token stream and stop\n" ++
    "  -h, --help               Print help\n" ++
    "  -V, --version            Print version\n"

namespace Outcome

/-- A success with its output. -/
def success (output : String) : Outcome := ⟨0, output, ""⟩

/-- Indents every line of a text but the first. -/
def indentRest (text : String) : String :=
  String.ofList (text.toList.flatMap fun c => if c = '\n' then "\n    ".toList else [c])

/-- A failure: what was being done, and why that failed. -/
def failure (activity cause : String) : Outcome :=
  ⟨1, "", "Error: " ++ activity ++ "\n\nCaused by:\n    " ++ indentRest cause ++ "\n"⟩

/-- The answer to arguments that ask for nothing that there is. -/
def misuse : Outcome := ⟨2, "", "error: invalid arguments\n\n" ++ usageText⟩

end Outcome

namespace Options

/-- How messages name the place that the script comes from. -/
def sourceName (options : Options) : String :=
  options.file.getD "stdin"

/-- The back-end that is asked for. -/
def chosenBackend (options : Options) : Backend :=
  options.backend.getD .interpreter

/-- The answer for a script whose tokens are asked for. -/
def listTokens (tokens : List Token) : Outcome :=
  .success (String.join (tokens.map (·.listing ++ "\n")))

/-- The answer for a script that a back-end gets. -/
def applyBackend (backend : Backend) (tokens : List Token) : Outcome :=
  match Program.ofTokens tokens with
  | .error error => .failure "Parsing failed" error.message
  | .ok program =>
      match backend.apply program with
      | .error error => .failure (backend.name ++ " backend failed") error.message
      | .ok text => .success (if text.isEmpty then "" else Text.trimEnd text ++ "\n")

/-- The answer for a script, from its bytes or from the cause for which there are none. -/
def process (options : Options) (script : Except String ByteArray) : Outcome :=
  let reading := "Reading " ++ options.sourceName
  match script with
  | .error cause => .failure reading cause
  | .ok bytes =>
      match String.fromUTF8? bytes with
      | none => .failure reading "stream did not contain valid UTF-8"
      | some text =>
          match tokenize text with
          | .error error => .failure "Lexing failed" error.message
          | .ok tokens =>
              if options.tokens then listTokens tokens
              else applyBackend options.chosenBackend tokens

end Options

/-- The cause for which a file that is not there has no bytes. -/
def missingFileCause : String := "No such file or directory (os error 2)"

end ScriptLang.CommandLine
