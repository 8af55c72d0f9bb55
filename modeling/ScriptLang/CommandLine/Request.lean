import ScriptLang.Backend

/-!
# Requests on the command line

The arguments of the command line name a back-end, ask for the tokens alone, and name a file; they
may also ask for the version or for help. Arguments are read from left to right, and the first one
that is wrong or that asks for the version or for help decides.
-/

namespace ScriptLang.CommandLine

/-- What the arguments that were read ask for; a back-end only if one was named. -/
structure Options where
  backend : Option Backend
  tokens : Bool
  file : Option String
deriving DecidableEq, Repr

/-- What a command line asks for. -/
inductive Request where
  | process (options : Options)
  | version
  | help
  | misuse
deriving DecidableEq, Repr

/-- What one argument tells. -/
inductive Step where
  | more (options : Options)
  /-- The name of the back-end is the next argument. -/
  | backendFollows (options : Options)
  /-- All further arguments are names of files. -/
  | filesFollow (options : Options)
  | done (request : Request)
deriving DecidableEq, Repr

namespace Options

/-- Nothing is asked for yet. -/
def empty : Options := ⟨none, false, none⟩

/-- Names the back-end, which must exist and can be named only once. -/
def withBackend? (options : Options) (name : String) : Option Options :=
  match options.backend, Backend.ofName? name with
  | none, some backend => some { options with backend }
  | _, _ => none

/-- Asks for the tokens, which can be done only once. -/
def withTokens? (options : Options) : Option Options :=
  if options.tokens then none else some { options with tokens := true }

/-- Names the file, which can be done only once. -/
def withFile? (options : Options) (name : String) : Option Options :=
  if options.file.isSome ∨ name.isEmpty then none else some { options with file := some name }

end Options

/-- Goes on with options unless they were refused. -/
def moreOrMisuse (options : Option Options) : Step :=
  options.elim (.done .misuse) .more

/-- Reads letters behind a single dash. A letter that takes a value takes the rest, behind an equals
sign if there is one, or the next argument. -/
def readLetters (options : Options) : List Char → Step
  | [] => .more options
  | 't' :: rest =>
      match options.withTokens? with
      | some options => readLetters options rest
      | none => .done .misuse
  | ['b'] => .backendFollows options
  | 'b' :: '=' :: value => moreOrMisuse (options.withBackend? (String.ofList value))
  | 'b' :: value => moreOrMisuse (options.withBackend? (String.ofList value))
  | 'V' :: _ => .done .version
  | 'h' :: _ => .done .help
  | _ => .done .misuse

/-- Reads a word behind two dashes, with the value behind its equals sign if there is one. -/
def readWord (options : Options) (word : String) (value : Option String) : Step :=
  match word, value with
  | "backend", some name => moreOrMisuse (options.withBackend? name)
  | "backend", none => .backendFollows options
  | "tokens", none => moreOrMisuse options.withTokens?
  | "version", none => .done .version
  | "help", none => .done .help
  | _, _ => .done .misuse

/-- Splits a text at its first equals sign. -/
def splitValue (text : List Char) : String × Option String :=
  let word := String.ofList (text.takeWhile (· != '='))
  match text.dropWhile (· != '=') with
  | _ :: value => (word, some (String.ofList value))
  | [] => (word, none)

/-- Reads one argument. -/
def readArgument (options : Options) (argument : String) : Step :=
  match argument.toList with
  | ['-', '-'] => .filesFollow options
  | '-' :: '-' :: text =>
      let (word, value) := splitValue text
      readWord options word value
  | '-' :: letter :: letters => readLetters options (letter :: letters)
  | _ => moreOrMisuse (options.withFile? argument)

/-- Whether an argument cannot be the value of an option. -/
def isOption (argument : String) : Bool :=
  match argument.toList with
  | '-' :: _ :: _ => true
  | _ => false

/-- Reads arguments all of which name files. -/
def readFiles (options : Options) : List String → Request
  | [] => .process options
  | name :: rest =>
      match options.withFile? name with
      | some options => readFiles options rest
      | none => .misuse

/-- Reads arguments behind the options that are known already. -/
def readArguments (options : Options) : List String → Request
  | [] => .process options
  | argument :: rest =>
      match readArgument options argument with
      | .more options => readArguments options rest
      | .filesFollow options => readFiles options rest
      | .done request => request
      | .backendFollows options =>
          match rest with
          | [] => .misuse
          | name :: others =>
              if isOption name then .misuse
              else
                match options.withBackend? name with
                | some options => readArguments options others
                | none => .misuse

/-- What the arguments of a command line ask for. -/
def Request.ofArguments (arguments : List String) : Request :=
  readArguments Options.empty arguments

end ScriptLang.CommandLine
