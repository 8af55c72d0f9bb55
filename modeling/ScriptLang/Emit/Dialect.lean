import ScriptLang.Emit.Line
import ScriptLang.Numeral
import ScriptLang.Tree.Basic

/-!
# Dialects

The target languages and how each writes the parts of a program: imports, numbers, operators,
declarations, functions and returns.
-/

namespace ScriptLang

/-- The languages that programs are printed in. -/
inductive Dialect where
  | c
  | go
deriving DecidableEq, Repr

namespace Dialect

/-- The name of the language. -/
def name : Dialect → String
  | c => "c"
  | go => "go"

/-- Puts commas between texts. -/
def listed (texts : List String) : String :=
  ", ".intercalate texts

/-- Imports a file or a package. -/
def importLine (dialect : Dialect) (path : String) : String :=
  match dialect with
  | c => "#include \"" ++ path ++ "\""
  | go => "import \"" ++ path ++ "\""

/-- Whether C cannot read a number: it has no octal or binary mark with a letter, and no
underscores. -/
def isForeignNumber (literal : String) : Bool :=
  (match literal.toList with
    | '0' :: mark :: _ => mark == 'o' || mark == 'O' || mark == 'b' || mark == 'B'
    | _ => false) ||
    literal.toList.contains '_'

/-- A number. C gets the decimal digits of one that it cannot read. -/
def number (dialect : Dialect) (literal : String) (value : Word) : String :=
  match dialect with
  | c => if isForeignNumber literal then Word.decimal value else literal
  | go => literal

/-- An operator in front of its operand. -/
def unarySymbol (dialect : Dialect) (op : UnaryOp) : String :=
  match dialect, op with
  | go, .bitNot => "^"
  | _, _ => op.symbol

/-- A value as a value of another type. -/
def cast (dialect : Dialect) (value type : String) : String :=
  match dialect with
  | c => "((" ++ type ++ ")" ++ value ++ ")"
  | go => type ++ "(" ++ value ++ ")"

/-- Declares a variable. -/
def declaration (dialect : Dialect) (name : Name) : String :=
  match dialect with
  | c => "int " ++ name
  | go => "var " ++ name ++ " int"

/-- A parameter with its type. -/
def parameter (dialect : Dialect) (name : Name) : String :=
  match dialect with
  | c => "int " ++ name
  | go => name ++ " int"

/-- The line that opens the definition of a function. -/
def functionHeader (dialect : Dialect) (name : Name) (params returns : List Name) : String :=
  let typed (names : List Name) := listed (names.map dialect.parameter)
  match dialect with
  | c =>
      "int " ++ name ++ "(" ++ (if params.isEmpty then "void" else typed params) ++ ") \x7b"
  | go =>
      "func " ++ name ++ "(" ++ typed params ++ ") " ++
        (if returns.isEmpty then "" else "(" ++ typed returns ++ ") ") ++ "\x7b"

/-- The lines that declare the results of a function: C has them as variables of the body, Go has
them in the header. -/
def resultLines (dialect : Dialect) (returns : List Name) : List Line :=
  match dialect with
  | c => returns.map fun name => Line.outer (dialect.declaration name ++ " = 0;")
  | go => []

/-- The remark that tells the error code of a `return`, by its value if it has one. -/
def errorRemark (dialect : Dialect) (literal : String) : String :=
  let code := (Numeral.value? literal).elim literal Word.decimal
  match dialect with
  | c => " /* error: " ++ code ++ " */"
  | go => " // error: " ++ code

/-- Ends a function with its results. -/
def returnLine (dialect : Dialect) (values : List String) (errorCode : Option String) : String :=
  let results := match dialect, values with
    | _, [] => "return;"
    | _, [value] => "return " ++ value ++ ";"
    | c, values => "return (" ++ listed values ++ ");"
    | go, values => "return " ++ listed values ++ ";"
  results ++ errorCode.elim "" dialect.errorRemark

/-- The left side of an assignment to one target. -/
def target (dialect : Dialect) (declares : Bool) (name : Name) : String :=
  if declares then dialect.declaration name else name

/-- Assigns to one target; without a value the target stands alone. -/
def assignLine (dialect : Dialect) (declares : Bool) (op : AssignOp) (name : Name)
    (value : Option String) : Line :=
  let left := dialect.target declares name
  Line.outer (match value with
    | some value => left ++ " " ++ op.symbol ++ " " ++ value ++ ";"
    | none => left ++ ";")

/-- Fills all targets with the results of one call. Go assigns them at once; in C the call fills
the first target and the others stand alone. -/
def destructureLines (dialect : Dialect) (declares : Bool) (targets : List Name) (call : String) :
    List Line :=
  match dialect with
  | c =>
      match targets with
      | [] => []
      | first :: rest =>
          assignLine c declares .set first (some call) ::
            rest.map fun name => assignLine c declares .set name none
  | go =>
      let left := if declares then "var " ++ listed targets ++ " int" else listed targets
      [Line.outer (left ++ " = " ++ call ++ ";")]

end Dialect

end ScriptLang
