import ScriptLang.Numeral
import ScriptLang.Token.Basic
import ScriptLang.Tree.Basic

/-!
# The grammar

Which lists of tokens are programs, and which trees they stand for, apart from any parser.

```
program     := NEWLINE* uses stmts | NEWLINE* uses USE STRING
uses        := (USE STRING NEWLINE)*
stmts       := stmt (NEWLINE stmt)*
braced      := '{' stmts '}'
stmt        := braced | IF op10 arm otherwise | FUNC name params params? braced
             | RETURN exprs (':' NUMBER)? | VAR names '=' exprs | names ASSIGN exprs | op7 | ε
arm         := braced | THEN stmt
otherwise   := (ELSE stmt)?
op(n + 1)   := op(n) (OPERATOR(n + 1) op(n))*
op8         := NOT op8 | op7
op0         := PREFIX op0 | factor
factor      := NUMBER | STRING | '(' op10 ')' | name args?
args        := '(' exprs? ')'
params      := '(' names? ')'
name        := IDENTIFIER ('.' IDENTIFIER)*
```

Here `exprs` and `names` are one or more `op7` and `name` with commas between them. An expression is
an `op7` and a condition an `op10`. The grammar leaves it open which `if` an `else` belongs to;
`Stmt.ElsesNearest` says of a tree that each belongs to the nearest one that is open.
-/

namespace ScriptLang

namespace Grammar

/-- The level of an operator between operands, and the tree that it builds. A higher level binds
looser; no operator stands on level 8, on which `not` stands. -/
def joining? : Token.Kind → Option (Nat × (Expr → Expr → Expr))
  | .keyword .cast => some (1, .cast)
  | .mark .star => some (2, .binary .mul)
  | .mark .slash => some (2, .binary .div)
  | .mark .plus => some (3, .binary .add)
  | .mark .minus => some (3, .binary .sub)
  | .mark .amp => some (4, .binary .bitAnd)
  | .mark .pipe => some (4, .binary .bitOr)
  | .mark .caret => some (4, .binary .bitXor)
  | .mark .less => some (5, .logic .less)
  | .mark .lessEqual => some (5, .logic .lessEqual)
  | .mark .greater => some (5, .logic .greater)
  | .mark .greaterEqual => some (5, .logic .greaterEqual)
  | .mark .equal => some (5, .logic .equal)
  | .mark .notEqual => some (5, .logic .notEqual)
  | .mark .ampAmp => some (6, .logic .and)
  | .mark .pipePipe => some (7, .logic .or)
  | .keyword .and => some (9, .logic .and)
  | .keyword .or => some (10, .logic .or)
  | _ => none

/-- The operators in front of an operand. -/
inductive Prefix : Token.Kind → UnaryOp → Prop where
  | deref : Prefix (.mark .star) .deref
  | negate : Prefix (.mark .minus) .negate
  | plus : Prefix (.mark .plus) .plus
  | addressOf : Prefix (.mark .amp) .addressOf
  | not : Prefix (.mark .bang) .not
  | bitNot : Prefix (.mark .tilde) .bitNot

/-- The operators of an assignment. -/
inductive Assigns : Token.Kind → AssignOp → Prop where
  | set : Assigns (.mark .assign) .set
  | add : Assigns (.mark .plusAssign) .add
  | sub : Assigns (.mark .minusAssign) .sub
  | mul : Assigns (.mark .starAssign) .mul
  | div : Assigns (.mark .slashAssign) .div

/-- A name: words with dots between them. -/
inductive IsName : List Token → Name → Prop where
  | word {token : Token} : token.kind = .identifier → IsName [token] token.text
  | dotted {tokens : List Token} {name : Name} {dot token : Token} :
      IsName tokens name → dot.kind = .mark .dot → token.kind = .identifier →
        IsName (tokens ++ [dot, token]) (name ++ "." ++ token.text)

/-- One or more names with commas between them. -/
inductive IsNames : List Token → List Name → Prop where
  | one {tokens : List Token} {name : Name} : IsName tokens name → IsNames tokens [name]
  | more {tokens tokens' : List Token} {name : Name} {names : List Name} {comma : Token} :
      IsName tokens name → comma.kind = .mark .comma → IsNames tokens' names →
        IsNames (tokens ++ comma :: tokens') (name :: names)

/-- Names in parentheses. -/
inductive IsParams : List Token → List Name → Prop where
  | none {opening closing : Token} : opening.kind = .mark .openParen →
      closing.kind = .mark .closeParen → IsParams [opening, closing] []
  | some {opening closing : Token} {tokens : List Token} {names : List Name} :
      opening.kind = .mark .openParen → IsNames tokens names → closing.kind = .mark .closeParen →
        IsParams (opening :: (tokens ++ [closing])) names

/-- The declared results of a function, which may be left out. -/
inductive IsResults : List Token → List Name → Prop where
  | none : IsResults [] []
  | some {tokens : List Token} {names : List Name} : IsParams tokens names → IsResults tokens names

/-- The error code of a `return`, which may be left out. -/
inductive IsCode : List Token → Option String → Prop where
  | none : IsCode [] Option.none
  | some {colon token : Token} : colon.kind = .mark .colon → token.kind = .number →
      IsCode [colon, token] (Option.some token.text)

/-- The phrases of the grammar whose trees are built from trees of one another. -/
inductive Phrase where
  | factor
  | args
  | op (level : Nat)
  /-- What stands behind the first operand on a level. -/
  | tail (level : Nat)
  | exprs
  | stmt
  | arm
  | otherwise
  | stmts
  | braced

/-- What a phrase stands for. -/
abbrev Phrase.Tree : Phrase → Type
  | factor | op _ => Expr
  | args | exprs => List Expr
  | tail _ => Expr → Expr
  | stmt | arm => Stmt
  | otherwise => Option Stmt
  | stmts | braced => List Stmt

/-- A list of tokens is a phrase that stands for a tree. The operands of a level are joined from
left to right, and empty statements leave no trace in lists of statements. -/
inductive Derives : (phrase : Phrase) → List Token → phrase.Tree → Prop where
  | number {token : Token} {value : Word} : token.kind = .number →
      Numeral.value? token.text = some value → Derives .factor [token] (.number token.text value)
  | string {token : Token} : token.kind = .string → Derives .factor [token] (.string token.text)
  | parens {opening closing : Token} {tokens : List Token} {tree : Expr} :
      opening.kind = .mark .openParen → Derives (.op 10) tokens tree →
        closing.kind = .mark .closeParen → Derives .factor (opening :: (tokens ++ [closing])) tree
  | named {tokens : List Token} {name : Name} : IsName tokens name →
      Derives .factor tokens (.variable name)
  | call {tokens tokens' : List Token} {name : Name} {args : List Expr} : IsName tokens name →
      Derives .args tokens' args → Derives .factor (tokens ++ tokens') (.call name args)
  | noArgs {opening closing : Token} : opening.kind = .mark .openParen →
      closing.kind = .mark .closeParen → Derives .args [opening, closing] []
  | someArgs {opening closing : Token} {tokens : List Token} {trees : List Expr} :
      opening.kind = .mark .openParen → Derives .exprs tokens trees →
        closing.kind = .mark .closeParen → Derives .args (opening :: (tokens ++ [closing])) trees
  | operand {tokens : List Token} {tree : Expr} : Derives .factor tokens tree →
      Derives (.op 0) tokens tree
  | prefixed {token : Token} {op : UnaryOp} {tokens : List Token} {tree : Expr} :
      Prefix token.kind op → Derives (.op 0) tokens tree →
        Derives (.op 0) (token :: tokens) (.unary op tree)
  | negated {token : Token} {tokens : List Token} {tree : Expr} : token.kind = .keyword .not →
      Derives (.op 8) tokens tree → Derives (.op 8) (token :: tokens) (.logicPrefix .not tree)
  | level {level : Nat} {tokens tokens' : List Token} {first : Expr} {rest : Expr → Expr} :
      Derives (.op level) tokens first → Derives (.tail (level + 1)) tokens' rest →
        Derives (.op (level + 1)) (tokens ++ tokens') (rest first)
  | alone {level : Nat} : Derives (.tail level) [] id
  | joined {level : Nat} {token : Token} {combine : Expr → Expr → Expr}
      {tokens tokens' : List Token} {operand : Expr} {rest : Expr → Expr} :
      joining? token.kind = some (level + 1, combine) → Derives (.op level) tokens operand →
        Derives (.tail (level + 1)) tokens' rest →
          Derives (.tail (level + 1)) (token :: (tokens ++ tokens'))
            fun left => rest (combine left operand)
  | oneExpr {tokens : List Token} {tree : Expr} : Derives (.op 7) tokens tree →
      Derives .exprs tokens [tree]
  | moreExprs {tokens tokens' : List Token} {tree : Expr} {trees : List Expr} {comma : Token} :
      Derives (.op 7) tokens tree → comma.kind = .mark .comma → Derives .exprs tokens' trees →
        Derives .exprs (tokens ++ comma :: tokens') (tree :: trees)
  | block {tokens : List Token} {body : List Stmt} : Derives .braced tokens body →
      Derives .stmt tokens (.block body)
  | branch {token : Token} {tokens tokens' tokens'' : List Token} {test : Expr} {thenArm : Stmt}
      {elseArm : Option Stmt} : token.kind = .keyword .cond → Derives (.op 10) tokens test →
        Derives .arm tokens' thenArm → Derives .otherwise tokens'' elseArm →
          Derives .stmt (token :: (tokens ++ (tokens' ++ tokens''))) (.branch test thenArm elseArm)
  | func {token : Token} {title takes gives block : List Token} {name : Name}
      {params returns : List Name} {body : List Stmt} : token.kind = .keyword .func →
        IsName title name → IsParams takes params → IsResults gives returns →
          Derives .braced block body →
            Derives .stmt (token :: (title ++ (takes ++ (gives ++ block))))
              (.func name params returns body)
  | ret {token : Token} {tokens tokens' : List Token} {values : List Expr}
      {code : Option String} : token.kind = .keyword .ret → Derives .exprs tokens values →
        IsCode tokens' code → Derives .stmt (token :: (tokens ++ tokens')) (.ret values code)
  | declare {token equals : Token} {tokens tokens' : List Token} {targets : List Name}
      {values : List Expr} : token.kind = .keyword .var → IsNames tokens targets →
        equals.kind = .mark .assign → Derives .exprs tokens' values →
          Derives .stmt (token :: (tokens ++ equals :: tokens')) (.assign true targets .set values)
  | assign {token : Token} {op : AssignOp} {tokens tokens' : List Token} {targets : List Name}
      {values : List Expr} : IsNames tokens targets → Assigns token.kind op →
        Derives .exprs tokens' values →
          Derives .stmt (tokens ++ token :: tokens') (.assign false targets op values)
  | expr {tokens : List Token} {value : Expr} : Derives (.op 7) tokens value →
      Derives .stmt tokens (.expr value)
  | empty : Derives .stmt [] .empty
  | bracedArm {tokens : List Token} {body : List Stmt} : Derives .braced tokens body →
      Derives .arm tokens (.block body)
  | thenArm {token : Token} {tokens : List Token} {arm : Stmt} : token.kind = .keyword .thenArm →
      Derives .stmt tokens arm → Derives .arm (token :: tokens) arm
  | noElse : Derives .otherwise [] none
  | elseArm {token : Token} {tokens : List Token} {arm : Stmt} : token.kind = .keyword .elseArm →
      Derives .stmt tokens arm → Derives .otherwise (token :: tokens) (some arm)
  | last {tokens : List Token} {stmt : Stmt} : Derives .stmt tokens stmt →
      Derives .stmts tokens ([stmt].filter (!·.isEmpty))
  | next {tokens tokens' : List Token} {stmt : Stmt} {rest : List Stmt} {lineBreak : Token} :
      Derives .stmt tokens stmt → lineBreak.kind = .lineBreak → Derives .stmts tokens' rest →
        Derives .stmts (tokens ++ lineBreak :: tokens') ([stmt].filter (!·.isEmpty) ++ rest)
  | braced {opening closing : Token} {tokens : List Token} {body : List Stmt} :
      opening.kind = .mark .openBrace → Derives .stmts tokens body →
        closing.kind = .mark .closeBrace → Derives .braced (opening :: (tokens ++ [closing])) body

/-- Imports, each on a line of its own. -/
inductive IsImports : List Token → List String → Prop where
  | none : IsImports [] []
  | some {use path lineBreak : Token} {tokens : List Token} {paths : List String} :
      use.kind = .keyword .use → path.kind = .string → lineBreak.kind = .lineBreak →
        IsImports tokens paths → IsImports (use :: path :: lineBreak :: tokens) (path.text :: paths)

/-- A list of tokens is a program. The line break behind the last import may be missing at the end
of the input. -/
inductive IsProgram : List Token → Program → Prop where
  | statements {breaks tokens tokens' : List Token} {paths : List String} {body : List Stmt} :
      (∀ token ∈ breaks, token.kind = .lineBreak) → IsImports tokens paths →
        Derives .stmts tokens' body → IsProgram (breaks ++ (tokens ++ tokens')) ⟨paths, body⟩
  | endsInImport {breaks tokens : List Token} {paths : List String} {use path : Token} :
      (∀ token ∈ breaks, token.kind = .lineBreak) → IsImports tokens paths →
        use.kind = .keyword .use → path.kind = .string →
          IsProgram (breaks ++ (tokens ++ [use, path])) ⟨paths ++ [path.text], []⟩

end Grammar

mutual

/-- Whether a statement ends in a branch that has no `else`, so that one could follow. -/
def Stmt.endsOpen : Stmt → Bool
  | .branch _ _ elseArm => Stmt.elseEndsOpen elseArm
  | _ => false

/-- Whether a branch with the given arm behind `else` ends in one that has none. -/
def Stmt.elseEndsOpen : Option Stmt → Bool
  | none => true
  | some arm => arm.endsOpen

end

mutual

/-- In a statement each `else` belongs to the nearest `if` that is open: in front of an `else` no
arm ends in a branch that has none. -/
def Stmt.ElsesNearest : Stmt → Prop
  | .branch _ thenArm elseArm =>
      thenArm.ElsesNearest ∧ Stmt.ElseNearest elseArm ∧ (elseArm.isSome → thenArm.endsOpen = false)
  | .func _ _ _ body => Stmt.AllElsesNearest body
  | .block body => Stmt.AllElsesNearest body
  | _ => True

/-- In the arm behind `else`, if there is one, each `else` belongs to the nearest `if` that is
open. -/
def Stmt.ElseNearest : Option Stmt → Prop
  | none => True
  | some arm => arm.ElsesNearest

/-- In each of the statements every `else` belongs to the nearest `if` that is open. -/
def Stmt.AllElsesNearest : List Stmt → Prop
  | [] => True
  | stmt :: rest => stmt.ElsesNearest ∧ Stmt.AllElsesNearest rest

end

/-- In a program each `else` belongs to the nearest `if` that is open. -/
def Program.ElsesNearest (program : Program) : Prop :=
  Stmt.AllElsesNearest program.body

end ScriptLang
