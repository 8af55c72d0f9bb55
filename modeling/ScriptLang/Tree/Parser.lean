import ScriptLang.Tree.Parser.Progress

/-!
# Reading programs

A program is read from any source of tokens in one pass. Read from a text the tokens are cut as
they are needed, so that of a string that never closes and an unexpected token the one that comes
first is reported.
-/

namespace ScriptLang

namespace Program

/-- Reads a program from a feed. -/
def ofFeed {σ : Type} [TokenSource σ] (feed : Feed σ) : Except ParseError Program :=
  match outcome : Parse.program (feed.remaining + 1) feed with
  | .ok program _ => .ok program
  | .error (.fault error) _ => .error error
  | .error .outOfFuel behind => absurd outcome (Parse.program_ne_outOfFuel feed behind)

/-- Reads a program from a source of tokens. -/
def ofSource {σ : Type} [TokenSource σ] (source : σ) : Except ParseError Program :=
  match TokenSource.next source with
  | (.ok token, behind) => ofFeed ⟨token, none, behind⟩
  | (.error error, _) => .error (.lex error)

/-- Reads a program from a list of tokens. -/
def ofTokens (tokens : List Token) : Except ParseError Program :=
  ofSource (TokenList.ofList tokens)

/-- Reads a program from a text. -/
def ofText (text : String) : Except ParseError Program :=
  ofSource (Cursor.ofText text)

end Program

end ScriptLang
