import ScriptLang.Token.Basic
import ScriptLang.Text.Quoted

/-!
# Token listings

One line for each token, for a reader who wants to see how a text was cut.
-/

namespace ScriptLang.Token

/-- The place, the kind and the quoted text of a token. -/
def listing (token : Token) : String :=
  "(" ++ toString token.span.start.line ++ ":" ++ toString token.span.start.column ++ " " ++
    token.kind.description ++ " " ++ Text.quoted token.text ++ ")"

end ScriptLang.Token
