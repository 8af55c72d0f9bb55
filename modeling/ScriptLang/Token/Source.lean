import ScriptLang.Token.Cursor

/-!
# Sources of tokens

Anything that tokens can be pulled from, one after the other and for ever: a text that is cut while
it is read, or a list of tokens that was made before. A source has a bound on the tokens that it
can still give before the end token, and every other pull lowers the bound.
-/

namespace ScriptLang

/-- A source that tokens are pulled from. -/
class TokenSource (σ : Type) where
  /-- The next token or the error in its place, and the source behind it. -/
  next : σ → Except LexError Token × σ
  /-- Bounds the tokens before the end token. -/
  remaining : σ → Nat
  remaining_next_le (source : σ) : remaining (next source).2 ≤ remaining source
  remaining_next_lt {source behind : σ} {token : Token} (step : next source = (.ok token, behind))
    (more : token.kind ≠ .eof) : remaining behind < remaining source

/-- A text is cut into tokens while it is read. -/
instance : TokenSource Cursor where
  next := Cursor.next
  remaining cursor := cursor.rest.length
  remaining_next_le := Cursor.next_le
  remaining_next_lt := Cursor.next_shorter

/-- A list of tokens, and the extent of the token that was given last. -/
structure TokenList where
  tokens : List Token
  last : Span
deriving DecidableEq, Repr

namespace TokenList

/-- All tokens of a list. -/
def ofList (tokens : List Token) : TokenList := ⟨tokens, ⟨⟨0, 0, 0⟩, 0⟩⟩

/-- The end token that stands behind a list: it starts on the line and in the column of the last
token and at the byte where that token stops. -/
def endToken (last : Span) : Token :=
  ⟨.eof, Token.eofText, ⟨⟨last.stop, last.start.line, last.start.column⟩, last.stop⟩⟩

/-- The next token of the list; behind the list, an end token for ever. -/
def next (list : TokenList) : Except LexError Token × TokenList :=
  match list.tokens with
  | [] => (.ok (endToken list.last), list)
  | token :: rest => (.ok token, ⟨rest, token.span⟩)

end TokenList

/-- Tokens are taken from a list. -/
instance : TokenSource TokenList where
  next := TokenList.next
  remaining list := list.tokens.length
  remaining_next_le list := by
    rcases list with ⟨_ | ⟨token, rest⟩, last⟩ <;> simp [TokenList.next]
  remaining_next_lt {list behind token} step more := by
    rcases list with ⟨_ | ⟨first, rest⟩, last⟩
    · simp only [TokenList.next, Prod.mk.injEq, Except.ok.injEq] at step
      simp [← step.1, TokenList.endToken] at more
    · simp only [TokenList.next, Prod.mk.injEq] at step
      simp [← step.2]

end ScriptLang
