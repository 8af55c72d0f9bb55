import ScriptLang.Proofs.Token.Tiling

/-!
# The braces of a text

A brace within a string or a comment is no token. Which braces are tokens can be told character by
character, with nothing in memory but what the next character belongs to. `Mode.braces` reads a text
in this way, and two parts of a text can be read apart (`Mode.braces_append`). The braces among the
tokens of a text are the ones that are found, each at its byte offset, and a text is cut into tokens
if no string is open at its end (`tokenize_braces`).
-/

namespace ScriptLang

open Lexeme

/-- What the next character of a text belongs to. -/
inductive Mode where
  | code
  /-- Behind a slash, with which another one opens a comment. -/
  | slash
  | comment
  | string
  /-- Behind a backslash in a string. -/
  | escape
deriving DecidableEq, Repr

/-- The brace that a kind of token is. -/
def Token.Kind.brace? : Token.Kind → Option Mark
  | .mark .openBrace => some .openBrace
  | .mark .closeBrace => some .closeBrace
  | _ => none

/-- The brace that a token is, with the byte at which it stands. -/
def Token.brace? (token : Token) : Option (Nat × Mark) :=
  token.kind.brace?.map (token.span.start.offset, ·)

namespace Mode

/-- What the character behind a character belongs to. -/
def next : Mode → Char → Mode
  | code, c => if c = '"' then string else if c = '/' then slash else code
  | slash, c => if c = '"' then string else if c = '/' then comment else code
  | comment, c => if isLineEnd c then code else comment
  | string, c => if c = '"' then code else if c = '\\' then escape else string
  | escape, _ => string

/-- The brace that a character is, unless it stands in a string or a comment. -/
def brace? : Mode → Char → Option Mark
  | code, c | slash, c =>
      if c = '\x7b' then some .openBrace else if c = '\x7d' then some .closeBrace else none
  | _, _ => none

/-- What the character behind a text belongs to. -/
def run (mode : Mode) (text : List Char) : Mode :=
  text.foldl next mode

/-- The braces of a text that starts at a byte offset. -/
def braces (mode : Mode) (offset : Nat) : List Char → List (Nat × Mark)
  | [] => []
  | c :: text =>
      (mode.brace? c).toList.map (offset, ·) ++ braces (mode.next c) (offset + c.utf8Size) text

/-- No string is open. -/
def IsClosed (mode : Mode) : Prop :=
  mode ≠ string ∧ mode ≠ escape

/-- What follows is read as if nothing stood in front of it. -/
def Idle : Mode → List Char → Prop
  | code, _ => True
  | slash, rest => rest.head? ≠ some '/'
  | comment, rest => ∀ c ∈ rest.head?, isLineEnd c = true
  | string, _ | escape, _ => False

/-- A character that opens and closes nothing. -/
def isQuiet (c : Char) : Bool :=
  !List.contains ['"', '/', '\x7b', '\x7d'] c

section Reading

variable {mode : Mode} {first second text rest : List Char}

/-- Reading a text in two parts is reading it whole. -/
theorem run_append (mode : Mode) (first second : List Char) :
    mode.run (first ++ second) = (mode.run first).run second :=
  List.foldl_append

/-- The second part of a text is read in the mode that the first part leads to. -/
theorem braces_append (mode : Mode) (offset : Nat) (first second : List Char) :
    mode.braces offset (first ++ second) =
      mode.braces offset first ++ (mode.run first).braces (offset + byteLength first) second := by
  induction first generalizing mode offset with
  | nil => rfl
  | cons c first ih =>
    rw [List.cons_append, braces, braces, ih, byteLength_cons, List.append_assoc, Nat.add_assoc]
    rfl

/-- Every brace that is found stands within the text. -/
theorem mem_braces {offset place : Nat} {sign : Mark} (found : (place, sign) ∈ mode.braces offset text) :
    offset ≤ place ∧ place < offset + byteLength text := by
  induction text generalizing mode offset with
  | nil => cases found
  | cons c text ih =>
    have wide := c.utf8Size_pos
    rw [byteLength_cons]
    rcases List.mem_append.1 found with here | there
    · obtain ⟨_, -, same⟩ := List.mem_map.1 here
      obtain ⟨rfl, -⟩ := Prod.mk.inj same
      omega
    · have bounds := ih there
      omega

/-- Where a mode is idle the rest of a text is read as code. -/
theorem Idle.braces_eq (idle : mode.Idle rest) (offset : Nat) :
    mode.braces offset rest = code.braces offset rest ∧
      ((mode.run rest).IsClosed ↔ (code.run rest).IsClosed) := by
  cases rest with
  | nil => cases mode <;> first | exact idle.elim | exact ⟨rfl, by simp [run, IsClosed]⟩
  | cons c rest =>
    -- From the first character on the two modes are the same.
    have same : mode.next c = code.next c ∧ mode.brace? c = code.brace? c := by
      cases mode with
      | code => exact ⟨rfl, rfl⟩
      | slash =>
        have apart : c ≠ '/' := fun slash => idle (congrArg some slash)
        exact ⟨by simp [next, apart], rfl⟩
      | comment =>
        rcases isLineEnd_iff.1 (idle c rfl) with rfl | rfl
        · exact ⟨rfl, rfl⟩
        · exact ⟨rfl, rfl⟩
      | string | escape => exact idle.elim
    simp only [braces, run, List.foldl_cons, same]
    exact ⟨trivial, trivial⟩

/-- Quiet characters are read without being noticed. -/
theorem quiet (silent : ∀ c ∈ text, isQuiet c = true) (offset : Nat) :
    code.run text = code ∧ code.braces offset text = [] := by
  induction text generalizing offset with
  | nil => exact ⟨rfl, rfl⟩
  | cons c text ih =>
    obtain ⟨here, there⟩ := List.forall_mem_cons.1 silent
    obtain ⟨quote, slash, opening, closing⟩ : c ≠ '"' ∧ c ≠ '/' ∧ c ≠ '\x7b' ∧ c ≠ '\x7d' := by
      simpa [isQuiet] using here
    have stays : code.next c = code := by simp [next, quote, slash]
    obtain ⟨ends, none'⟩ := ih there (offset + c.utf8Size)
    constructor
    · rw [run, List.foldl_cons, stays]
      exact ends
    · rw [braces, stays, none']
      simp [brace?, opening, closing]

end Reading

section Parts

variable {sign : Mark} {kind : Token.Kind} {shown : String} {offset : Nat}
  {comment layout gap content text written rest : List Char} {found : Nat → List (Nat × Mark)}

/-- Reading a part of a text as code finds these braces in it, and the rest is read as code again. -/
def Passes (written rest : List Char) (found : Nat → List (Nat × Mark)) : Prop :=
  ∀ offset, code.braces offset (written ++ rest) =
      found offset ++ code.braces (offset + byteLength written) rest ∧
    ((code.run (written ++ rest)).IsClosed ↔ (code.run rest).IsClosed)

/-- Where a part ends idle, the rest is read as code, and the braces are those of the two. -/
theorem Idle.passes (idle : (code.run written).Idle rest)
    (finds : ∀ offset, code.braces offset written = found offset) : Passes written rest found := by
  intro offset
  obtain ⟨same, closed⟩ := idle.braces_eq (offset + byteLength written)
  rw [braces_append, finds, same, run_append]
  exact ⟨rfl, closed⟩

/-- Nothing has no braces. -/
theorem passes_nil (rest : List Char) : Passes [] rest fun _ => [] :=
  fun _ => ⟨rfl, Iff.rfl⟩

/-- A part in which nothing is found may stand in front of another one. -/
theorem Passes.append (here : Passes text (written ++ rest) fun _ => [])
    (there : Passes written rest fun _ => []) : Passes (text ++ written) rest fun _ => [] := by
  intro offset
  obtain ⟨same, closed⟩ := here offset
  obtain ⟨same', closed'⟩ := there (offset + byteLength text)
  rw [List.append_assoc, byteLength_append, ← Nat.add_assoc, same, same']
  exact ⟨rfl, closed.trans closed'⟩

/-- Characters that are no brace, quote or slash have no braces in them. -/
theorem passes_quiet (silent : ∀ c ∈ written, isQuiet c = true) (rest : List Char) :
    Passes written rest fun _ => [] := by
  have read := quiet silent
  have idle : (code.run written).Idle rest := by
    rw [(read 0).1]
    trivial
  exact idle.passes fun offset => (read offset).2

/-- In a comment nothing is found, up to the end of the line. -/
theorem comment_run (longest : ∀ c ∈ text, isLineEnd c = false) (offset : Nat) :
    Mode.comment.run text = .comment ∧ Mode.comment.braces offset text = [] := by
  induction text generalizing offset with
  | nil => exact ⟨rfl, rfl⟩
  | cons c text ih =>
    obtain ⟨here, there⟩ := List.forall_mem_cons.1 longest
    have stays : Mode.comment.next c = .comment := by simp [next, here]
    obtain ⟨ends, none'⟩ := ih there (offset + c.utf8Size)
    constructor
    · rw [run, List.foldl_cons, stays]
      exact ends
    · rw [braces, stays, none']
      rfl

/-- A comment has no braces that count. -/
theorem passes_comment (wrote : IsComment comment rest) : Passes comment rest fun _ => [] := by
  obtain ⟨run', rfl, longest⟩ := isComment_iff.1 wrote
  have read := comment_run fun c member => by simpa using longest.within c member
  have leads : code.run ('/' :: '/' :: run') = .comment := (read 0).1
  have idle : (code.run ('/' :: '/' :: run')).Idle rest := by
    rw [leads]
    exact fun c front => by simpa using longest.ends c front
  exact idle.passes fun offset => (read _).2

/-- Blanks and line ends are no braces, quotes or slashes. -/
theorem isQuiet_of_space {c : Char} (space : isBlank c = true ∨ isLineEnd c = true) :
    isQuiet c = true := by
  simp only [isBlank, isLineEnd, Bool.or_eq_true, beq_iff_eq] at space
  rcases space with (rfl | rfl) | rfl | rfl <;> decide

/-- A gap has no braces that count. -/
theorem passes_gap (wrote : IsGap gap rest) : Passes gap rest fun _ => [] := by
  cases wrote with
  | blanks blank => exact passes_quiet (fun c member => isQuiet_of_space (.inl (blank c member))) rest
  | comment blank wrote =>
    exact (passes_quiet (fun c member => isQuiet_of_space (.inl (blank c member))) _).append
      (passes_comment wrote)

/-- Layout has no braces that count. -/
theorem passes_layout (wrote : IsLayout layout rest) : Passes layout rest fun _ => [] := by
  induction wrote with
  | nil => exact passes_nil _
  | @space c layout rest free _ ih =>
    have front : Passes [c] (layout ++ rest) fun _ => [] :=
      passes_quiet (List.forall_mem_singleton.2 (isQuiet_of_space free)) _
    exact front.append ih
  | comment wrote _ ih => exact (passes_comment wrote).append ih

/-- What stands between quotes is read as a string. -/
theorem content_run (wrote : IsContent content) (offset : Nat) :
    Mode.string.run content = .string ∧ Mode.string.braces offset content = [] := by
  induction wrote generalizing offset with
  | nil => exact ⟨rfl, rfl⟩
  | @plain c content quote backslash _ ih =>
    have stays : Mode.string.next c = .string := by simp [next, quote, backslash]
    obtain ⟨ends, none'⟩ := ih (offset + c.utf8Size)
    constructor
    · rw [run, List.foldl_cons, stays]
      exact ends
    · rw [braces, stays, none']
      rfl
  | @escaped c content _ ih =>
    obtain ⟨ends, none'⟩ := ih (offset + '\\'.utf8Size + c.utf8Size)
    exact ⟨ends, none'⟩

/-- A string in quotes is read from code to code. -/
theorem quoted_run (wrote : IsContent content) (offset : Nat) :
    code.run ('"' :: content ++ ['"']) = code ∧ code.braces offset ('"' :: content ++ ['"']) = [] := by
  obtain ⟨ends, none'⟩ := content_run wrote (offset + '"'.utf8Size)
  have inner : code.run ('"' :: content) = .string := ends
  have inner' : code.braces offset ('"' :: content) = [] := none'
  rw [run_append, braces_append, inner, inner']
  exact ⟨rfl, rfl⟩

/-- What no quote closes is read as a string to its end. -/
theorem not_isClosed_of_unclosed (unclosed : Unclosed text) : ¬(Mode.string.run text).IsClosed := by
  rw [← stringLength?_eq_none_iff] at unclosed
  fun_induction stringLength? text with
  | case1 => simp [run, IsClosed]
  | case2 => simp [run, next, IsClosed]
  | case3 c behind ih => exact ih (by simpa using unclosed)
  | case4 => cases unclosed
  | case5 c behind alone taken quote ih =>
    have backslash : c ≠ '\\' := by
      rintro rfl
      cases behind with
      | nil => exact alone rfl rfl
      | cons second behind => exact taken second behind rfl rfl
    have stays : Mode.string.next c = .string := by simp [next, quote, backslash]
    rw [run, List.foldl_cons, stays]
    exact ih (by simpa using unclosed)

/-- Characters of a kind that has none which opens or closes anything are quiet. -/
theorem isQuiet_of_allowed {allowed : Char → Bool}
    (apart : ['"', '/', '\x7b', '\x7d'].all (fun c => !allowed c) = true) {c : Char}
    (part : allowed c = true) : isQuiet c = true := by
  rw [isQuiet, Bool.not_eq_true', List.contains_eq_mem, decide_eq_false_iff_not]
  intro loud
  have silent := List.all_eq_true.1 apart c loud
  rw [part] at silent
  cases silent

/-- A word is made of quiet characters. -/
theorem isQuiet_of_isWord {first : Char} {run' : List Char} (word : IsWord first run' rest) :
    ∀ c ∈ first :: run', isQuiet c = true := by
  refine List.forall_mem_cons.2 ⟨?_, fun c member =>
    isQuiet_of_allowed (by decide) (word.longest.within c member)⟩
  have apart (sign : Mark) {c : Char} (spelled : sign.spelling.toList = [c]) : first ≠ c := by
    rintro rfl
    exact word.mark sign (by rw [spelled]; exact ⟨_, rfl⟩)
  have slash : first ≠ '/' := apart .slash rfl
  have opening : first ≠ '\x7b' := apart .openBrace rfl
  have closing : first ≠ '\x7d' := apart .closeBrace rfl
  simp [isQuiet, word.quote, slash, opening, closing]

/-- A token is read with no brace in it but the one that it is. -/
theorem passes_lexeme (wrote : IsLexeme kind shown written rest) :
    Passes written rest fun offset => kind.brace?.toList.map (offset, ·) := by
  cases wrote with
  | eof => exact passes_nil []
  | lineBreak _ wrote => exact passes_layout wrote
  | string wrote =>
    have read := quoted_run wrote
    refine Idle.passes ?_ fun offset => (read offset).2
    rw [(read 0).1]
    trivial
  | number isDigit longest =>
    refine passes_quiet (List.forall_mem_cons.2 ⟨?_, fun c member => ?_⟩) rest
    · exact isQuiet_of_allowed (by decide) isDigit
    · exact isQuiet_of_allowed (by decide) (longest.within c member)
  | @mark sign _ unopened =>
    refine Idle.passes ?_ fun offset => by cases sign <;> rfl
    by_cases slash : sign = .slash
    · subst slash
      exact fun second => unopened (opensComment_cons.2 ⟨rfl, second⟩)
    · have ends : code.run sign.spelling.toList = code := by
        cases sign <;> first | rfl | exact absurd rfl slash
      rw [ends]
      trivial
  | keyword word => exact passes_quiet (isQuiet_of_isWord word) rest
  | identifier word => exact passes_quiet (isQuiet_of_isWord word) rest

end Parts

end Mode

open Mode

section Tokens

variable {cursor middle behind : Cursor} {token : Token} {tokens : List Token}

/-- The braces of what is still to be read are those of the next token and those behind it. -/
theorem Cursor.Cuts.braces_eq (cuts : Cuts cursor token behind) :
    code.braces cursor.position.offset cursor.rest =
        token.brace?.toList ++ code.braces behind.position.offset behind.rest ∧
      ((code.run cursor.rest).IsClosed ↔ (code.run behind.rest).IsClosed) := by
  obtain ⟨wrote, lexeme⟩ := cuts
  rename_i position gap written rest kind shown
  obtain ⟨same, closed⟩ := passes_gap wrote position.offset
  obtain ⟨same', closed'⟩ := passes_lexeme lexeme (position.offset + byteLength gap)
  simp only [Position.offset_advance]
  rw [same, same', Token.brace?]
  refine ⟨?_, closed.trans closed'⟩
  cases kind.brace? <;> simp [Position.offset_advance]

/-- The braces that are counted in what a scan reads are those among its tokens. -/
theorem Cursor.Reads.braces_eq (reads : Reads cursor tokens behind) :
    code.braces cursor.position.offset cursor.rest =
        tokens.filterMap Token.brace? ++ code.braces behind.position.offset behind.rest ∧
      ((code.run cursor.rest).IsClosed ↔ (code.run behind.rest).IsClosed) := by
  induction reads with
  | nil => exact ⟨rfl, Iff.rfl⟩
  | @cons cursor middle behind token tokens cuts _ _ ih =>
    obtain ⟨same, closed⟩ := cuts.braces_eq
    rw [same, ih.1]
    refine ⟨?_, closed.trans ih.2⟩
    cases found : token.brace? <;> simp [found]

/-- A text is cut into tokens if no string is open at its end, and the braces among the tokens are
those that are found when the text is read character by character. -/
theorem tokenize_braces (text : String) :
    ((code.run text.toList).IsClosed → ∃ tokens, tokenize text = .ok tokens) ∧
      ∀ tokens, tokenize text = .ok tokens →
        tokens.filterMap Token.brace? = code.braces 0 text.toList := by
  constructor
  · intro closed
    cases outcome : tokenize text with
    | ok tokens => exact ⟨tokens, rfl⟩
    | error error =>
      obtain ⟨tokens, middle, reads, gap, behind, same, wrote, unclosed⟩ :=
        Cursor.tokens_eq_error_iff.1 ⟨error, outcome⟩
      have open' := (passes_gap wrote 0).2.1 (same ▸ reads.braces_eq.2.1 closed)
      exact absurd open' (not_isClosed_of_unclosed unclosed)
  · intro tokens collected
    obtain ⟨others, last, middle, behind, rfl, reads, cuts, ends⟩ :=
      Cursor.tokens_eq_ok_iff.1 collected
    have nothing : behind.rest = [] := by
      obtain ⟨-, lexeme⟩ := cuts
      cases ends
      cases lexeme
      rfl
    have noBrace : last.brace? = none := by
      rw [Token.brace?, ends]
      rfl
    have last' := cuts.braces_eq.1
    rw [nothing, noBrace] at last'
    have whole := reads.braces_eq.1
    rw [last'] at whole
    rw [List.filterMap_append, List.filterMap_cons, noBrace]
    exact whole.symm

end Tokens

end ScriptLang
