import ScriptLang.Proofs.Emit.Prefixes
import ScriptLang.Proofs.Token.Braces

/-!
# Texts without braces

The text of an expression is read from code to code with no brace in it: what stands between quotes
was between quotes in the source, the slash of a division has a blank on either side, and names and
numerals have no character that opens or closes anything. Such a text is calm. A line feed in it comes
from a string. And it starts with the first character of its first part, which is no blank and no
brace.
-/

namespace ScriptLang

open Mode (code isQuiet)

/-- A text is read from code to code, without a brace; a line feed in it has the given reason. -/
structure Calm (breaks : Prop) (text : String) : Prop where
  run : code.run text.toList = code
  braces (offset : Nat) : code.braces offset text.toList = []
  lineFeed : '\n' ∈ text.toList → breaks

/-- A text starts neither with a blank nor with a closing brace. -/
def Opens (text : String) : Prop :=
  ∃ c rest, text.toList = c :: rest ∧ c ≠ ' ' ∧ c ≠ '\x7d'

/-- A line feed in a string among the nodes has the given reason. -/
def Explains (breaks : Prop) (nodes : List Expr) : Prop :=
  ∀ text, .string text ∈ nodes → '\n' ∈ text.toList → breaks

/-- A line feed in one of fewer nodes has the reason that it has among all of them. -/
theorem Explains.of_subset {breaks : Prop} {nodes nodes' : List Expr} (explains : Explains breaks nodes)
    (within : nodes' ⊆ nodes) : Explains breaks nodes' :=
  fun text present => explains text (within present)

section Texts

variable {breaks breaks' : Prop} {text first second word : String} {name : Name} {value : Word}

/-- What is calm with one reason for line feeds is calm with every weaker one. -/
theorem Calm.weaken (calm : Calm breaks text) (implies : breaks → breaks') : Calm breaks' text :=
  ⟨calm.run, calm.braces, fun fed => implies (calm.lineFeed fed)⟩

/-- Calm texts one behind the other are calm. -/
theorem Calm.append (here : Calm breaks first) (there : Calm breaks second) :
    Calm breaks (first ++ second) where
  run := by rw [String.toList_append, Mode.run_append, here.run, there.run]
  braces offset := by
    rw [String.toList_append, Mode.braces_append, here.braces, here.run, there.braces]
    rfl
  lineFeed fed := by
    rw [String.toList_append] at fed
    exact (List.mem_append.1 fed).elim here.lineFeed there.lineFeed

/-- A text of quiet characters on one line. -/
theorem calm_of_forall (quiet : ∀ c ∈ text.toList, isQuiet c = true)
    (line : ∀ c ∈ text.toList, Lexeme.isLineEnd c = false) : Calm breaks text where
  run := (Mode.quiet quiet 0).1
  braces offset := (Mode.quiet quiet offset).2
  lineFeed fed := absurd (line _ fed) (by decide)

/-- A fixed text. -/
theorem calm_of_all (plain : text.toList.all (fun c => isQuiet c && !Lexeme.isLineEnd c) = true) :
    Calm breaks text := by
  have both (c : Char) (member : c ∈ text.toList) : isQuiet c = true ∧ Lexeme.isLineEnd c = false := by
    simpa using List.all_eq_true.1 plain c member
  exact calm_of_forall (fun c member => (both c member).1) fun c member => (both c member).2

/-- How a text starts does not depend on what stands behind it. -/
theorem Opens.append (opens : Opens first) (second : String) : Opens (first ++ second) := by
  obtain ⟨c, rest, same, blank, brace⟩ := opens
  exact ⟨c, rest ++ second.toList, by rw [String.toList_append, same, List.cons_append], blank, brace⟩

/-- A fixed text starts with a fixed character. -/
theorem opens_of_any (front : text.toList.head?.any (fun c => c != ' ' && c != '\x7d') = true) :
    Opens text := by
  unfold Opens
  cases same : text.toList with
  | nil => simp [same] at front
  | cons c rest =>
    obtain ⟨blank, brace⟩ : c ≠ ' ' ∧ c ≠ '\x7d' := by simpa [same] using front
    exact ⟨c, rest, rfl, blank, brace⟩

/-- An identifier is calm. -/
theorem IsIdentifier.calm (identifier : IsIdentifier word) : Calm breaks word := by
  unfold IsIdentifier at identifier
  generalize spelled : word.toList = written at identifier
  cases identifier with
  | @identifier first run _ isWord =>
    refine calm_of_forall ?_ ?_
    · rw [spelled]
      exact Mode.isQuiet_of_isWord isWord
    · rw [spelled]
      refine List.forall_mem_cons.2 ⟨isWord.lineEnd, fun c member => Bool.eq_false_iff.2 fun ends => ?_⟩
      have part := isWord.longest.within c member
      rcases Lexeme.isLineEnd_iff.1 ends with rfl | rfl <;> exact absurd part (by decide)

/-- An identifier starts neither with a blank nor with a closing brace. -/
theorem IsIdentifier.opens (identifier : IsIdentifier word) : Opens word := by
  unfold IsIdentifier at identifier
  generalize spelled : word.toList = written at identifier
  cases identifier with
  | @identifier first run _ isWord =>
    refine ⟨first, run, spelled, ?_, ?_⟩
    · rintro rfl
      exact absurd isWord.blank (by decide)
    · rintro rfl
      exact isWord.mark .closeBrace ⟨_, rfl⟩

/-- A proper name is calm: its parts and the dots between them are code without braces or line
feeds. -/
theorem Name.Proper.calm (proper : name.Proper) : Calm breaks name := by
  induction proper with
  | word identifier => exact identifier.calm
  | dotted _ identifier ih =>
    have dot : Calm breaks "." := calm_of_all (by decide)
    exact (ih.append dot).append identifier.calm

/-- A proper name starts neither with a blank nor with a closing brace. -/
theorem Name.Proper.opens (proper : name.Proper) : Opens name := by
  induction proper with
  | word identifier => exact identifier.opens
  | dotted _ _ ih => exact (ih.append _).append _

/-- A numeral stands on one line. -/
theorem IsNumeral.lineEnd (numeral : IsNumeral text value) :
    ∀ c ∈ text.toList, Lexeme.isLineEnd c = false := by
  obtain ⟨lexeme, -⟩ := numeral
  generalize text.toList = written at lexeme
  cases lexeme with
  | @number digit run _ isDigit longest =>
    refine List.forall_mem_cons.2 ⟨?_, fun c member => Bool.eq_false_iff.2 fun ends => ?_⟩
    · have carriage : digit ≠ '\r' := Numeral.ne_of_isDigit isDigit rfl
      have lineFeed : digit ≠ '\n' := Numeral.ne_of_isDigit isDigit rfl
      simp [Lexeme.isLineEnd, carriage, lineFeed]
    · have part := longest.within c member
      rcases Lexeme.isLineEnd_iff.1 ends with rfl | rfl <;> exact absurd part (by decide)

/-- A numeral is calm. -/
theorem IsNumeral.calm (numeral : IsNumeral text value) : Calm breaks text := by
  refine calm_of_forall ?_ numeral.lineEnd
  obtain ⟨lexeme, -⟩ := numeral
  generalize text.toList = written at lexeme
  cases lexeme with
  | @number digit run _ isDigit longest =>
    refine List.forall_mem_cons.2 ⟨Mode.isQuiet_of_allowed (by decide) isDigit, fun c member => ?_⟩
    exact Mode.isQuiet_of_allowed (by decide) (longest.within c member)

/-- A numeral starts with a digit. -/
theorem IsNumeral.opens (numeral : IsNumeral text value) : Opens text := by
  obtain ⟨lexeme, -⟩ := numeral
  generalize spelled : text.toList = written at lexeme
  cases lexeme with
  | @number digit run _ isDigit _ =>
    exact ⟨digit, run, spelled, Numeral.ne_of_isDigit isDigit rfl, Numeral.ne_of_isDigit isDigit rfl⟩

/-- A string in quotes is calm. -/
theorem calm_quoted (content : Lexeme.IsContent text.toList) :
    Calm ('\n' ∈ text.toList) ("\"" ++ text ++ "\"") := by
  have whole : ("\"" ++ text ++ "\"").toList = '"' :: text.toList ++ ['"'] := by simp
  have read := Mode.quoted_run content
  refine ⟨whole ▸ (read 0).1, fun offset => whole ▸ (read offset).2, fun fed => ?_⟩
  rw [whole] at fed
  simpa using fed

/-- Calm texts with commas between them. -/
theorem calm_listed {texts : List String} (calm : ∀ text ∈ texts, Calm breaks text) :
    Calm breaks (Dialect.listed texts) := by
  induction texts with
  | nil => exact calm_of_all (by decide)
  | cons text rest ih =>
    obtain ⟨here, there⟩ := List.forall_mem_cons.1 calm
    by_cases alone : rest = []
    · subst alone
      simpa [Dialect.listed] using here
    · rw [Dialect.listed, String.intercalate_cons_of_ne_nil alone]
      exact (here.append (calm_of_all (by decide))).append (ih there)

end Texts

namespace Emit

variable {dialect : Dialect} {table : ScopeTable Nat} {breaks : Prop}

/-- An operator between its operands. -/
theorem calm_between {symbol left right : String} (spaced : Calm breaks (" " ++ symbol ++ " "))
    (first : Calm breaks left) (second : Calm breaks right) :
    Calm breaks (between symbol left right) := by
  have regrouped : between symbol left right =
      "(" ++ left ++ (" " ++ symbol ++ " ") ++ right ++ ")" := by
    simp [between, String.append_assoc]
  rw [regrouped]
  exact (((Calm.append (calm_of_all (by decide)) first).append spaced).append second).append
    (calm_of_all (by decide))

/-- A binary operator between its blanks is calm. -/
theorem calm_binarySymbol (op : BinaryOp) : Calm breaks (" " ++ op.symbol ++ " ") := by
  cases op with
  | div => exact ⟨rfl, fun _ => rfl, fun fed => absurd fed (by decide)⟩
  | _ => exact calm_of_all (by decide)

/-- A logic operator between its blanks is calm. -/
theorem calm_logicSymbol (op : LogicOp) : Calm breaks (" " ++ op.symbol ++ " ") := by
  cases op <;> exact calm_of_all (by decide)

/-- A unary operator is calm in both dialects. -/
theorem calm_unarySymbol (dialect : Dialect) (op : UnaryOp) : Calm breaks (dialect.unarySymbol op) := by
  cases dialect <;> cases op <;> exact calm_of_all (by decide)

/-- A unary operator starts neither with a blank nor with a closing brace. -/
theorem opens_unarySymbol (dialect : Dialect) (op : UnaryOp) : Opens (dialect.unarySymbol op) := by
  cases dialect <;> cases op <;> exact opens_of_any (by decide)

/-- The cast of a calm value to a calm type is calm, in whichever order the dialect writes them. -/
theorem calm_cast {value type : String} (calm : Calm breaks value) (calm' : Calm breaks type) :
    Calm breaks (dialect.cast value type) := by
  cases dialect with
  | c =>
    exact (((Calm.append (calm_of_all (by decide)) calm').append (calm_of_all (by decide))).append
      calm).append (calm_of_all (by decide))
  | go =>
    exact ((calm'.append (calm_of_all (by decide))).append calm).append (calm_of_all (by decide))

mutual

/-- The text of an expression is calm. -/
theorem calm_expr : ∀ {tree : Expr} {printed : String}, tree.Proper → Explains breaks tree.nodes →
    expr dialect table tree = .ok printed → Calm breaks printed
  | .number literal value, _, proper, _, shown => by
    cases shown
    exact (dialect.isNumeral_number (Expr.proper_number.1 proper)).calm
  | .string text, _, proper, explains, shown => by
    cases shown
    exact (calm_quoted (Expr.proper_string.1 proper)).weaken (explains text List.mem_cons_self)
  | .variable name, _, proper, _, shown => by
    obtain ⟨-, -, ⟨⟩⟩ := exists_of_bind_eq_ok shown
    exact (Expr.proper_variable.1 proper).calm
  | .unary op operand, _, proper, explains, shown => by
    obtain ⟨inner, shown', ⟨⟩⟩ := exists_of_bind_eq_ok shown
    have explains' := explains.of_subset (List.subset_cons_self _ _)
    exact (calm_unarySymbol dialect op).append (calm_expr (Expr.proper_unary.1 proper) explains' shown')
  | .binary op left right, _, proper, explains, shown => by
    obtain ⟨first, shown₁, behind⟩ := exists_of_bind_eq_ok shown
    obtain ⟨second, shown₂, ⟨⟩⟩ := exists_of_bind_eq_ok behind
    obtain ⟨proper₁, proper₂⟩ := Expr.proper_binary.1 proper
    have explains' := explains.of_subset (List.subset_cons_self _ _)
    exact calm_between (calm_binarySymbol op)
      (calm_expr proper₁ (explains'.of_subset (List.subset_append_left _ _)) shown₁)
      (calm_expr proper₂ (explains'.of_subset (List.subset_append_right _ _)) shown₂)
  | .logic op left right, _, proper, explains, shown => by
    obtain ⟨joins, proper₁, proper₂⟩ := Expr.proper_logic.1 proper
    rw [expr] at shown
    · obtain ⟨second, shown₂, behind⟩ := exists_of_bind_eq_ok shown
      obtain ⟨first, shown₁, ⟨⟩⟩ := exists_of_bind_eq_ok behind
      have explains' := explains.of_subset (List.subset_cons_self _ _)
      exact calm_between (calm_logicSymbol op)
        (calm_expr proper₁ (explains'.of_subset (List.subset_append_left _ _)) shown₁)
        (calm_expr proper₂ (explains'.of_subset (List.subset_append_right _ _)) shown₂)
    · exact joins
  | .cast value type, _, proper, explains, shown => by
    obtain ⟨proper₁, proper₂⟩ := Expr.proper_cast.1 proper
    have explains' := explains.of_subset (List.subset_cons_self _ _)
    obtain ⟨inner, typeText, shown₁, rfl, named⟩ := cast_eq_ok shown
    refine calm_cast (calm_expr proper₁ (explains'.of_subset (List.subset_append_left _ _)) shown₁) ?_
    rcases named with rfl | shown₂
    · exact (Expr.proper_variable.1 proper₂).calm
    · exact calm_expr proper₂ (explains'.of_subset (List.subset_append_right _ _)) shown₂
  | .logicPrefix op right, _, proper, explains, shown => by
    obtain ⟨rfl, proper'⟩ := Expr.proper_logicPrefix.1 proper
    obtain ⟨inner, shown', ⟨⟩⟩ := exists_of_bind_eq_ok shown
    have explains' := explains.of_subset (List.subset_cons_self _ _)
    exact (calm_of_all (by decide)).append (calm_expr proper' explains' shown')
  | .call callee args, _, proper, explains, shown => by
    obtain ⟨-, -, behind⟩ := exists_of_bind_eq_ok shown
    obtain ⟨texts, shown', ⟨⟩⟩ := exists_of_bind_eq_ok behind
    obtain ⟨known, proper'⟩ := Expr.proper_call.1 proper
    have explains' := explains.of_subset (List.subset_cons_self _ _)
    have inner := calm_listed (calm_exprs proper' explains' shown')
    exact ((known.calm.append (calm_of_all (by decide))).append inner).append (calm_of_all (by decide))

/-- Printed expressions are calm, each of them. -/
theorem calm_exprs : ∀ {trees : List Expr} {texts : List String}, (∀ tree ∈ trees, tree.Proper) →
    Explains breaks (Expr.allNodes trees) → exprs dialect table trees = .ok texts →
      ∀ text ∈ texts, Calm breaks text
  | [], _, _, _, shown => by
    cases shown
    exact nofun
  | tree :: rest, _, proper, explains, shown => by
    obtain ⟨text, shown₁, behind⟩ := exists_of_bind_eq_ok shown
    obtain ⟨texts, shown₂, ⟨⟩⟩ := exists_of_bind_eq_ok behind
    obtain ⟨proper₁, proper₂⟩ := List.forall_mem_cons.1 proper
    refine List.forall_mem_cons.2 ⟨?_, ?_⟩
    · exact calm_expr proper₁ (explains.of_subset (List.subset_append_left _ _)) shown₁
    · exact calm_exprs proper₂ (explains.of_subset (List.subset_append_right _ _)) shown₂

end

/-- The text of an expression starts with neither a blank nor a brace. -/
theorem opens_expr : ∀ {tree : Expr} {printed : String}, tree.Proper →
    expr dialect table tree = .ok printed → Opens printed
  | .number literal value, _, proper, shown => by
    cases shown
    exact (dialect.isNumeral_number (Expr.proper_number.1 proper)).opens
  | .string text, _, _, shown => by
    cases shown
    exact ⟨'"', _, by simp; rfl, by decide, by decide⟩
  | .variable name, _, proper, shown => by
    obtain ⟨-, -, ⟨⟩⟩ := exists_of_bind_eq_ok shown
    exact (Expr.proper_variable.1 proper).opens
  | .unary op operand, _, _, shown => by
    obtain ⟨inner, -, ⟨⟩⟩ := exists_of_bind_eq_ok shown
    exact (opens_unarySymbol dialect op).append inner
  | .binary .., _, proper, shown | .logic .., _, proper, shown => by
    obtain ⟨inner, rfl⟩ := expr_of_isWrapped proper rfl shown
    exact ((opens_of_any (by decide) : Opens "(").append _).append _
  | .cast value type, _, proper, shown => by
    obtain ⟨inner, typeText, -, rfl, named⟩ := cast_eq_ok shown
    have proper' := (Expr.proper_cast.1 proper).2
    have front : Opens typeText := by
      rcases named with rfl | shown'
      · exact (Expr.proper_variable.1 proper').opens
      · exact opens_expr proper' shown'
    cases dialect with
    | c => exact ⟨'(', _, by simp [Dialect.cast]; rfl, by decide, by decide⟩
    | go => exact ((front.append _).append _).append _
  | .logicPrefix op right, _, proper, shown => by
    obtain ⟨rfl, -⟩ := Expr.proper_logicPrefix.1 proper
    obtain ⟨inner, -, ⟨⟩⟩ := exists_of_bind_eq_ok shown
    exact (opens_of_any (by decide) : Opens "!").append inner
  | .call callee args, _, proper, shown => by
    obtain ⟨-, -, behind⟩ := exists_of_bind_eq_ok shown
    obtain ⟨texts, -, ⟨⟩⟩ := exists_of_bind_eq_ok behind
    exact (((Expr.proper_call.1 proper).1.opens.append _).append _).append _

end Emit

end ScriptLang
