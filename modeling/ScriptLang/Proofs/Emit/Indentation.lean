import ScriptLang.Proofs.Emit.Stacking

/-!
# Printed programs are indented by their braces

Every line that is printed for a statement opens or closes at most the brace that it ends or starts
with, so the lines of a program are stacked from no open brace to none. The text of a program is
therefore cut into tokens whose braces match, and each of its lines is indented by four blanks for
each brace that is open in front of it, unless a string within it goes over several lines
(`Program.emit_braces`).
-/

namespace ScriptLang

open Mode (code)

/-- The nodes of a statement's expressions are legal, and so is the statement; a line feed in a string
has the given reason. -/
def Stmt.Printable (breaks : Prop) (stmt : Stmt) : Prop :=
  stmt.Legal ∧ ∀ tree ∈ stmt.exprs, tree.Proper ∧ Explains breaks tree.nodes

section Lines

variable {dialect : Dialect} {breaks : Prop} {name : Name} {names targets returns : List Name}
  {text call literal : String} {texts : List String} {value : Word}

/-- An assignment operator between its blanks is calm. -/
theorem calm_assignSymbol (op : AssignOp) : Calm breaks (" " ++ op.symbol ++ " ") := by
  cases op with
  | div => exact ⟨rfl, fun _ => rfl, fun fed => absurd fed (by decide)⟩
  | _ => exact calm_of_all (by decide)

/-- A target is calm, with and without the word in front that declares it. -/
theorem calm_target (proper : name.Proper) (declares : Bool) :
    Calm breaks (dialect.target declares name) := by
  cases declares with
  | false => exact proper.calm
  | true =>
    cases dialect with
    | c => exact (calm_of_all (by decide)).append proper.calm
    | go => exact ((calm_of_all (by decide)).append proper.calm).append (calm_of_all (by decide))

/-- A target starts neither with a blank nor with a closing brace. -/
theorem opens_target (proper : name.Proper) (declares : Bool) :
    Opens (dialect.target declares name) := by
  cases declares with
  | false => exact proper.opens
  | true =>
    cases dialect with
    | c => exact (opens_of_any (by decide) : Opens "int ").append name
    | go =>
      exact ((opens_of_any (by decide) : Opens "var ").append name).append " int"

/-- The line of an assignment fits wherever its value is calm. -/
theorem fits_assignLine (proper : name.Proper) {value : Option String}
    (calm : ∀ text ∈ value, Calm breaks text) (declares : Bool) (op : AssignOp) :
    (dialect.assignLine declares op name value).Fits breaks 0 0 := by
  have left : Calm breaks (dialect.target declares name) := calm_target proper declares
  have front : Opens (dialect.target declares name) := opens_target proper declares
  have stop : Calm breaks ";" := calm_of_all (by decide)
  cases value with
  | none => exact .plain (front.append _) (left.append stop)
  | some text =>
    have regrouped : dialect.target declares name ++ " " ++ op.symbol ++ " " ++ text ++ ";" =
        dialect.target declares name ++ (" " ++ op.symbol ++ " ") ++ text ++ ";" := by
      simp [String.append_assoc]
    have fits : (Line.outer (dialect.target declares name ++ (" " ++ op.symbol ++ " ") ++ text ++
        ";")).Fits breaks 0 0 :=
      .plain (((front.append _).append _).append _)
        (((left.append (calm_assignSymbol op)).append (calm text rfl)).append stop)
    rwa [← regrouped] at fits

/-- The names that a list starts with are printed first. -/
theorem opens_listed (opens : ∀ text ∈ texts, Opens text) (nonempty : texts ≠ []) :
    Opens (Dialect.listed texts) := by
  cases texts with
  | nil => exact absurd rfl nonempty
  | cons text rest =>
    have first := opens text List.mem_cons_self
    by_cases alone : rest = []
    · subst alone
      simpa [Dialect.listed] using first
    · rw [Dialect.listed, String.intercalate_cons_of_ne_nil alone]
      exact (first.append _).append _

/-- The lines that fill several targets from a call fit one behind the other. -/
theorem stacked_destructureLines (proper : ∀ name ∈ targets, name.Proper) (nonempty : targets ≠ [])
    (calm : Calm breaks call) (declares : Bool) :
    Stacked breaks 0 (dialect.destructureLines declares targets call) 0 := by
  cases dialect with
  | c =>
    cases targets with
    | nil => exact .nil
    | cons first rest =>
      obtain ⟨here, there⟩ := List.forall_mem_cons.1 proper
      refine .cons (fits_assignLine here (by simpa using calm) declares .set) (.of_forall ?_)
      refine List.forall_mem_map.2 fun name member => ?_
      exact fits_assignLine (there name member) (by simp) declares .set
  | go =>
    have left : Calm breaks (Dialect.listed targets) :=
      calm_listed fun name member => (proper name member).calm
    have front : Opens (Dialect.listed targets) :=
      opens_listed (fun name member => (proper name member).opens) nonempty
    have right {text : String} (calm' : Calm breaks text) : Calm breaks (text ++ " = " ++ call ++ ";") :=
      ((calm'.append (calm_of_all (by decide))).append calm).append (calm_of_all (by decide))
    refine .singleton ?_
    cases declares with
    | false => exact .plain (((front.append _).append _).append _) (right left)
    | true =>
      have front' : Opens ("var " ++ Dialect.listed targets ++ " int") :=
        ((opens_of_any (by decide) : Opens "var ").append _).append _
      exact .plain (((front'.append _).append _).append _)
        (right (((calm_of_all (by decide)).append left).append (calm_of_all (by decide))))

/-- Parameters or results with their types. -/
theorem calm_typed (proper : ∀ name ∈ names, name.Proper) :
    Calm breaks (Dialect.listed (names.map dialect.parameter)) := by
  refine calm_listed (List.forall_mem_map.2 fun name member => ?_)
  have known : Calm breaks name := (proper name member).calm
  cases dialect with
  | c => exact (calm_of_all (by decide)).append known
  | go => exact known.append (calm_of_all (by decide))

/-- The header of a function fits, and one more brace is open behind it. -/
theorem fits_functionHeader {params : List Name} (proper : name.Proper)
    (given : ∀ name ∈ params ++ returns, name.Proper) :
    (Line.outer (dialect.functionHeader name params returns)).Fits breaks 0 1 := by
  obtain ⟨params', returns'⟩ := List.forall_mem_append.1 given
  have known : Calm breaks name := proper.calm
  cases dialect with
  | c =>
    have regrouped : Dialect.c.functionHeader name params returns =
        "int " ++ name ++ "(" ++ (if params.isEmpty then "void" else
          Dialect.listed (params.map Dialect.c.parameter)) ++ ") " ++ "\x7b" := by
      rw [String.append_assoc]
      rfl
    have front : Opens "int " := opens_of_any (by decide)
    rw [regrouped]
    refine .opening (((((front.append _).append _).append _).append _).append _) ?_
    refine ((((calm_of_all (by decide)).append known).append (calm_of_all (by decide))).append
      ?_).append (calm_of_all (by decide))
    split
    · exact calm_of_all (by decide)
    · exact calm_typed params'
  | go =>
    have front : Opens "func " := opens_of_any (by decide)
    have results : Calm breaks (if returns.isEmpty then "" else
        "(" ++ Dialect.listed (returns.map Dialect.go.parameter) ++ ") ") := by
      split
      · exact calm_of_all (by decide)
      · exact ((calm_of_all (by decide)).append (calm_typed returns')).append (calm_of_all (by decide))
    refine .opening ((((((front.append _).append _).append _).append _).append _).append _) ?_
    exact (((((calm_of_all (by decide)).append known).append (calm_of_all (by decide))).append
      (calm_typed params')).append (calm_of_all (by decide))).append results

/-- The lines that declare the results of a function fit one behind the other. -/
theorem stacked_resultLines (proper : ∀ name ∈ returns, name.Proper) :
    Stacked breaks 0 (dialect.resultLines returns) 0 := by
  cases dialect with
  | c =>
    refine .of_forall (List.forall_mem_map.2 fun name member => ?_)
    have front : Opens "int " := opens_of_any (by decide)
    have left : Calm breaks ("int " ++ name) :=
      (calm_of_all (by decide)).append (proper name member).calm
    exact .plain ((front.append _).append _) (left.append (calm_of_all (by decide)))
  | go => exact .nil

/-- The remark behind a `return` is read up to the end of its line: for C it ends in a slash, and for
Go it is a comment. -/
theorem errorRemark_read (numeral : IsNumeral literal value) :
    code.run ((dialect.errorRemark literal).toList ++ ['\n']) = code ∧
      (∀ offset, code.braces offset ((dialect.errorRemark literal).toList ++ ['\n']) = []) ∧
        '\n' ∉ (dialect.errorRemark literal).toList := by
  have numeral' := isNumeral_decimal (Numeral.nonneg_of_value? numeral.denotes)
  have calm : Calm False (Word.decimal value) := numeral'.calm
  have shown : (Numeral.value? literal).elim literal Word.decimal = Word.decimal value := by
    rw [numeral.denotes]
    rfl
  cases dialect with
  | c =>
    have opening : Calm False " /* error: " := ⟨rfl, fun _ => rfl, fun fed => absurd fed (by decide)⟩
    have both := opening.append calm
    have whole : (Dialect.c.errorRemark literal).toList =
        (" /* error: " ++ Word.decimal value).toList ++ [' ', '*', '/'] := by
      simp [Dialect.errorRemark, shown]
    rw [whole, List.append_assoc]
    refine ⟨?_, fun offset => ?_, fun fed => ?_⟩
    · rw [Mode.run_append, both.run]
      rfl
    · rw [Mode.braces_append, both.braces, both.run]
      rfl
    · exact (List.mem_append.1 fed).elim both.lineFeed (by decide)
  | go =>
    have comment := Mode.comment_run numeral'.lineEnd
    have whole : (Dialect.go.errorRemark literal).toList =
        " // error: ".toList ++ (Word.decimal value).toList := by
      simp [Dialect.errorRemark, shown]
    rw [whole, List.append_assoc]
    refine ⟨?_, fun offset => ?_, fun fed => ?_⟩
    · rw [Mode.run_append, Mode.run_append, show code.run " // error: ".toList = .comment from rfl,
        (comment 0).1]
      rfl
    · rw [Mode.braces_append, Mode.braces_append,
        show code.run " // error: ".toList = .comment from rfl, (comment 0).1, (comment _).2]
      rfl
    · exact (List.mem_append.1 fed).elim (by decide) calm.lineFeed

/-- A `return` is calm up to its remark. -/
theorem exists_returnLine (dialect : Dialect) (calm : ∀ text ∈ texts, Calm breaks text)
    (errorCode : Option String) : ∃ results, dialect.returnLine texts errorCode =
      results ++ errorCode.elim "" dialect.errorRemark ∧ Calm breaks results ∧ Opens results := by
  have stop : Calm breaks ";" := calm_of_all (by decide)
  have start : Calm breaks "return " := calm_of_all (by decide)
  have front : Opens "return " := opens_of_any (by decide)
  have listed := calm_listed calm
  match dialect, texts, calm, listed with
  | _, [], _, _ =>
    exact ⟨"return;", by cases dialect <;> rfl, calm_of_all (by decide),
      opens_of_any (by decide)⟩
  | _, [value], calm, _ =>
    refine ⟨"return " ++ value ++ ";", by cases dialect <;> rfl, ?_, (front.append _).append _⟩
    exact (start.append (calm value List.mem_cons_self)).append stop
  | .c, first :: second :: rest, _, listed =>
    have front' : Opens "return (" := opens_of_any (by decide)
    refine ⟨"return (" ++ Dialect.listed (first :: second :: rest) ++ ");", rfl, ?_,
      (front'.append _).append _⟩
    exact ((calm_of_all (by decide)).append listed).append (calm_of_all (by decide))
  | .go, first :: second :: rest, _, listed =>
    refine ⟨"return " ++ Dialect.listed (first :: second :: rest) ++ ";", rfl, ?_,
      (front.append _).append _⟩
    exact (start.append listed).append stop

/-- The line of a `return` fits, with the remark on the error code behind it. -/
theorem fits_returnLine (calm : ∀ text ∈ texts, Calm breaks text) {errorCode : Option String}
    (known : ∀ literal ∈ errorCode, ∃ value, IsNumeral literal value) :
    (Line.outer (dialect.returnLine texts errorCode)).Fits breaks 0 0 := by
  obtain ⟨results, whole, calm', opens⟩ := exists_returnLine dialect calm errorCode
  rw [whole]
  cases errorCode with
  | none => exact .outer_append (opens.append _) calm' rfl (fun _ => .nil) (by simp)
  | some literal =>
    obtain ⟨value, numeral⟩ := known literal rfl
    obtain ⟨run, braces, line⟩ := errorRemark_read numeral
    refine .outer_append (opens.append _) calm' run (fun offset => ?_) line
    rw [Option.elim, braces]
    exact .nil

/-- The line of an import fits; a line feed in it comes from the path. -/
theorem fits_importLine {path : String} (content : Lexeme.IsContent path.toList)
    (explains : '\n' ∈ path.toList → breaks) :
    (Line.outer (dialect.importLine path)).Fits breaks 0 0 := by
  have quoted := (calm_quoted content).weaken explains
  cases dialect with
  | c =>
    have regrouped : Dialect.c.importLine path = "#include " ++ ("\"" ++ path ++ "\"") := by
      simp [Dialect.importLine, ← String.append_assoc]
    rw [regrouped]
    have front : Opens "#include " := opens_of_any (by decide)
    exact .plain (front.append _) ((calm_of_all (by decide)).append quoted)
  | go =>
    have regrouped : Dialect.go.importLine path = "import " ++ ("\"" ++ path ++ "\"") := by
      simp [Dialect.importLine, ← String.append_assoc]
    rw [regrouped]
    have front : Opens "import " := opens_of_any (by decide)
    exact .plain (front.append _) ((calm_of_all (by decide)).append quoted)

end Lines

namespace Emit

variable {dialect : Dialect} {table table' : ScopeTable Nat} {breaks : Prop} {lines : List Line}

/-- The line that opens a branch. What is taken off a condition in parentheses stands in those that
the branch brings. -/
theorem fits_condition {test : Expr} (proper : test.Proper) (explains : Explains breaks test.nodes)
    {text : String} (shown : condition dialect table test = .ok text) :
    (Line.outer ("if (" ++ text ++ ") \x7b")).Fits breaks 0 1 := by
  obtain ⟨printed, shown', -⟩ := exists_of_bind_eq_ok shown
  obtain ⟨inner, stripped, same⟩ := condition_eq proper shown'
  obtain rfl : text = inner := Except.ok.inj (shown.symm.trans stripped)
  have calm := calm_expr proper explains shown'
  have front : Opens "if " := opens_of_any (by decide)
  have front' : Opens "if (" := opens_of_any (by decide)
  by_cases wrapped : isWrapped test = true
  · rw [if_pos wrapped] at same
    have regrouped : "if (" ++ text ++ ") \x7b" = "if " ++ printed ++ " " ++ "\x7b" := by
      rw [same, ← String.toList_inj]
      simp
    rw [regrouped]
    exact .opening (((front.append _).append _).append _)
      (((calm_of_all (by decide)).append calm).append (calm_of_all (by decide)))
  · rw [if_neg wrapped] at same
    have regrouped : "if (" ++ text ++ ") \x7b" = "if (" ++ printed ++ ") " ++ "\x7b" := by
      rw [same, ← String.toList_inj]
      simp
    rw [regrouped]
    exact .opening (((front'.append _).append _).append _)
      (((calm_of_all (by decide)).append calm).append (calm_of_all (by decide)))

/-- What is assigned is a printed value, or the first target. -/
theorem mem_sources {targets : List Name} {op : AssignOp} {texts : List String} {text : String}
    (listed : some text ∈ sources targets op texts) : text ∈ texts ∨ text ∈ targets := by
  unfold sources at listed
  split at listed
  · rcases List.mem_cons.1 listed with same | later
    · exact .inl (Option.some.inj same ▸ List.mem_cons_self)
    · obtain ⟨-, -, same⟩ := List.mem_map.1 later
      split at same
      · exact .inr (Option.some.inj same ▸ List.mem_cons_self)
      · exact .inl (Option.some.inj same ▸ List.mem_cons_self)
  · obtain ⟨index, -, same⟩ := List.mem_mapIdx.1 listed
    exact .inl (List.mem_of_getElem? same)

/-- The values of an assignment are printed as calm texts. -/
theorem calm_values {values : List Expr} {texts : List String}
    (printable : ∀ tree ∈ values, tree.Proper ∧ Explains breaks tree.nodes)
    (shown : exprs dialect table values = .ok texts) : ∀ text ∈ texts, Calm breaks text := by
  refine calm_exprs (fun tree listed => (printable tree listed).1) (fun text present => ?_) shown
  obtain ⟨tree, listed, within⟩ := Expr.mem_allNodes.1 present
  exact (printable tree listed).2 text within

/-- The lines of an assignment fit one behind the other and leave no brace open. -/
theorem stacked_assignment {declares : Bool} {targets : List Name} {op : AssignOp} {values : List Expr}
    (printable : (Stmt.assign declares targets op values).Printable breaks)
    (printed : assignment dialect declares targets op values table = .ok (lines, table')) :
    Stacked breaks 0 lines 0 := by
  obtain ⟨⟨nonempty, -, -, names⟩, values'⟩ := printable
  obtain ⟨texts, table₁, asked, printed⟩ := bind_eq_ok.1 printed
  obtain ⟨shown, rfl⟩ := ask_eq_ok.1 asked
  obtain ⟨_, table₂, asked, printed⟩ := bind_eq_ok.1 printed
  obtain ⟨⟨⟩, table₃, -, printed⟩ := bind_eq_ok.1 printed
  have calm := calm_values values' shown
  split at printed
  · obtain ⟨rfl, -⟩ := pure_eq_ok.1 printed
    exact stacked_destructureLines names nonempty (calm_listed calm) declares
  · obtain ⟨rfl, -⟩ := pure_eq_ok.1 printed
    refine .of_forall (List.forall_mem_map.2 fun ⟨name, value⟩ member => ?_)
    obtain ⟨target, source⟩ := List.of_mem_zip member
    refine fits_assignLine (names name target) (fun text same => ?_) declares op
    rw [Option.mem_def.1 same] at source
    exact (mem_sources source).elim (calm text) fun first => (names text first).calm

/-- The `return` that a body is lacking returns names. -/
theorem stacked_missingReturn {returns : List Name} (proper : ∀ name ∈ returns, name.Proper)
    (body : List Stmt) : Stacked breaks 0 (missingReturn dialect returns body) 0 := by
  unfold missingReturn
  split
  · exact .nil
  · exact .singleton (fits_returnLine (fun name member => (proper name member).calm) (by simp))

/-- An arm is printed as a statement is, from some table. -/
theorem exists_inner_of_armScope {arm : Stmt}
    (printed : armScope arm (inner dialect arm) table = .ok (lines, table')) :
    ∃ table₁ table₂, inner dialect arm table₁ = .ok (lines, table₂) := by
  unfold armScope at printed
  split at printed
  · exact ⟨_, _, printed⟩
  · obtain ⟨final, inside, -⟩ := withScope_eq_ok.1 printed
    exact ⟨_, final, inside⟩

mutual

/-- The lines of a statement lead from no brace to none. -/
theorem stacked_inner : ∀ {stmt : Stmt} {table table' : ScopeTable Nat} {lines : List Line},
    (∀ node ∈ stmt.nodes, node.Printable breaks) → inner dialect stmt table = .ok (lines, table') →
      Stacked breaks 0 lines 0
  | .assign .., _, _, _, printable, printed =>
      stacked_assignment (List.forall_mem_singleton.1 printable) printed
  | .branch test thenArm elseArm, _, _, _, printable, printed => by
    obtain ⟨⟨-, values⟩, parts⟩ := List.forall_mem_cons.1 printable
    obtain ⟨proper, explains⟩ := List.forall_mem_singleton.1 values
    obtain ⟨first', second'⟩ := List.forall_mem_append.1 parts
    obtain ⟨text, table₁, asked, printed⟩ := bind_eq_ok.1 printed
    obtain ⟨shown, rfl⟩ := ask_eq_ok.1 asked
    obtain ⟨first, table₂, here, printed⟩ := bind_eq_ok.1 printed
    obtain ⟨second, table₃, there, printed⟩ := bind_eq_ok.1 printed
    obtain ⟨rfl, -⟩ := pure_eq_ok.1 printed
    obtain ⟨_, _, here⟩ := exists_inner_of_armScope here
    have arm := (stacked_inner first' here).indent
    have other := stacked_elseLines second' there
    -- The condition opens the brace that the last line closes.
    exact .cons (fits_condition proper explains shown) ((arm.append other).append (.singleton .closing))
  | .func name params returns body, _, _, _, printable, printed => by
    obtain ⟨⟨⟨proper, given, -⟩, -⟩, parts⟩ := List.forall_mem_cons.1 printable
    have returns' := (List.forall_mem_append.1 given).2
    obtain ⟨⟨⟩, table₁, -, printed⟩ := bind_eq_ok.1 printed
    obtain ⟨final, inside, -⟩ := withScope_eq_ok.1 printed
    obtain ⟨⟨⟩, table₂, -, inside⟩ := bind_eq_ok.1 inside
    obtain ⟨lines', table₃, shown, inside⟩ := bind_eq_ok.1 inside
    obtain ⟨rfl, -⟩ := pure_eq_ok.1 inside
    have body' := stacked_all parts shown
    exact .enclosed (fits_functionHeader proper given)
      (((stacked_resultLines returns').append body').append (stacked_missingReturn returns' body))
  | .ret values errorCode, _, _, _, printable, printed => by
    obtain ⟨⟨-, known⟩, values'⟩ := List.forall_mem_singleton.1 printable
    obtain ⟨texts, table₁, asked, printed⟩ := bind_eq_ok.1 printed
    obtain ⟨shown, rfl⟩ := ask_eq_ok.1 asked
    obtain ⟨rfl, -⟩ := pure_eq_ok.1 printed
    exact .singleton (fits_returnLine (calm_values values' shown) known)
  | .block body, _, _, _, printable, printed => by
    obtain ⟨-, parts⟩ := List.forall_mem_cons.1 printable
    obtain ⟨final, inside, -⟩ := withScope_eq_ok.1 printed
    exact stacked_all parts inside
  | .expr value, _, _, _, printable, printed => by
    obtain ⟨-, values⟩ := List.forall_mem_singleton.1 printable
    obtain ⟨proper, explains⟩ := List.forall_mem_singleton.1 values
    obtain ⟨text, table₁, asked, printed⟩ := bind_eq_ok.1 printed
    obtain ⟨shown, rfl⟩ := ask_eq_ok.1 asked
    obtain ⟨rfl, -⟩ := pure_eq_ok.1 printed
    refine .singleton (.plain ((opens_expr proper shown).append _) ?_)
    exact (calm_expr proper explains shown).append (calm_of_all (by decide))
  | .empty, _, _, _, _, printed => by
    obtain ⟨rfl, -⟩ := pure_eq_ok.1 printed
    exact .nil

/-- The lines of an arm behind `else` stand within the brace that the branch opens. -/
theorem stacked_elseLines : ∀ {arm : Option Stmt} {table table' : ScopeTable Nat} {lines : List Line},
    (∀ node ∈ Stmt.elseNodes arm, node.Printable breaks) →
      elseLines dialect arm table = .ok (lines, table') → Stacked breaks 1 lines 1
  | none, _, _, _, _, printed => by
    obtain ⟨rfl, -⟩ := pure_eq_ok.1 printed
    exact .nil
  | some arm, _, _, _, printable, printed => by
    obtain ⟨lines', table₁, here, printed⟩ := bind_eq_ok.1 printed
    obtain ⟨rfl, -⟩ := pure_eq_ok.1 printed
    obtain ⟨_, _, here⟩ := exists_inner_of_armScope here
    exact .cons .between (stacked_inner printable here).indent

/-- The lines of statements lead from no brace to none. -/
theorem stacked_all : ∀ {stmts : List Stmt} {table table' : ScopeTable Nat} {lines : List Line},
    (∀ node ∈ Stmt.allNodes stmts, node.Printable breaks) →
      all dialect stmts table = .ok (lines, table') → Stacked breaks 0 lines 0
  | [], _, _, _, _, printed => by
    obtain ⟨rfl, -⟩ := pure_eq_ok.1 printed
    exact .nil
  | stmt :: rest, _, _, _, printable, printed => by
    obtain ⟨here, there⟩ := List.forall_mem_append.1 printable
    rw [all] at printed
    obtain ⟨first, table₁, shown, printed⟩ := bind_eq_ok.1 printed
    obtain ⟨others, table₂, shown', printed⟩ := bind_eq_ok.1 printed
    obtain ⟨rfl, -⟩ := pure_eq_ok.1 printed
    have first' := stacked_inner here shown
    refine Stacked.append ?_ (stacked_all there shown')
    have brace : (Line.outer ("" ++ "\x7b")).Fits breaks 0 1 :=
      .opening (opens_of_any (by decide)) (calm_of_all (by decide))
    unfold braced
    split
    · exact .enclosed brace first'
    · exact first'

end

end Emit

/-- How often a mark stands among tokens. -/
def Mark.count (sign : Mark) (tokens : List Token) : Nat :=
  tokens.countP (·.kind = .mark sign)

section Counting

variable {tokens : List Token} {depth : Nat}

/-- Braces of a kind are counted among the braces as they are among the tokens. -/
theorem Mark.count_eq {sign : Mark} (brace : sign = .openBrace ∨ sign = .closeBrace) :
    sign.count tokens = (tokens.filterMap Token.brace?).countP (·.2 = sign) := by
  rw [count, List.countP_filterMap]
  refine List.countP_congr fun token _ => ?_
  obtain ⟨kind, text, span⟩ := token
  cases kind with
  | mark sign' => rcases brace with rfl | rfl <;> cases sign' <;> simp [Token.brace?, Token.Kind.brace?]
  | _ => simp [Token.brace?, Token.Kind.brace?]

/-- What is open behind tokens is what they open but for what they close. -/
theorem Climbs.count_tokens (climbs : Climbs 0 (tokens.filterMap Token.brace?) depth) :
    Mark.closeBrace.count tokens + depth = Mark.openBrace.count tokens := by
  rw [Mark.count_eq (.inl rfl), Mark.count_eq (.inr rfl), climbs.count_eq, Nat.zero_add]

/-- The braces in front of a part of a text are those of the tokens that start there. -/
theorem filterMap_brace_of_append {before rest : List Char}
    (braces : tokens.filterMap Token.brace? = code.braces 0 (before ++ rest)) :
    (tokens.filter (·.span.start.offset < byteLength before)).filterMap Token.brace? =
      code.braces 0 before := by
  have exchanged : (tokens.filter (·.span.start.offset < byteLength before)).filterMap Token.brace? =
      (tokens.filterMap Token.brace?).filter (·.1 < byteLength before) := by
    rw [List.filterMap_filter, List.filter_filterMap]
    refine List.filterMap_congr fun token _ => ?_
    cases found : token.kind.brace? <;> simp [Token.brace?, found, Option.filter]
  have front : ∀ brace ∈ code.braces 0 before, decide (brace.1 < byteLength before) = true := by
    intro brace found
    have bounds := Mode.mem_braces found
    exact decide_eq_true (by omega)
  have behind : ∀ brace ∈ (code.run before).braces (0 + byteLength before) rest,
      ¬decide (brace.1 < byteLength before) = true := by
    intro brace found
    have bounds := Mode.mem_braces found
    simp only [decide_eq_true_eq]
    omega
  rw [exchanged, braces, Mode.braces_append, List.filter_append, List.filter_eq_self.2 front,
    List.filter_eq_nil_iff.2 behind, List.append_nil]

end Counting

namespace Program

variable {source text : String} {program : Program} {dialect : Dialect}

/-- A string, or the path of an import, goes over several lines. -/
def BreaksLines (program : Program) : Prop :=
  (∃ content, .string content ∈ program.exprs ∧ '\n' ∈ content.toList) ∨
    ∃ path ∈ program.imports, '\n' ∈ path.toList

/-- The lines of a program that was read from a text lead from no brace to none. -/
theorem stacked_of_emit (read : ofText source = .ok program)
    (printed : program.emit dialect = .ok text) :
    ∃ lines, text = Line.renderAll lines ∧ Stacked program.BreaksLines 0 lines 0 := by
  obtain ⟨lines, table, shown⟩ := all_of_emit printed
  refine ⟨_, Except.ok.inj (printed.symm.trans (emit_of_all shown)), .append (.of_forall ?_) ?_⟩
  · refine List.forall_mem_map.2 fun path member => ?_
    exact fits_importLine (isContent_of_ofText read path member) fun fed => .inr ⟨path, member, fed⟩
  · refine Emit.stacked_all (fun node within => ?_) shown
    obtain ⟨legal, proper⟩ := (Stmt.allProper_iff.1 (allProper_of_ofText read)).2 node within
    refine ⟨legal, fun tree listed => ⟨proper tree listed, fun content present fed => ?_⟩⟩
    have inside : .string content ∈ Expr.allNodes node.exprs :=
      Expr.mem_allNodes.2 ⟨tree, listed, present⟩
    exact .inl ⟨content, List.mem_flatMap.2 ⟨node, within, inside⟩, fed⟩

/-- The text that is printed for a program is cut into tokens whose braces match: no front of the
tokens closes more braces than it opens, and all of them close as many as they open. Unless a string
or a path goes over several lines, every line of the text is indented by four blanks for each brace
that is open in front of it, or by one fewer if it starts with a closing brace. -/
theorem emit_braces (read : ofText source = .ok program) (printed : program.emit dialect = .ok text) :
    ∃ tokens, tokenize text = .ok tokens ∧
      (∀ front, front <+: tokens → Mark.closeBrace.count front ≤ Mark.openBrace.count front) ∧
        Mark.closeBrace.count tokens = Mark.openBrace.count tokens ∧
          (¬program.BreaksLines → ∀ before row, IsLine text.toList before row →
            let front := tokens.filter (·.span.start.offset < byteLength before)
            ∃ depth, Mark.closeBrace.count front + depth = Mark.openBrace.count front ∧
              IsIndented depth row) := by
  obtain ⟨lines, rfl, stacked⟩ := stacked_of_emit read printed
  obtain ⟨run, climbs⟩ := stacked.read
  have closed : (code.run (Line.renderAll lines).toList).IsClosed := by
    rw [run]
    exact ⟨nofun, nofun⟩
  obtain ⟨cut, same⟩ := tokenize_braces (Line.renderAll lines)
  obtain ⟨tokens, collected⟩ := cut closed
  have braces := same tokens collected
  have whole := climbs 0
  rw [← braces] at whole
  refine ⟨tokens, collected, ?_, whole.count_tokens, fun single before row isLine => ?_⟩
  · rintro front ⟨behind, rfl⟩
    rw [List.filterMap_append] at whole
    obtain ⟨depth, here, -⟩ := whole.split
    exact Nat.le.intro here.count_tokens
  · obtain ⟨depth, here, indented⟩ := stacked.isIndented single isLine
    obtain ⟨⟨behind, parted, -⟩, -, -⟩ := isLine
    rw [parted, List.append_assoc] at braces
    refine ⟨depth, Climbs.count_tokens ?_, indented⟩
    rw [filterMap_brace_of_append braces]
    exact here 0

/-- Arms with a brace and without one; the `return` behind `else` has a comment at its end. -/
theorem emit_braces_arms :
    let program : Program := ⟨[], [.branch (.number "1" 1) (.block [.expr (.number "2" 2)])
      (some (.ret [.number "3" 3] (some "4")))]⟩
    let before := "if (1) \x7b\n    2;\n\x7d else \x7b\n".toList
    let row := "    return 3; // error: 4".toList
    let text := "if (1) \x7b\n    2;\n\x7d else \x7b\n    return 3; // error: 4\n\x7d\n"
    ofText "if 1 \x7b2\x7d else return 3 : 4" = .ok program ∧ program.emit .go = .ok text ∧
      ¬program.BreaksLines ∧ IsLine text.toList before row ∧
        ∃ tokens, tokenize text = .ok tokens ∧
          (∀ front, front <+: tokens → Mark.closeBrace.count front ≤ Mark.openBrace.count front) ∧
            Mark.closeBrace.count tokens = Mark.openBrace.count tokens ∧
              let front := tokens.filter (·.span.start.offset < byteLength before)
              ∃ depth, Mark.closeBrace.count front + depth = Mark.openBrace.count front ∧
                IsIndented depth row := by
  intro program before row text
  have cut : tokenize "if 1 \x7b2\x7d else return 3 : 4" = .ok
      [⟨.keyword .cond, "if", ⟨⟨0, 1, 0⟩, 2⟩⟩, ⟨.number, "1", ⟨⟨3, 1, 3⟩, 4⟩⟩,
        ⟨.mark .openBrace, "\x7b", ⟨⟨5, 1, 5⟩, 6⟩⟩, ⟨.number, "2", ⟨⟨6, 1, 6⟩, 7⟩⟩,
        ⟨.mark .closeBrace, "\x7d", ⟨⟨7, 1, 7⟩, 8⟩⟩, ⟨.keyword .elseArm, "else", ⟨⟨9, 1, 9⟩, 13⟩⟩,
        ⟨.keyword .ret, "return", ⟨⟨14, 1, 14⟩, 20⟩⟩, ⟨.number, "3", ⟨⟨21, 1, 21⟩, 22⟩⟩,
        ⟨.mark .colon, ":", ⟨⟨23, 1, 23⟩, 24⟩⟩, ⟨.number, "4", ⟨⟨25, 1, 25⟩, 26⟩⟩,
        ⟨.eof, "EOF", ⟨⟨26, 1, 26⟩, 26⟩⟩] := by
    with_unfolding_all rfl
  have read : ofText "if 1 \x7b2\x7d else return 3 : 4" = .ok program :=
    (ofText_eq_of_tokenize cut).trans rfl
  have printed : program.emit .go = .ok text := rfl
  have single : ¬program.BreaksLines := by
    rintro (⟨content, present, -⟩ | ⟨path, imported, -⟩)
    · have nodes : program.exprs = [.number "1" 1, .number "2" 2, .number "3" 3] := rfl
      simp [nodes] at present
    · cases imported
  have isLine : IsLine text.toList before row :=
    ⟨⟨"\n\x7d\n".toList, by decide, fun _ front => (Option.some.inj front).symm⟩,
      fun _ last => (Option.some.inj last).symm, by decide⟩
  obtain ⟨tokens, collected, fronts, total, rows⟩ := emit_braces read printed
  exact ⟨read, printed, single, isLine, tokens, collected, fronts, total, rows single before row isLine⟩

end Program

end ScriptLang
