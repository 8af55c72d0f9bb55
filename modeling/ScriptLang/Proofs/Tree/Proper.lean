import ScriptLang.Numeral
import ScriptLang.Proofs.Token.Lexemes
import ScriptLang.Tree.Basic

/-!
# Proper trees

What holds of every node of a tree that was read from a text: operators have their operands, numbers
have the values that they are written with, names are made of identifiers, and the empty statement
stands in no list of statements. `Expr.Legal` and `Stmt.Legal` say what is asked of one node, and a
tree is proper if all of its nodes are legal.
-/

namespace ScriptLang

/-- A text that is cut as one identifier, which no reserved word is. -/
def IsIdentifier (word : String) : Prop :=
  Lexeme.IsLexeme .identifier word word.toList []

/-- A text that is cut as one number and has a value. -/
structure IsNumeral (literal : String) (value : Word) : Prop where
  lexeme : Lexeme.IsLexeme .number literal literal.toList []
  denotes : Numeral.value? literal = some value

/-- Identifiers with dots between them. -/
inductive Name.Proper : Name → Prop where
  | word {word : String} : IsIdentifier word → Proper word
  | dotted {name : Name} {word : String} : Proper name → IsIdentifier word →
      Proper (name ++ "." ++ word)

/-- Numerals have no sign. -/
theorem Numeral.nonneg_of_value? {literal : String} {value : Word}
    (denotes : Numeral.value? literal = some value) : 0 ≤ value.toInt := by
  obtain ⟨digits, -, fits⟩ := Option.bind_eq_some_iff.1 denotes
  rw [Word.ofInt?_eq_some_iff] at fits
  omega

namespace Expr

mutual

/-- The nodes of an expression. -/
def nodes : Expr → List Expr
  | .number literal value => [.number literal value]
  | .string text => [.string text]
  | .variable name => [.variable name]
  | .unary op operand => .unary op operand :: nodes operand
  | .binary op left right => .binary op left right :: (nodes left ++ nodes right)
  | .cast value type => .cast value type :: (nodes value ++ nodes type)
  | .logic op left right => .logic op left right :: (nodes left ++ nodes right)
  | .logicPrefix op right => .logicPrefix op right :: nodes right
  | .call callee args => .call callee args :: allNodes args

/-- The nodes of expressions. -/
def allNodes : List Expr → List Expr
  | [] => []
  | first :: rest => nodes first ++ allNodes rest

end

/-- What is asked of one node of an expression. -/
def Legal : Expr → Prop
  | .number literal value => IsNumeral literal value ∧ 0 ≤ value.toInt
  | .string text => Lexeme.IsContent text.toList
  | .variable name | .call name _ => name.Proper
  | .logic op _ _ => op ≠ .not
  | .logicPrefix op _ => op = .not
  | .unary .. | .binary .. | .cast .. => True

/-- All nodes of the expression are legal. -/
def Proper (tree : Expr) : Prop :=
  ∀ node ∈ tree.nodes, node.Legal

/-- The nodes of several expressions are those of each. -/
theorem mem_allNodes {trees : List Expr} {node : Expr} :
    node ∈ allNodes trees ↔ ∃ tree ∈ trees, node ∈ tree.nodes := by
  induction trees with
  | nil => simp [allNodes]
  | cons tree rest ih => simp [allNodes, ih]

/-- Something holds of the nodes of several expressions exactly if it does of those of each. -/
theorem forall_mem_allNodes {trees : List Expr} {property : Expr → Prop} :
    (∀ node ∈ allNodes trees, property node) ↔ ∀ tree ∈ trees, ∀ node ∈ tree.nodes, property node := by
  simp only [mem_allNodes]
  exact ⟨fun holds tree listed node within => holds node ⟨tree, listed, within⟩,
    fun holds node ⟨tree, listed, within⟩ => holds tree listed node within⟩

/-- Every expression is one of its own nodes. -/
theorem mem_nodes_self (tree : Expr) : tree ∈ tree.nodes := by
  cases tree <;> exact List.mem_cons_self

/-- If the nodes of the parts hold all nodes of `node`, so do the nodes of the whole. -/
theorem nodes_subset_cons {whole node : Expr} {parts : List Expr} (parted : whole.nodes = whole :: parts)
    (inner : node ∈ parts → node.nodes ⊆ parts) (within : node ∈ whole.nodes) :
    node.nodes ⊆ whole.nodes := by
  rw [parted] at within
  rcases List.mem_cons.1 within with rfl | within
  · exact List.Subset.refl _
  · rw [parted]
    exact List.Subset.trans (inner within) (List.subset_cons_self _ _)

/-- A node of either of two lists has its own nodes in it. -/
theorem nodes_subset_append {node : Expr} {first rest : List Expr}
    (inFirst : node ∈ first → node.nodes ⊆ first) (inRest : node ∈ rest → node.nodes ⊆ rest)
    (within : node ∈ first ++ rest) : node.nodes ⊆ first ++ rest := by
  rcases List.mem_append.1 within with within | within
  · exact List.Subset.trans (inFirst within) (List.subset_append_left _ _)
  · exact List.Subset.trans (inRest within) (List.subset_append_right _ _)

mutual

/-- The nodes of a node are nodes of the whole. -/
theorem nodes_subset_of_mem : ∀ {tree node : Expr}, node ∈ tree.nodes → node.nodes ⊆ tree.nodes
  | .number .., _, within | .string _, _, within | .variable _, _, within =>
      List.mem_singleton.1 within ▸ List.Subset.refl _
  | .unary .., _, within | .logicPrefix .., _, within => nodes_subset_cons rfl nodes_subset_of_mem within
  | .binary .., _, within | .logic .., _, within | .cast .., _, within =>
      nodes_subset_cons rfl (nodes_subset_append nodes_subset_of_mem nodes_subset_of_mem) within
  | .call .., _, within => nodes_subset_cons rfl nodes_subset_allNodes within

/-- A node of several expressions has its own nodes among theirs. -/
theorem nodes_subset_allNodes : ∀ {trees : List Expr} {node : Expr}, node ∈ allNodes trees →
    node.nodes ⊆ allNodes trees
  | [], _, within => absurd within List.not_mem_nil
  | _ :: _, _, within => nodes_subset_append nodes_subset_of_mem nodes_subset_allNodes within

end

/-- The nodes of a proper expression are proper. -/
theorem Proper.of_mem_nodes {tree node : Expr} (proper : tree.Proper) (within : node ∈ tree.nodes) :
    node.Proper :=
  fun _ inner => proper _ (nodes_subset_of_mem within inner)

section Proper

variable {op : LogicOp} {tree left right value type : Expr}

/-- An expression is proper exactly if it is legal and so are the nodes of its parts. -/
theorem proper_iff_of_parts {parts : List Expr} (parted : tree.nodes = tree :: parts) :
    tree.Proper ↔ tree.Legal ∧ ∀ node ∈ parts, node.Legal := by
  unfold Proper
  rw [parted, List.forall_mem_cons]

/-- An expression without parts is proper exactly if it is legal. -/
theorem proper_iff_of_leaf (alone : tree.nodes = [tree]) : tree.Proper ↔ tree.Legal := by
  rw [proper_iff_of_parts alone]
  exact and_iff_left (List.forall_mem_nil _)

/-- A number is proper if its literal is a numeral with its value. -/
@[simp] theorem proper_number {literal : String} {word : Word} :
    (number literal word).Proper ↔ IsNumeral literal word := by
  refine (proper_iff_of_leaf rfl).trans (and_iff_left_of_imp fun numeral => ?_)
  exact Numeral.nonneg_of_value? numeral.denotes

/-- A string is proper if its text is the content of one. -/
@[simp] theorem proper_string {text : String} :
    (string text).Proper ↔ Lexeme.IsContent text.toList :=
  proper_iff_of_leaf rfl

/-- A variable is proper if its name is. -/
@[simp] theorem proper_variable {name : Name} : (Expr.variable name).Proper ↔ name.Proper :=
  proper_iff_of_leaf rfl

/-- A unary operator has a proper operand. -/
@[simp] theorem proper_unary {op : UnaryOp} : (unary op tree).Proper ↔ tree.Proper :=
  (proper_iff_of_parts rfl).trans (and_iff_right trivial)

/-- A binary operator has two proper operands. -/
@[simp] theorem proper_binary {op : BinaryOp} :
    (binary op left right).Proper ↔ left.Proper ∧ right.Proper :=
  (proper_iff_of_parts rfl).trans ((and_iff_right trivial).trans List.forall_mem_append)

/-- A cast has a proper value and a proper type. -/
@[simp] theorem proper_cast : (cast value type).Proper ↔ value.Proper ∧ type.Proper :=
  (proper_iff_of_parts rfl).trans ((and_iff_right trivial).trans List.forall_mem_append)

/-- A logic operator with two operands is not `not`, and the operands are proper. -/
@[simp] theorem proper_logic :
    (logic op left right).Proper ↔ op ≠ .not ∧ left.Proper ∧ right.Proper :=
  (proper_iff_of_parts rfl).trans (and_congr_right fun _ => List.forall_mem_append)

/-- A logic operator with one operand is `not`, and the operand is proper. -/
@[simp] theorem proper_logicPrefix : (logicPrefix op tree).Proper ↔ op = .not ∧ tree.Proper :=
  proper_iff_of_parts rfl

/-- A call has a proper name and proper arguments. -/
@[simp] theorem proper_call {callee : Name} {args : List Expr} :
    (call callee args).Proper ↔ callee.Proper ∧ ∀ arg ∈ args, arg.Proper :=
  (proper_iff_of_parts rfl).trans (and_congr_right fun _ => forall_mem_allNodes)

end Proper

end Expr

namespace Stmt

/-- The expressions that stand in a statement, those of the statements within it left out. -/
def exprs : Stmt → List Expr
  | .assign _ _ _ values | .ret values _ => values
  | .branch condition _ _ => [condition]
  | .expr value => [value]
  | .func .. | .block _ | .empty => []

mutual

/-- The statement and all statements within it. -/
def nodes : Stmt → List Stmt
  | .assign declares targets op values => [.assign declares targets op values]
  | .branch condition thenArm elseArm =>
      .branch condition thenArm elseArm :: (nodes thenArm ++ elseNodes elseArm)
  | .func name params returns body => .func name params returns body :: allNodes body
  | .ret values code => [.ret values code]
  | .block body => .block body :: allNodes body
  | .expr value => [.expr value]
  | .empty => [.empty]

/-- The nodes of an arm behind `else`, if there is one. -/
def elseNodes : Option Stmt → List Stmt
  | none => []
  | some arm => nodes arm

/-- The nodes of statements. -/
def allNodes : List Stmt → List Stmt
  | [] => []
  | first :: rest => nodes first ++ allNodes rest

end

/-- What is asked of one statement, those within it left out. -/
def Legal : Stmt → Prop
  | .assign declares targets op values =>
      targets ≠ [] ∧ values ≠ [] ∧ (declares → op = .set) ∧ ∀ name ∈ targets, name.Proper
  | .func name params returns body =>
      name.Proper ∧ (∀ name ∈ params ++ returns, name.Proper) ∧ ∀ stmt ∈ body, stmt.isEmpty = false
  | .ret values code => values ≠ [] ∧ ∀ literal ∈ code, ∃ value, IsNumeral literal value
  | .block body => ∀ stmt ∈ body, stmt.isEmpty = false
  | .branch .. | .expr _ | .empty => True

/-- The statement and all within it are legal, and so are their expressions. -/
def Proper (stmt : Stmt) : Prop :=
  ∀ node ∈ stmt.nodes, node.Legal ∧ ∀ tree ∈ node.exprs, tree.Proper

/-- The statements are proper, and none of them is empty. -/
def AllProper (body : List Stmt) : Prop :=
  ∀ stmt ∈ body, stmt.isEmpty = false ∧ stmt.Proper

/-- The nodes of several statements are those of each. -/
theorem mem_allNodes {body : List Stmt} {node : Stmt} :
    node ∈ allNodes body ↔ ∃ stmt ∈ body, node ∈ stmt.nodes := by
  induction body with
  | nil => simp [allNodes]
  | cons stmt rest ih => simp [allNodes, ih]

/-- Something holds of the nodes of several statements exactly if it does of those of each. -/
theorem forall_mem_allNodes {body : List Stmt} {property : Stmt → Prop} :
    (∀ node ∈ allNodes body, property node) ↔ ∀ stmt ∈ body, ∀ node ∈ stmt.nodes, property node := by
  simp only [mem_allNodes]
  exact ⟨fun holds stmt listed node within => holds node ⟨stmt, listed, within⟩,
    fun holds node ⟨stmt, listed, within⟩ => holds stmt listed node within⟩

/-- Statements are proper if none is empty and all that is in them is legal and proper. -/
theorem allProper_iff {body : List Stmt} : AllProper body ↔ (∀ stmt ∈ body, stmt.isEmpty = false) ∧
    ∀ node ∈ allNodes body, node.Legal ∧ ∀ tree ∈ node.exprs, tree.Proper := by
  rw [forall_mem_allNodes]
  exact forall₂_and

/-- Statements are proper if the first and the others are. -/
theorem allProper_cons {stmt : Stmt} {rest : List Stmt} :
    AllProper (stmt :: rest) ↔ (stmt.isEmpty = false ∧ stmt.Proper) ∧ AllProper rest :=
  List.forall_mem_cons

section Proper

variable {targets params returns : List Name} {values : List Expr} {test value : Expr}
  {body : List Stmt}

/-- A statement is proper if it is legal, its expressions are proper, and so is all that is in its
parts. -/
theorem proper_iff_of_parts {stmt : Stmt} {parts : List Stmt} (parted : stmt.nodes = stmt :: parts) :
    stmt.Proper ↔ (stmt.Legal ∧ ∀ tree ∈ stmt.exprs, tree.Proper) ∧
      ∀ node ∈ parts, node.Legal ∧ ∀ tree ∈ node.exprs, tree.Proper := by
  unfold Proper
  rw [parted, List.forall_mem_cons]

/-- A statement without parts is proper if it is legal and its expressions are proper. -/
theorem proper_iff_of_leaf {stmt : Stmt} (alone : stmt.nodes = [stmt]) :
    stmt.Proper ↔ stmt.Legal ∧ ∀ tree ∈ stmt.exprs, tree.Proper := by
  rw [proper_iff_of_parts alone]
  exact and_iff_left (List.forall_mem_nil _)

/-- A statement with a body in which no expressions stand but those of the body. -/
theorem proper_iff_of_body {stmt : Stmt} (parted : stmt.nodes = stmt :: allNodes body)
    (bare : stmt.exprs = []) : stmt.Proper ↔
      stmt.Legal ∧ ∀ node ∈ allNodes body, node.Legal ∧ ∀ tree ∈ node.exprs, tree.Proper := by
  rw [proper_iff_of_parts parted, bare]
  exact and_congr_left fun _ => and_iff_left (List.forall_mem_nil _)

/-- An assignment has targets and values, all of them proper, and a declaration sets them. -/
@[simp] theorem proper_assign {declares : Bool} {op : AssignOp} :
    (assign declares targets op values).Proper ↔
      (targets ≠ [] ∧ values ≠ [] ∧ (declares → op = .set) ∧ ∀ name ∈ targets, name.Proper) ∧
        ∀ tree ∈ values, tree.Proper :=
  proper_iff_of_leaf rfl

/-- A branch has a proper condition and proper arms. -/
@[simp] theorem proper_branch {thenArm : Stmt} {elseArm : Option Stmt} :
    (branch test thenArm elseArm).Proper ↔
      test.Proper ∧ thenArm.Proper ∧ ∀ arm ∈ elseArm, arm.Proper := by
  have condition : (∀ tree ∈ [test], tree.Proper) ↔ test.Proper := List.forall_mem_singleton
  have arms : (∀ node ∈ elseNodes elseArm, node.Legal ∧ ∀ tree ∈ node.exprs, tree.Proper) ↔
      ∀ arm ∈ elseArm, arm.Proper := by
    cases elseArm with
    | none => exact iff_of_true (List.forall_mem_nil _) nofun
    | some arm => exact ⟨fun proper _ same => Option.some.inj same ▸ proper, fun proper => proper arm rfl⟩
  refine (proper_iff_of_parts rfl).trans ?_
  rw [List.forall_mem_append, arms]
  exact and_congr ((and_iff_right trivial).trans condition) Iff.rfl

/-- A function has proper names and a proper body. -/
@[simp] theorem proper_func {name : Name} :
    (func name params returns body).Proper ↔
      name.Proper ∧ (∀ name ∈ params ++ returns, name.Proper) ∧ AllProper body := by
  rw [proper_iff_of_body rfl rfl, allProper_iff]
  exact and_assoc.trans (and_congr_right fun _ => and_assoc)

/-- A return has values, all of them proper, and an error code that is a numeral if there is one. -/
@[simp] theorem proper_ret {code : Option String} :
    (ret values code).Proper ↔
      (values ≠ [] ∧ ∀ literal ∈ code, ∃ value, IsNumeral literal value) ∧
        ∀ tree ∈ values, tree.Proper :=
  proper_iff_of_leaf rfl

/-- A block has proper statements. -/
@[simp] theorem proper_block : (block body).Proper ↔ AllProper body := by
  rw [proper_iff_of_body rfl rfl, allProper_iff]
  exact Iff.rfl

/-- An expression as a statement is proper if it is as an expression. -/
@[simp] theorem proper_expr : (expr value).Proper ↔ value.Proper := by
  have whole : (∀ tree ∈ [value], tree.Proper) ↔ value.Proper := List.forall_mem_singleton
  exact (proper_iff_of_leaf rfl).trans ((and_iff_right trivial).trans whole)

/-- The empty statement is proper. -/
@[simp] theorem proper_empty : empty.Proper :=
  (proper_iff_of_leaf rfl).2 ⟨trivial, List.forall_mem_nil _⟩

end Proper

end Stmt

namespace Program

/-- All statements of a program, those within others among them. -/
def nodes (program : Program) : List Stmt :=
  Stmt.allNodes program.body

/-- All expressions of a program, those within others among them. -/
def exprs (program : Program) : List Expr :=
  program.nodes.flatMap fun stmt => Expr.allNodes stmt.exprs

/-- All nodes of the program are legal, and no statement of its list is empty. -/
structure Proper (program : Program) : Prop where
  kept : ∀ stmt ∈ program.body, stmt.isEmpty = false
  stmts : ∀ stmt ∈ program.nodes, stmt.Legal
  exprs : ∀ tree ∈ program.exprs, tree.Legal

/-- The expressions of a proper program are proper. -/
theorem proper_of_mem_exprs {program : Program} (proper : Stmt.AllProper program.body) {tree : Expr}
    (within : tree ∈ program.exprs) : tree.Proper := by
  obtain ⟨stmt, present, within⟩ := List.mem_flatMap.1 within
  obtain ⟨whole, stands, within⟩ := Expr.mem_allNodes.1 within
  exact (((Stmt.allProper_iff.1 proper).2 stmt present).2 whole stands).of_mem_nodes within

/-- A program is proper if its statements are. -/
theorem proper_of_allProper {program : Program} (proper : Stmt.AllProper program.body) :
    program.Proper := by
  obtain ⟨kept, nodes⟩ := Stmt.allProper_iff.1 proper
  refine ⟨kept, fun stmt within => (nodes stmt within).1, fun tree within => ?_⟩
  exact proper_of_mem_exprs proper within tree tree.mem_nodes_self

end Program

end ScriptLang
