import KirbyLang.Ast

/-!
# Definite assignment analysis

`definite_assignment.c`. A `DaaSet` holds the names that wait for a value: a declaration without an
initializer adds its name, an assignment removes one occurrence of it, and a read of a name in the
set is reported.
-/

namespace KirbyLang

abbrev DaaSet := List Token

def daaSetAdd (daa : DaaSet) (name : Token) : DaaSet := daa ++ [name]

def daaSetContains (daa : DaaSet) (name : Token) : Bool := daa.any (tokensEqual · name)

/-- The last name takes the place of the first occurrence of `name`. -/
def daaSetRemove (daa : DaaSet) (name : Token) : DaaSet :=
  match daa.findIdx? (tokensEqual · name) with
  | none => daa
  | some i => (daa.set i (daa.getLastD name)).dropLast

/-- Adds every name in `daaFrom` not already present in `daaInto`. -/
def daaSetUnionInto (daaInto daaFrom : DaaSet) : DaaSet :=
  daaFrom.foldl (fun into name => if daaSetContains into name then into else daaSetAdd into name)
    daaInto

/-- The set a walk works on, and the reports so far. -/
structure DaaState where
  daa : DaaSet := []
  errors : List (Token × Bytes) := []
  deriving DecidableEq, Repr

abbrev DaaM := StateM DaaState

def setDaa (daa : DaaSet) : DaaM Unit := modify fun s => { s with daa }

/-- The text of the one error of the analysis. -/
def notAssignedMessage (name : Token) : Bytes :=
  ascii "'" ++ name.text ++ ascii "' might not be assigned yet."

def checkRead (name : Token) : DaaM Unit :=
  modify fun s =>
    if daaSetContains s.daa name then
      { s with errors := s.errors ++ [(name, notAssignedMessage name)] }
    else s

/-- How a node is walked: `daaCheckAssignmentExpr` and `daaCheckAssignmentStmt`, which says
whether the statement unconditionally exits. -/
structure DaaCheck where
  asExpr : DaaM Unit
  asStmt : DaaM Bool

/-- A node whose statement form is its expression form. -/
def DaaCheck.ofExpr (asExpr : DaaM Unit) : DaaCheck where
  asExpr := asExpr
  asStmt := do asExpr; return false

/-- A node whose expression form is its statement form. -/
def DaaCheck.ofStmt (asStmt : DaaM Bool) : DaaCheck where
  asExpr := discard asStmt
  asStmt := asStmt

/-- A statement that is not walked where an expression is expected. -/
def DaaCheck.stmtOnly (asStmt : DaaM Bool) : DaaCheck where
  asExpr := pure ()
  asStmt := asStmt

/-- The expressions of a list, one after the other. -/
def daaCheckExprs (checks : List DaaCheck) : DaaM Unit := checks.forM DaaCheck.asExpr

def daaCheckOptionExpr (check : Option DaaCheck) : DaaM Unit := daaCheckExprs check.toList

/-- A missing else branch or init clause does not exit. -/
def daaCheckOptionStmt : Option DaaCheck → DaaM Bool
  | some check => check.asStmt
  | none => return false

/-- The statements of a block up to the first that exits. -/
def daaCheckStmts : List DaaCheck → DaaM Bool
  | [] => return false
  | check :: checks => do
    if ← check.asStmt then return true
    else daaCheckStmts checks

def daaCheckAssignmentBlock (stmts : List DaaCheck) (value : Option DaaCheck) : DaaM Bool := do
  if ← daaCheckStmts stmts then return true
  else do
    daaCheckOptionExpr value
    return false

/-- Walk with a clone of the set. -/
def onClone (check : DaaM Unit) : DaaM Unit := do
  let s ← get
  check
  setDaa s.daa

def daaCheckIf (condition thenBranch : DaaCheck) (elseBranch : Option DaaCheck) : DaaM Bool := do
  condition.asExpr
  let start ← get
  let thenEscapes ← thenBranch.asStmt
  let thenEnd ← get
  setDaa start.daa
  let elseEscapes ← daaCheckOptionStmt elseBranch
  let elseEnd ← get
  if thenEscapes && elseEscapes then do
    setDaa start.daa
    return true
  else do
    if thenEscapes then setDaa elseEnd.daa
    else if elseEscapes then setDaa thenEnd.daa
    else setDaa (daaSetUnionInto (daaSetUnionInto [] thenEnd.daa) elseEnd.daa)
    return false

mutual

/-- The two walks of a node. -/
def daaCheck : AstNode → DaaCheck
  | .variable_ _ name => .ofExpr (checkRead name)
  | .assign _ name value =>
    let value := daaCheck value
    .ofExpr do
      value.asExpr
      modify fun s => { s with daa := daaSetRemove s.daa name }
  | .unary _ _ a | .grouping _ a | .get _ a _ => .ofExpr (daaCheckExprs [daaCheck a])
  | .binary _ _ a b _ | .and_ _ a b | .or_ _ a b | .nullish _ a b | .set _ a _ b
  | .indexGet _ a b _ => .ofExpr (daaCheckExprs [daaCheck a, daaCheck b])
  | .indexSet _ a b c _ => .ofExpr (daaCheckExprs [daaCheck a, daaCheck b, daaCheck c])
  | .call _ callee _ args _ => .ofExpr (daaCheckExprs (daaCheck callee :: daaCheckAll args))
  | .structInit _ _ _ items _ | .array _ items _ | .interpString _ _ items =>
    .ofExpr (daaCheckExprs (daaCheckAll items))
  | .if_ _ condition thenBranch elseBranch =>
    .ofStmt (daaCheckIf (daaCheck condition) (daaCheck thenBranch) (daaCheckOption elseBranch))
  | .block _ stmts value _ =>
    .ofStmt (daaCheckAssignmentBlock (daaCheckAll stmts) (daaCheckOption value))
  | .function .. | .literal .. | .self_ .. => .ofExpr (pure ())
  -- The walk has no case for a cast, so it never looks at the operand.
  | .cast .. => .ofExpr (pure ())
  | .exprStmt _ expr =>
    let expr := daaCheck expr
    .stmtOnly do
      expr.asExpr
      return false
  | .varDecl _ decl initializer =>
    match daaCheckOption initializer with
    | some initializer => .stmtOnly do
      initializer.asExpr
      return false
    | none => .stmtOnly do
      modify fun s => { s with daa := daaSetAdd s.daa decl.name }
      return false
  | .while_ _ condition body =>
    let condition := daaCheck condition
    let body := daaCheck body
    .stmtOnly do
      condition.asExpr
      onClone (discard body.asStmt)
      return false
  | .for_ _ init condition increment body =>
    let init := daaCheckOption init
    let condition := daaCheck condition
    let increment := daaCheckOption increment
    let body := daaCheck body
    .stmtOnly do
      discard (daaCheckOptionStmt init)
      condition.asExpr
      onClone do
        discard body.asStmt
        daaCheckOptionExpr increment
      return false
  | .return_ _ value =>
    let value := daaCheckOption value
    .stmtOnly do
      daaCheckOptionExpr value
      return true
  | .break_ .. | .continue_ .. => .stmtOnly (return true)
  | .struct_ .. | .impl .. | .trait_ .. | .typeAlias .. => .ofExpr (pure ())

def daaCheckAll : List AstNode → List DaaCheck
  | [] => []
  | node :: nodes => daaCheck node :: daaCheckAll nodes

def daaCheckOption : Option AstNode → Option DaaCheck
  | none => none
  | some node => some (daaCheck node)

end

@[simp] theorem daaCheckAll_eq (nodes : List AstNode) : daaCheckAll nodes = nodes.map daaCheck := by
  induction nodes with
  | nil => rfl
  | cons node nodes ih =>
    rw [List.map_cons, ← ih]
    rfl

@[simp] theorem daaCheckOption_eq (node : Option AstNode) :
    daaCheckOption node = node.map daaCheck := by
  cases node <;> rfl

/-! What the walks of the nodes with lists and missing parts are. -/

theorem daaCheck_call (line : ℤ) (callee : AstNode) (paren : Token) (args : List AstNode)
    (argUsesDisplay : Bool) : daaCheck (.call line callee paren args argUsesDisplay) =
      .ofExpr (daaCheckExprs ((callee :: args).map daaCheck)) := by
  rw [List.map_cons, ← daaCheckAll_eq]
  rfl

theorem daaCheck_structInit (line : ℤ) (name : Token) (fieldNames : List Token)
    (items : List AstNode) (endLine : ℤ) :
    daaCheck (.structInit line name fieldNames items endLine) =
      .ofExpr (daaCheckExprs (items.map daaCheck)) := by
  rw [← daaCheckAll_eq]
  rfl

theorem daaCheck_array (line : ℤ) (items : List AstNode) (isFixedSize : Bool) :
    daaCheck (.array line items isFixedSize) = .ofExpr (daaCheckExprs (items.map daaCheck)) := by
  rw [← daaCheckAll_eq]
  rfl

theorem daaCheck_interpString (line : ℤ) (conversions : List StringConversion)
    (items : List AstNode) : daaCheck (.interpString line conversions items) =
      .ofExpr (daaCheckExprs (items.map daaCheck)) := by
  rw [← daaCheckAll_eq]
  rfl

theorem daaCheck_if (line : ℤ) (condition thenBranch : AstNode) (elseBranch : Option AstNode) :
    daaCheck (.if_ line condition thenBranch elseBranch) =
      .ofStmt (daaCheckIf (daaCheck condition) (daaCheck thenBranch)
        (elseBranch.map daaCheck)) := by
  rw [← daaCheckOption_eq]
  rfl

theorem daaCheck_block (line : ℤ) (stmts : List AstNode) (value : Option AstNode) (endLine : ℤ) :
    daaCheck (.block line stmts value endLine) =
      .ofStmt (daaCheckAssignmentBlock (stmts.map daaCheck) (value.map daaCheck)) := by
  rw [← daaCheckOption_eq, ← daaCheckAll_eq]
  rfl

theorem daaCheck_for (line : ℤ) (init increment : Option AstNode) (condition body : AstNode) :
    daaCheck (.for_ line init condition increment body) = .stmtOnly do
      discard (daaCheckOptionStmt (init.map daaCheck))
      (daaCheck condition).asExpr
      onClone do
        discard (daaCheck body).asStmt
        daaCheckOptionExpr (increment.map daaCheck)
      return false := by
  rw [← daaCheckOption_eq, ← daaCheckOption_eq]
  rfl

theorem daaCheck_return (line : ℤ) (value : Option AstNode) :
    daaCheck (.return_ line value) = .stmtOnly do
      daaCheckOptionExpr (value.map daaCheck)
      return true := by
  rw [← daaCheckOption_eq]
  rfl

/-- A walk from `daa` that reports nothing. -/
def Silent {α : Type} (check : DaaM α) (daa : DaaSet) : Prop :=
  (check.run { daa }).2.errors = []

instance {α : Type} (check : DaaM α) (daa : DaaSet) : Decidable (Silent check daa) := by
  unfold Silent; infer_instance

/-- `daaCheckFn`: an expression body is not walked. -/
def daaCheckFn (stmts : List AstNode) (value exprBody : Option AstNode) : DaaM Unit :=
  match exprBody with
  | some _ => pure ()
  | none => discard (daaCheckAssignmentBlock (stmts.map daaCheck) (value.map daaCheck))

/-- The definite assignment part of `typchkCheckProgram` at the top level, where the answer that a
statement exits is not used. -/
def daaCheckProgram (program : List AstNode) : DaaM Unit :=
  program.forM fun node => discard (daaCheck node).asStmt

/-- A node is somewhere in a tree. -/
inductive AstNode.In (node : AstNode) : AstNode → Prop
  | here : AstNode.In node node
  | under {parent child : AstNode} (hchild : child ∈ parent.children) (h : AstNode.In node child) :
    AstNode.In node parent

/-- The checker's definite assignment analysis reports nothing. `typchkCheckFunctionBody` runs it
on every declared function and method; `typchkCheckOrInferLambda` does not run it on a lambda. -/
structure DaaAccepts (program : List AstNode) : Prop where
  topLevel : Silent (daaCheckProgram program) []
  functions : ∀ top ∈ program, ∀ line fn stmts value exprBody,
    (AstNode.function line fn stmts value exprBody).In top → fn.isLambda = false →
      Silent (daaCheckFn stmts value exprBody) []

end KirbyLang
