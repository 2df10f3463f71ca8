import KirbyLang.CompilerFunctions

/-!
# Compiled code is well shaped

Every node of the tree keeps the code well shaped, however it is compiled, so all functions of a
unit that is compiled without an error are well shaped.

* one lemma for each function of `compiler.c` that compiles a kind of node;
* `NodeCompiler.Shapes`, `compileNode_shapes`: all ways to compile a node;
* `compile_shapes`: units.
-/

namespace KirbyLang

open Boundaries StickyErrors

variable {s s' s₀ : Compiler} {closing : ℕ} {pending : Pending} {nesting : Nesting}

/-! ### Nodes -/

/-- However a node is compiled, the code stays well shaped. -/
structure NodeCompiler.Shapes (node : NodeCompiler) : Prop where
  asExpr : KeepsShape 0 node.asExpr
  asStmt : KeepsShape 0 node.asStmt
  asBranchValue : KeepsShape 0 node.asBranchValue
  get : ∀ object name, node.get? = some (object, name) → KeepsShape 0 object
  operands : ∀ operand ∈ node.stringConcatOperands, KeepsShape 0 operand.2
  asMethod : KeepsShape 0 node.asMethod
  asField : KeepsShape 0 node.asField

variable {node : NodeCompiler} {nodes : List NodeCompiler} {body left right : CompileM Unit}

theorem keepsShape_compileExprs (h : ∀ node ∈ nodes, node.Shapes) :
    KeepsShape 0 (compileExprs nodes) := keepsShape_forM fun node hnode => (h node hnode).asExpr

theorem keepsShape_compileStmts (h : ∀ node ∈ nodes, node.Shapes) :
    KeepsShape 0 (compileStmts nodes) := keepsShape_forM fun node hnode => (h node hnode).asStmt

theorem keepsShape_compileOrNil {node : Option NodeCompiler} (h : ∀ n ∈ node, n.Shapes) :
    KeepsShape 0 (compileOrNil node) := by
  cases node with
  | some node => exact (h node rfl).asExpr
  | none => exact keepsShape_nil

theorem keepsShape_compileStmtWith (line : ℤ) (hbody : KeepsShape 0 body) :
    KeepsShape 0 (compileStmtWith line body) :=
  keepsShape_currentStackHeight.bind fun _ => keepsShape_read fun _ =>
    (keepsShape_setLine line).bind fun _ => hbody.bind fun _ => keepsShape_countEmittedCode.bind
      fun _ => keepsShape_read fun _ => keepsShape_checkStackHeight _ _

theorem shapes_ofExpr (line : ℤ) (hbody : KeepsShape 0 body) :
    (NodeCompiler.ofExpr line body).Shapes := by
  have hline : KeepsShape 0 (do setLine line; body) := (keepsShape_setLine line).bind fun _ => hbody
  refine ⟨hline, keepsShape_compileStmtWith line ((keepsShape_setLine line).bind fun _ =>
    hbody.bind fun _ => keepsShape_pop), hline, nofun, fun operand hoperand => ?_,
    keepsShape_pure (), keepsShape_pure ()⟩
  obtain rfl := List.mem_singleton.mp hoperand
  exact hline

theorem shapes_ofStmt (line : ℤ) (hbody : KeepsShape 0 body) :
    (NodeCompiler.ofStmt line body).Shapes := by
  have hline : KeepsShape 0 (NodeCompiler.ofStmt line body).asExpr :=
    (keepsShape_setLine line).bind fun _ => keepsShape_compilerErrorAtNode _ _
  refine ⟨hline, keepsShape_compileStmtWith line hbody, hline, nofun, fun operand hoperand => ?_,
    keepsShape_pure (), keepsShape_pure ()⟩
  obtain rfl := List.mem_singleton.mp hoperand
  exact hline

theorem shapes_ofBranchStmt (line : ℤ) (hbody : KeepsShape 0 body) :
    (NodeCompiler.ofBranchStmt line body).Shapes :=
  { shapes_ofStmt line hbody with
    asBranchValue := (keepsShape_compileStmtWith line hbody).bind fun _ => keepsShape_nil }

/-! ### Calls and strings -/

section Naming

variable {op : OpCode} {use : ConstantUse} {index : UInt8} (huse : constantUse op = some use)
  (hne : op ≠ .closure)

include huse hne in
theorem triple_emitConstant_byte (hlength : (opInfo op).operandBytes = 2) (a : UInt8)
    (s₀ : Compiler) (pending : Pending) (nesting : Nesting) :
    Triple Compiler.Erred (fun s => s₀.Good closing pending nesting s ∧ s.HasConstant use index) (do
      emitBytes op.toByte index
      emitByte a) fun _ => s₀.Good closing pending nesting :=
  (triple_startBytes _ _).bind fun _ => triple_emitByte_started fun _ h =>
    h.1.emittedConstant huse hne hlength.symm h.2

include huse hne in
theorem triple_emitConstant_bytes (hlength : (opInfo op).operandBytes = 3) (a b : UInt8)
    (s₀ : Compiler) (pending : Pending) (nesting : Nesting) :
    Triple Compiler.Erred (fun s => s₀.Good closing pending nesting s ∧ s.HasConstant use index) (do
      emitBytes op.toByte index
      emitByte a
      emitByte b) fun _ => s₀.Good closing pending nesting :=
  (triple_startBytes _ _).bind fun _ => (triple_start _ a).bind fun _ =>
    triple_emitByte_started fun _ h => h.1.emittedConstant huse hne hlength.symm h.2

end Naming

/-- A name becomes a constant, and more code is compiled before an instruction uses it. -/
theorem KeepsShape.afterName (hbody : KeepsShape closing body) (name : Token)
    {rest : UInt8 → CompileM Unit}
    (hrest : ∀ index s₀ pending nesting, Triple Compiler.Erred
      (fun s => Compiler.Good s₀ closing pending nesting s ∧ s.HasConstant .string index)
      (rest index) fun _ => s₀.Good closing pending nesting) :
    KeepsShape closing (do
      let index ← identifierConstant name
      body
      rest index) := fun s₀ pending nesting =>
  (triple_identifierConstant name s₀ pending nesting).bind fun index =>
    (hbody.carrying (stable_hasConstant .string index) s₀ pending nesting).bind fun _ =>
      hrest index s₀ pending nesting

theorem keepsShape_emitCall (count : UInt8) :
    KeepsShape closing (emitBytes OpCode.call.toByte count) :=
  keepsShape_emitOperand (by decide) rfl count

theorem keepsShape_compileCall {callee : NodeCompiler} {args : List NodeCompiler}
    {argUsesDisplay : Bool} {display : CompileM Unit} (hcallee : callee.Shapes)
    (hargs : ∀ arg ∈ args, arg.Shapes) (hdisplay : KeepsShape 0 display) :
    KeepsShape 0 (compileCall callee args argUsesDisplay display) := by
  unfold compileCall
  split
  · next object name hget =>
    exact (hcallee.get object name hget).bind fun _ =>
      (keepsShape_compileExprs hargs).afterName name fun _ =>
        triple_emitConstant_byte rfl (by decide) rfl _
  · refine hcallee.asExpr.bind fun _ => ?_
    cases args with
    | nil => exact keepsShape_emitCall _
    | cons arg rest =>
      have hrest : KeepsShape 0 (compileExprs rest) :=
        keepsShape_compileExprs fun node hnode => hargs node (List.mem_cons_of_mem _ hnode)
      refine (hargs arg List.mem_cons_self).asExpr.bind fun _ => ?_
      refine .ite (fun _ => hdisplay.bind fun _ => ?_) fun _ => ?_ <;>
        exact hrest.bind fun _ => keepsShape_emitCall _

theorem keepsShape_emitGetNative (name : String) : KeepsShape closing (emitGetNative name) :=
  fun s₀ pending nesting => (triple_stringConstant (ascii name) none s₀ pending nesting).bind
    fun _ => triple_emitConstant rfl (by decide) rfl s₀ pending nesting

theorem keepsShape_emitNativeStrConcatEnd (count : ℕ) (line : ℤ) :
    KeepsShape closing (emitNativeStrConcatEnd count line) :=
  (keepsShape_setLine line).bind fun _ => (keepsShape_emitOperand (by decide) rfl _).bind
    fun _ => keepsShape_emitCall 1

theorem keepsShape_compileNativeCall (name : String) {arg : CompileM Unit}
    (harg : KeepsShape closing arg) : KeepsShape closing (compileNativeCall name arg) :=
  (keepsShape_emitGetNative name).bind fun _ => harg.bind fun _ => keepsShape_emitCall 1

theorem keepsShape_emitDisplayToString : KeepsShape closing emitDisplayToString :=
  fun s₀ pending nesting => (triple_identifierConstant _ s₀ pending nesting).bind fun _ =>
    triple_emitConstant_byte rfl (by decide) rfl 0 s₀ pending nesting

theorem keepsShape_compileToString (hnode : node.Shapes) (conversion : StringConversion) :
    KeepsShape 0 (compileToString node conversion) := by
  cases conversion with
  | undefined => exact keepsShape_compilerErrorAtNode _ _
  | string => exact hnode.asExpr
  | number => exact keepsShape_compileNativeCall _ hnode.asExpr
  | boolean => exact keepsShape_compileNativeCall _ hnode.asExpr
  | display => exact hnode.asExpr.bind fun _ => keepsShape_emitDisplayToString

theorem keepsShape_compileInterpString (line : ℤ) {parts : List (StringConversion × NodeCompiler)}
    (hparts : ∀ part ∈ parts, part.2.Shapes) : KeepsShape 0 (compileInterpString line parts) := by
  unfold compileInterpString
  refine .ite (fun _ => keepsShape_compilerErrorAtNode _ _) fun _ => ?_
  split
  · next conversion expr _ =>
    exact keepsShape_compileToString (hparts _ List.mem_cons_self) conversion
  · exact (keepsShape_emitGetNative _).bind fun _ =>
      (keepsShape_forM fun part hpart => keepsShape_compileToString (hparts part hpart) part.1).bind
        fun _ => keepsShape_emitNativeStrConcatEnd _ _

theorem keepsShape_compileStringConcatChain {operands : List (ℤ × CompileM Unit)} (line : ℤ)
    (h : ∀ operand ∈ operands, KeepsShape 0 operand.2) :
    KeepsShape 0 (compileStringConcatChain operands line) :=
  (keepsShape_setLine _).bind fun _ => (keepsShape_emitGetNative _).bind fun _ =>
    (keepsShape_forM h).bind fun _ => keepsShape_emitNativeStrConcatEnd _ _

/-! ### Expressions -/

theorem keepsShape_compileLiteral (literal : LiteralNode) :
    KeepsShape closing (compileLiteral literal) := by
  cases literal with
  | nil => exact keepsShape_nil
  | unit => exact keepsShape_nil
  | boolean value => cases value <;> exact keepsShape_emitOp (by decide) rfl
  | number value => exact keepsShape_emitNumberConstant _ _
  | string chars => exact keepsShape_emitStringConstant chars

theorem keepsShape_emitUnaryOp (op : Token) : KeepsShape closing (emitUnaryOp op) := by
  unfold emitUnaryOp
  split
  · exact keepsShape_emitOp (by decide) rfl
  · exact keepsShape_emitOp (by decide) rfl
  · exact keepsShape_pure ()

/-- An operator and its negation. -/
theorem keepsShape_emitNegated {op : OpCode} (hfree : op.IsFree)
    (hlength : (opInfo op).operandBytes = 0) :
    KeepsShape closing (emitBytes op.toByte OpCode.not_.toByte) := by
  have hnot : KeepsShape closing (emitOp .not_) := keepsShape_emitOp (by decide) rfl
  exact (keepsShape_emitOp hfree hlength).bind fun _ => hnot

theorem keepsShape_emitBinaryOp (op : Token) : KeepsShape closing (emitBinaryOp op) := by
  unfold emitBinaryOp
  split
  all_goals first
    | exact keepsShape_emitOp (by decide) rfl
    | exact keepsShape_emitNegated (by decide) rfl
    | exact keepsShape_pure ()

theorem keepsShape_compileAssign (name : Token) {value : CompileM Unit}
    (hvalue : KeepsShape closing value) : KeepsShape closing (compileAssign name value) := by
  have hassign : ∀ ref, KeepsShape closing value → ∀ s₀ pending nesting, Triple Compiler.Erred
      (fun s => Compiler.Good s₀ closing pending nesting s ∧ s.Resolves ref) (do
        value
        emitBytes ref.setOp.toByte ref.arg) fun _ => s₀.Good closing pending nesting :=
    fun ref h s₀ pending nesting =>
      (h.carrying (stable_resolves ref) s₀ pending nesting).bind fun _ =>
        triple_emitVariable (.inr rfl) s₀ pending nesting
  have hrest : KeepsShape closing (do
      let ref ← resolveVariable name
      if !ref.isMutable then
        compilerErrorAtToken name "Cannot assign to immutable binding"
      value
      emitBytes ref.setOp.toByte ref.arg) := by
    intro s₀ pending nesting
    refine (triple_resolveVariable name s₀ pending nesting).bind fun ref => ?_
    refine .ite (fun _ => ?_) fun _ => hassign ref hvalue s₀ pending nesting
    exact (triple_compilerErrorAtToken _ _).bind fun _ => hassign ref hvalue s₀ pending nesting
  exact .ite (fun _ => (keepsShape_compilerErrorAtToken _ _).bind fun _ => hrest) fun _ => hrest

theorem keepsShape_compileSelf (keyword : Token) : KeepsShape closing (compileSelf keyword) :=
  keepsShape_read fun _ => .ite
    (fun _ => .ite (fun _ => (keepsShape_compilerErrorAtToken _ _).bind fun _ => keepsShape_nil)
      fun _ => (keepsShape_compilerErrorAtToken _ _).bind fun _ => keepsShape_nil)
    fun _ => keepsShape_getVariable keyword

theorem keepsShape_compileGet {object : CompileM Unit} (hobject : KeepsShape closing object)
    (name : Token) : KeepsShape closing (compileGet object name) :=
  hobject.bind fun _ s₀ pending nesting =>
    (triple_identifierConstant name s₀ pending nesting).bind fun _ =>
      triple_emitConstant rfl (by decide) rfl s₀ pending nesting

theorem keepsShape_compileSet {object value : CompileM Unit} (hobject : KeepsShape closing object)
    (name : Token) (hvalue : KeepsShape closing value) :
    KeepsShape closing (compileSet object name value) :=
  hobject.bind fun _ => hvalue.afterName name fun _ => triple_emitConstant rfl (by decide) rfl

theorem keepsShape_compileStructInit (name : Token) {fields : List (Token × NodeCompiler)}
    (endLine : ℤ) (hfields : ∀ field ∈ fields, field.2.Shapes) :
    KeepsShape 0 (compileStructInit name fields endLine) := by
  have hfield : ∀ field ∈ fields, KeepsShape 0 (do
      setLine field.1.line
      emitBytes OpCode.constant.toByte (← identifierConstant field.1)
      field.2.asExpr) := by
    refine fun field hfield => (keepsShape_setLine _).bind fun _ s₀ pending nesting => ?_
    have hname : Triple Compiler.Erred (s₀.Good 0 pending nesting) (identifierConstant field.1)
        fun index s => s₀.Good 0 pending nesting s ∧ s.HasConstant .value index :=
      (triple_identifierConstant field.1 s₀ pending nesting).weaken (fun _ h => h)
        fun _ _ h => ⟨h.1, h.2.value⟩
    refine hname.bind fun index => ?_
    exact (triple_emitConstant rfl (by decide) rfl s₀ pending nesting).bind fun _ =>
      (hfields field hfield).asExpr s₀ pending nesting
  intro s₀ pending nesting
  refine (triple_resolveVariable name s₀ pending nesting).bind fun ref =>
    (triple_emitVariable (.inl rfl) s₀ pending nesting).bind fun _ => ?_
  exact ((keepsShape_forM hfield).bind fun _ => (keepsShape_setLine endLine).bind fun _ =>
    keepsShape_emitOperand (by decide) rfl _) s₀ pending nesting

theorem keepsShape_compileArray (line : ℤ) {items : List NodeCompiler} (isFixedSize : Bool)
    (hitems : ∀ item ∈ items, item.Shapes) :
    KeepsShape 0 (compileArray line items isFixedSize) := by
  have hmake : KeepsShape 0 (emitBytes (if isFixedSize then OpCode.array else OpCode.list).toByte
      (lowByte items.length)) := by
    cases isFixedSize <;> exact keepsShape_emitOperand (by decide) rfl _
  have hrest := (keepsShape_compileExprs hitems).bind fun _ => hmake
  exact .ite (fun _ => (keepsShape_compilerErrorAtNode _ _).bind fun _ => hrest) fun _ => hrest

theorem keepsShape_compileBlockExpr {contents : CompileM Unit} (endLine : ℤ)
    (hcontents : KeepsShape closing contents) :
    KeepsShape closing (compileBlockExpr contents endLine) := fun s₀ pending nesting =>
  (triple_beginScope s₀ pending nesting).bind fun _ =>
    (hcontents s₀ pending nesting.inScope).bind fun _ =>
      (keepsShape_setLine endLine s₀ pending nesting.inScope).bind fun _ =>
        triple_compileBlockExprClose s₀ pending nesting

theorem keepsShape_compileBlockStmt {contents : CompileM Unit} (endLine : ℤ)
    (hcontents : KeepsShape closing contents) :
    KeepsShape closing (compileBlockStmt contents endLine) := fun s₀ pending nesting =>
  (triple_beginScope s₀ pending nesting).bind fun _ =>
    (hcontents s₀ pending nesting.inScope).bind fun _ =>
      (keepsShape_setLine endLine s₀ pending nesting.inScope).bind fun _ =>
        triple_endScope s₀ pending nesting

/-! ### Declarations -/

theorem keepsShape_emitReturn : KeepsShape closing emitValueReturn :=
  keepsShape_emitOp (by decide) rfl

theorem keepsShape_compileVarDecl (decl : VarDeclInfo) {initializer : CompileM Unit}
    (hinitializer : KeepsShape closing initializer) :
    KeepsShape closing (compileVarDecl decl initializer) := fun s₀ pending nesting =>
  (triple_parseVariableFromToken decl.name decl.isMutable s₀ pending nesting).bind fun global =>
    (hinitializer.carrying (stable_defines global) s₀ pending nesting).bind fun _ =>
      ((keepsShape_setLine decl.declEndLine).carrying (stable_defines global) s₀ pending
        nesting).bind fun _ => triple_defineVariable global s₀ pending nesting

theorem keepsShape_compileBlockContents {stmts : List NodeCompiler} {value : Option NodeCompiler}
    {returnsValue : Bool} (hstmts : ∀ stmt ∈ stmts, stmt.Shapes) (hvalue : ∀ n ∈ value, n.Shapes) :
    KeepsShape 0 (compileBlockContents stmts value returnsValue) := by
  refine (keepsShape_compileStmts hstmts).bind fun _ => ?_
  cases value with
  | none => exact keepsShape_pure ()
  | some value =>
    exact (hvalue value rfl).asExpr.bind fun _ =>
      .ite (fun _ => keepsShape_emitReturn) fun _ => keepsShape_pop

theorem keepsShape_compileFunctionBody {stmts : List NodeCompiler}
    {value exprBody : Option NodeCompiler} (hstmts : ∀ stmt ∈ stmts, stmt.Shapes)
    (hvalue : ∀ n ∈ value, n.Shapes) (hexpr : ∀ n ∈ exprBody, n.Shapes) :
    KeepsShape 0 (compileFunctionBody stmts value exprBody) := by
  cases exprBody with
  | none => exact keepsShape_compileBlockContents hstmts hvalue
  | some exprBody => exact (hexpr exprBody rfl).asExpr.bind fun _ => keepsShape_emitReturn

theorem keepsShape_compileFunctionDeclStmt (fn : FunctionInfo) (hbody : KeepsShape 0 body) :
    KeepsShape closing (compileFunctionDeclStmt fn body) := fun s₀ pending nesting =>
  (triple_parseVariableFromToken fn.name false s₀ pending nesting).bind fun global =>
    (keepsShape_markInitialized.carrying (stable_defines global) s₀ pending nesting).bind fun _ =>
      ((keepsShape_compileFunction fn .function hbody).carrying (stable_defines global) s₀ pending
        nesting).bind fun _ => triple_defineVariable global s₀ pending nesting

theorem keepsShape_compileMethod (fn : FunctionInfo) (hbody : KeepsShape 0 body) :
    KeepsShape closing (compileMethod fn body) :=
  (keepsShape_compileFunction fn _ hbody).afterName fn.name fun _ =>
    triple_emitConstant rfl (by decide) rfl

theorem keepsShape_compileField (decl : VarDeclInfo) {initializer : CompileM Unit}
    (hinitializer : KeepsShape closing initializer) :
    KeepsShape closing (compileField decl initializer) := by
  refine (keepsShape_setLine decl.name.line).bind fun _ s₀ pending nesting => ?_
  refine (triple_identifierConstant decl.name s₀ pending nesting).bind fun constant => ?_
  have hconstant := stable_hasConstant .string constant
  refine (hinitializer.carrying hconstant s₀ pending nesting).bind fun _ => ?_
  refine ((keepsShape_setLine decl.declEndLine).carrying hconstant s₀ pending nesting).bind
    fun _ => ?_
  exact triple_emitConstant_bytes rfl (by decide) rfl _ _ s₀ pending nesting

theorem keepsShape_declareStruct (name : Token) : KeepsShape closing (declareStruct name) := by
  intro s₀ pending nesting
  refine (triple_identifierConstant name s₀ pending nesting).bind fun constant =>
    triple_read fun s => ?_
  have hconstant := stable_hasConstant .string constant
  have hrest : Triple Compiler.Erred
      (fun s => s₀.Good closing pending nesting s ∧ s.HasConstant .string constant) (do
        declareVariable name false
        emitBytes OpCode.struct_.toByte constant
        defineVariable constant) fun _ => s₀.Good closing pending nesting := by
    refine ((keepsShape_declareVariable name false).carrying hconstant s₀ pending nesting).bind
      fun _ => ?_
    have hemit := @carrying closing Unit _ (fun _ pending => pending)
      (fun s => s.HasConstant .string constant)
      (@triple_emitConstant closing .struct_ .string constant rfl (by decide) rfl) _ hconstant s₀
      pending nesting
    refine (hemit.strengthen fun _ h => ⟨h.1, h.2, h.2⟩).bind fun _ => ?_
    exact (triple_defineVariable constant s₀ pending nesting).strengthen
      fun _ h => ⟨h.1, fun _ => h.2⟩
  have hbinding : KeepsShape closing (do
      checkImmutableRedeclaration name
      addImmutableBinding name) :=
    (keepsShape_checkImmutableRedeclaration name).bind fun _ => keepsShape_modify fun _ => rfl
  refine .ite (fun _ => ?_) fun _ => hrest
  exact (hbinding.carrying hconstant s₀ pending nesting).bind fun _ => hrest

theorem keepsShape_compileStructDecl (name : Token) {fields : List NodeCompiler} (endLine : ℤ)
    (hfields : ∀ field ∈ fields, field.Shapes) :
    KeepsShape 0 (compileStructDecl name fields endLine) :=
  (keepsShape_declareStruct name).bind fun _ => (keepsShape_getVariable name).bind fun _ =>
    (keepsShape_forM fun field hfield => (hfields field hfield).asField).bind fun _ =>
      (keepsShape_setLine endLine).bind fun _ => keepsShape_pop

theorem keepsShape_compileImplDecl (impl : ImplInfo) {methods : List NodeCompiler}
    (hmethods : ∀ method ∈ methods, method.Shapes) :
    KeepsShape 0 (compileImplDecl impl methods) := by
  have hmethod : KeepsShape 0 (methods.forM NodeCompiler.asMethod) :=
    keepsShape_forM fun method hmethod => (hmethods method hmethod).asMethod
  have htarget : ∀ target : Option Token, KeepsShape 0 (modify fun s : Compiler =>
      { s with implTargetName := target }) := fun _ => keepsShape_modify fun _ => rfl
  have himpl : ∀ name, KeepsShape 0 (withImplTarget name (methods.forM NodeCompiler.asMethod)) :=
    fun name => keepsShape_read fun _ => (htarget _).bind fun _ => hmethod.bind fun _ => htarget _
  exact (keepsShape_setLine _).bind fun _ => (keepsShape_getVariable _).bind fun _ =>
    (himpl _).bind fun _ => (keepsShape_setLine _).bind fun _ => keepsShape_pop

theorem keepsShape_compileReturn (line : ℤ) {value : CompileM Unit}
    (hvalue : KeepsShape closing value) : KeepsShape closing (compileReturn line value) := by
  have hrest := hvalue.bind fun _ => keepsShape_emitReturn
  exact keepsShape_read fun _ =>
    .ite (fun _ => (keepsShape_compilerErrorAtNode _ _).bind fun _ => hrest) fun _ => hrest

/-! ### All nodes -/

theorem compileAll_shapes {trees : List AstNode}
    (h : ∀ child ∈ trees, (compileNode child).Shapes) : ∀ node ∈ compileAll trees, node.Shapes := by
  induction trees with
  | nil => exact nofun
  | cons tree trees ih =>
    intro node hnode
    rcases List.mem_cons.mp hnode with rfl | hrest
    · exact h tree List.mem_cons_self
    · exact ih (fun child hchild => h child (List.mem_cons_of_mem _ hchild)) node hrest

theorem compileOption_shapes {tree : Option AstNode}
    (h : ∀ child ∈ tree.toList, (compileNode child).Shapes) :
    ∀ node ∈ compileOption tree, node.Shapes := by
  cases tree with
  | none => exact nofun
  | some tree =>
    rintro node ⟨⟩
    exact h tree List.mem_cons_self

/-- A binary operator, which may be a part of a string that is joined. -/
theorem shapes_binary (line : ℤ) (op : Token) {left right : NodeCompiler} (isStringConcat : Bool)
    (hleft : left.Shapes) (hright : right.Shapes) :
    KeepsShape 0 (if isStringConcat ∧
        3 ≤ (left.stringConcatOperands ++ right.stringConcatOperands).length ∧
        (left.stringConcatOperands ++ right.stringConcatOperands).length ≤ UINT8_MAX then
      compileStringConcatChain (left.stringConcatOperands ++ right.stringConcatOperands) line
    else do
      left.asExpr
      right.asExpr
      emitBinaryOp op) := by
  refine .ite (fun _ => keepsShape_compileStringConcatChain line fun operand hoperand => ?_)
    fun _ => hleft.asExpr.bind fun _ => hright.asExpr.bind fun _ => keepsShape_emitBinaryOp op
  rcases List.mem_append.mp hoperand with hmem | hmem
  · exact hleft.operands operand hmem
  · exact hright.operands operand hmem

/-- A node that is a part of a string that is joined. -/
theorem NodeCompiler.Shapes.withOperands (h : node.Shapes) {isStringConcat : Bool}
    {operands : List (ℤ × CompileM Unit)}
    (hoperands : ∀ operand ∈ operands, KeepsShape 0 operand.2) :
    NodeCompiler.Shapes { node with
      isStringConcatOperation := isStringConcat, stringConcatOperands := operands } :=
  { h with operands := hoperands }

theorem NodeCompiler.Shapes.withStmt (h : node.Shapes) {stmt : CompileM Unit}
    (hstmt : KeepsShape 0 stmt) : NodeCompiler.Shapes { node with asStmt := stmt } :=
  { h with asStmt := hstmt }

theorem NodeCompiler.Shapes.withGet (h : node.Shapes) {object : CompileM Unit} {name : Token}
    (hobject : KeepsShape 0 object) :
    NodeCompiler.Shapes { node with get? := some (object, name) } :=
  { h with
    get := by
      rintro _ _ ⟨⟩
      exact hobject }

theorem NodeCompiler.Shapes.withField (h : node.Shapes) {field : CompileM Unit}
    (hfield : KeepsShape 0 field) : NodeCompiler.Shapes { node with asField := field } :=
  { h with asField := hfield }

theorem NodeCompiler.Shapes.withMethod (h : node.Shapes) {method : CompileM Unit}
    (hmethod : KeepsShape 0 method) : NodeCompiler.Shapes { node with asMethod := method } :=
  { h with asMethod := hmethod }

theorem keepsShape_castTo {expr : CompileM Unit} (hexpr : KeepsShape closing expr)
    (target : NumberKind) : KeepsShape closing (do
      expr
      emitOp .cast
      emitByte target.toByte) := hexpr.bind fun _ => keepsShape_emitCast target

/-! ### The constructs with more than operands -/

section Constructs

variable {line endLine : ℤ} {left right inner condition body : AstNode} {stmts : List AstNode}
  {value initializer init increment elseBranch exprBody : Option AstNode}

theorem shapes_binaryNode {op : Token} {isStringConcat : Bool} (hleft : (compileNode left).Shapes)
    (hright : (compileNode right).Shapes) :
    (compileNode (.binary line op left right isStringConcat)).Shapes := by
  have hnode := shapes_ofExpr line (shapes_binary line op isStringConcat hleft hright)
  refine hnode.withOperands fun operand hoperand => ?_
  cases isStringConcat with
  | true =>
    rcases List.mem_append.mp hoperand with hmem | hmem
    · exact hleft.operands operand hmem
    · exact hright.operands operand hmem
  | false => exact hnode.operands operand hoperand

theorem shapes_groupingNode (hinner : (compileNode inner).Shapes) :
    (compileNode (.grouping line inner)).Shapes := by
  have hnode := shapes_ofExpr line hinner.asExpr
  refine hnode.withOperands fun operand hoperand => ?_
  split at hoperand
  · exact hinner.operands operand hoperand
  · exact hnode.operands operand hoperand

theorem shapes_varDeclNode {decl : VarDeclInfo}
    (hinitializer : ∀ node ∈ initializer.toList, (compileNode node).Shapes) :
    (compileNode (.varDecl line decl initializer)).Shapes := by
  have hvalue := keepsShape_compileOrNil (compileOption_shapes hinitializer)
  refine (shapes_ofStmt line (keepsShape_compileVarDecl decl ?_)).withField
    (keepsShape_compileField decl hvalue)
  exact .ite (fun _ => (keepsShape_setLine _).bind fun _ => hvalue) fun _ => hvalue

theorem shapes_blockNode (hstmts : ∀ node ∈ stmts, (compileNode node).Shapes)
    (hvalue : ∀ node ∈ value.toList, (compileNode node).Shapes) :
    (compileNode (.block line stmts value endLine)).Shapes := by
  have hcontents := compileAll_shapes hstmts
  have hlast := keepsShape_compileOrNil (compileOption_shapes hvalue)
  refine (shapes_ofExpr line (keepsShape_compileBlockExpr endLine ?_)).withStmt
    (keepsShape_compileStmtWith line (keepsShape_compileBlockStmt endLine
      (keepsShape_compileBlockContents hcontents (compileOption_shapes hvalue))))
  exact (keepsShape_compileStmts hcontents).bind fun _ =>
    .ite (fun _ => (keepsShape_setLine _).bind fun _ => hlast) fun _ => hlast

theorem shapes_ifNode (hcondition : (compileNode condition).Shapes)
    (hthen : (compileNode body).Shapes)
    (helse : ∀ node ∈ elseBranch.toList, (compileNode node).Shapes) :
    (compileNode (.if_ line condition body elseBranch)).Shapes := by
  cases elseBranch with
  | none =>
    exact (shapes_ofExpr line
      (keepsShape_compileIf hcondition.asExpr hthen.asBranchValue keepsShape_nil)).withStmt
        (keepsShape_compileStmtWith line
          (keepsShape_compileIf hcondition.asExpr hthen.asStmt (keepsShape_pure ())))
  | some elseBranch =>
    have helse := helse elseBranch List.mem_cons_self
    exact (shapes_ofExpr line
      (keepsShape_compileIf hcondition.asExpr hthen.asBranchValue helse.asBranchValue)).withStmt
        (keepsShape_compileStmtWith line
          (keepsShape_compileIf hcondition.asExpr hthen.asStmt helse.asStmt))

theorem shapes_forNode (hinit : ∀ node ∈ init.toList, (compileNode node).Shapes)
    (hcondition : (compileNode condition).Shapes)
    (hincrement : ∀ node ∈ increment.toList, (compileNode node).Shapes)
    (hbody : (compileNode body).Shapes) :
    (compileNode (.for_ line init condition increment body)).Shapes := by
  refine shapes_ofBranchStmt line (keepsShape_compileFor (fun p hp => ?_) hcondition.asExpr
    (fun p hp => ?_) hbody.asStmt)
  · obtain ⟨node, hnode, rfl⟩ := Option.map_eq_some_iff.mp hp
    exact (compileOption_shapes hinit node hnode).asStmt
  · obtain ⟨node, hnode, rfl⟩ := Option.map_eq_some_iff.mp hp
    exact (compileOption_shapes hincrement node hnode).asExpr

theorem shapes_functionNode {fn : FunctionInfo}
    (hchildren : ∀ node ∈ stmts ++ value.toList ++ exprBody.toList, (compileNode node).Shapes) :
    (compileNode (.function line fn stmts value exprBody)).Shapes := by
  have hbody := keepsShape_compileFunctionBody
    (@compileAll_shapes stmts fun node hnode => hchildren node (by simp [hnode]))
    (@compileOption_shapes value fun node hnode =>
      hchildren node (by simp [Option.mem_toList.mp hnode]))
    (@compileOption_shapes exprBody fun node hnode =>
      hchildren node (by simp [Option.mem_toList.mp hnode]))
  exact ((shapes_ofExpr line (keepsShape_compileFunction fn .function hbody)).withStmt
    (keepsShape_compileStmtWith line (keepsShape_compileFunctionDeclStmt fn hbody))).withMethod
      (keepsShape_compileMethod fn hbody)

end Constructs

theorem compileNode_shapes (tree : AstNode) : (compileNode tree).Shapes := by
  induction tree using AstNode.childInduction with
  | step tree ih =>
  cases tree with
  | literal line literal => exact shapes_ofExpr line (keepsShape_compileLiteral literal)
  | unary line op operand =>
    exact shapes_ofExpr line ((ih operand (by simp [AstNode.children])).asExpr.bind fun _ =>
      keepsShape_emitUnaryOp op)
  | binary line op left right isStringConcat =>
    exact shapes_binaryNode (ih left (by simp [AstNode.children]))
      (ih right (by simp [AstNode.children]))
  | grouping line inner => exact shapes_groupingNode (ih inner (by simp [AstNode.children]))
  | cast line expr type as_ target =>
    exact shapes_ofExpr line
      (keepsShape_castTo (ih expr (by simp [AstNode.children])).asExpr target)
  | variable_ line name => exact shapes_ofExpr line (keepsShape_getVariable name)
  | assign line name value =>
    exact shapes_ofExpr line
      (keepsShape_compileAssign name (ih value (by simp [AstNode.children])).asExpr)
  | and_ line left right =>
    exact shapes_ofExpr line (keepsShape_compileSkippingRight (.inr (.inl rfl))
      (ih left (by simp [AstNode.children])).asExpr (ih right (by simp [AstNode.children])).asExpr)
  | or_ line left right =>
    exact shapes_ofExpr line (keepsShape_compileOr (ih left (by simp [AstNode.children])).asExpr
      (ih right (by simp [AstNode.children])).asExpr)
  | nullish line left right =>
    exact shapes_ofExpr line (keepsShape_compileSkippingRight (.inr (.inr rfl))
      (ih left (by simp [AstNode.children])).asExpr (ih right (by simp [AstNode.children])).asExpr)
  | call line callee paren args argUsesDisplay =>
    exact shapes_ofExpr line (keepsShape_compileCall (ih callee List.mem_cons_self)
      (compileAll_shapes fun arg harg => ih arg (List.mem_cons_of_mem _ harg))
      keepsShape_emitDisplayToString)
  | get line object name =>
    have hobject := (ih object (by simp [AstNode.children])).asExpr
    exact (shapes_ofExpr line (keepsShape_compileGet hobject name)).withGet hobject
  | set line object name value =>
    exact shapes_ofExpr line (keepsShape_compileSet (ih object (by simp [AstNode.children])).asExpr
      name (ih value (by simp [AstNode.children])).asExpr)
  | self_ line keyword => exact shapes_ofExpr line (keepsShape_compileSelf keyword)
  | indexGet line object index bracket =>
    exact shapes_ofExpr line ((ih object (by simp [AstNode.children])).asExpr.bind fun _ =>
      (ih index (by simp [AstNode.children])).asExpr.bind fun _ =>
        keepsShape_emitOp (by decide) rfl)
  | indexSet line object index value bracket =>
    exact shapes_ofExpr line ((ih object (by simp [AstNode.children])).asExpr.bind fun _ =>
      (ih index (by simp [AstNode.children])).asExpr.bind fun _ =>
        (ih value (by simp [AstNode.children])).asExpr.bind fun _ =>
          keepsShape_emitOp (by decide) rfl)
  | exprStmt line expr =>
    exact shapes_ofStmt line ((ih expr (by simp [AstNode.children])).asExpr.bind fun _ =>
      keepsShape_pop)
  | varDecl line decl initializer => exact shapes_varDeclNode ih
  | block line stmts value endLine =>
    exact shapes_blockNode (fun node hnode => ih node (List.mem_append_left _ hnode))
      fun node hnode => ih node (List.mem_append_right _ hnode)
  | if_ line condition thenBranch elseBranch =>
    exact shapes_ifNode (ih condition (by simp [AstNode.children]))
      (ih thenBranch (by simp [AstNode.children]))
      fun node hnode => ih node (by simp [AstNode.children, Option.mem_toList.mp hnode])
  | while_ line condition body =>
    exact shapes_ofBranchStmt line
      (keepsShape_compileWhile (ih condition (by simp [AstNode.children])).asExpr
        (ih body (by simp [AstNode.children])).asStmt)
  | for_ line init condition increment body =>
    exact shapes_forNode (fun node hnode => ih node (by simp [AstNode.children, hnode]))
      (ih condition (by simp [AstNode.children]))
      (fun node hnode => ih node (by simp [AstNode.children, hnode]))
      (ih body (by simp [AstNode.children]))
  | return_ line value =>
    exact shapes_ofBranchStmt line (keepsShape_keepStackHeight (keepsShape_compileReturn line
      (keepsShape_compileOrNil (compileOption_shapes ih))))
  | break_ line token =>
    exact shapes_ofBranchStmt line (keepsShape_keepStackHeight (keepsShape_compileBreak line))
  | continue_ line token =>
    exact shapes_ofBranchStmt line (keepsShape_keepStackHeight (keepsShape_compileContinue line))
  | function line fn stmts value exprBody => exact shapes_functionNode ih
  | struct_ line name genericParams fields endLine =>
    exact shapes_ofStmt line (keepsShape_compileStructDecl name endLine (compileAll_shapes ih))
  | structInit line name fieldNames values endLine =>
    exact shapes_ofExpr line (keepsShape_compileStructInit name endLine fun field hfield =>
      compileAll_shapes ih field.2 (List.of_mem_zip hfield).2)
  | impl line impl methods =>
    exact shapes_ofStmt line (keepsShape_compileImplDecl impl (compileAll_shapes ih))
  | trait_ line info methods => exact shapes_ofStmt line (keepsShape_pure ())
  | array line items isFixedSize =>
    exact shapes_ofExpr line (keepsShape_compileArray line isFixedSize (compileAll_shapes ih))
  | typeAlias line name genericParams target => exact shapes_ofStmt line (keepsShape_pure ())
  | interpString line conversions exprs =>
    exact shapes_ofExpr line (keepsShape_compileInterpString line fun part hpart =>
      compileAll_shapes ih part.2 (List.of_mem_zip hpart).2)

/-! ### Units -/

/-- A unit in which the machine finds what its instructions name. -/
structure CompiledUnit.WellShaped (compiledUnit : CompiledUnit) : Prop where
  functions : ∀ i < compiledUnit.functions.length,
    FunctionOk compiledUnit (· < compiledUnit.functions.length) (cuGetFnByIndex compiledUnit i)
  script : 0 < compiledUnit.functions.length
  captured : (cuGetFnByIndex compiledUnit 0).upvalueCount = 0
  strings : compiledUnit.strings.Inside

theorem startCompiler_ok (session : CompilerSession) : (startCompiler session).Ok 0 {} := by
  have hzero : (0 : ℤ) ≤ 255 := by decide
  have hopen : ∀ x, ¬ (startCompiler session).IsOpen 0 {} x := by
    rintro x (hx | ⟨loop, hloop, -⟩)
    · cases hx
    · cases hloop
  refine ⟨shaped_empty rfl rfl rfl hopen, boundary_start, nofun, nofun, ⟨Int.le_refl 0, hzero⟩, rfl,
    List.nodup_singleton 0, fun i hi => ?_, fun i hi => ?_, nofun⟩
  · obtain rfl := List.mem_singleton.mp hi
    exact Nat.zero_lt_one
  · have hlt : i < 1 := hi.1
    exact absurd (Nat.lt_one_iff.mp hlt).symm (hi.2 _ List.mem_cons_self)

/-- The script is ended, and with it the unit. -/
theorem wellShaped_ended {session : CompilerSession} {inner : Nesting}
    (h : (startCompiler session).Good 0 {} inner s) (hloops : s.currentLoop = [])
    (hcomplete : s.Complete) : s.ended.compilingUnit.WellShaped := by
  have henclosing : s.enclosing = [] := List.forall₂_nil_left_iff.mp h.grows.outer
  have hall : s.FinishedAtEnd = (· < s.ended.compilingUnit.functions.length) := by
    funext i
    rw [Compiler.FinishedAtEnd, henclosing, ended_length]
    simp
  have hindex : s.current.fnIndex = 0 := h.grows.fnIndex
  have hknown := h.ok.known _ List.mem_cons_self
  refine ⟨fun i hi => ?_, ?_, ?_, h.ok.strings⟩
  · rw [← hall]
    refine h.ok.finished_ended (by rw [hloops]; rfl) hcomplete i ?_
    rw [hall]
    exact hi
  · rw [ended_length]
    exact Nat.lt_of_le_of_lt (Nat.zero_le _) hknown
  · have hnone := h.ok.upvalues
    rw [henclosing] at hnone
    have hself := ended_get_self hknown
    rw [hindex] at hself
    rw [hself]
    show ((s.current.upvalues.length : ℕ) : ℤ) = 0
    rw [show s.current.upvalues = [] from hnone]
    rfl

theorem triple_endScript (session : CompilerSession) :
    Triple Compiler.Erred ((startCompiler session).Good 0 {} {}) endCompiler fun _ s =>
      s.compilingUnit.WellShaped := by
  refine @triple_endCompiler {} (fun s => s = startCompiler session) id (fun _ => []) _ _ ?_ ?_
  · intro s h
    have hnone : s.currentLoop = [] := List.eq_nil_of_length_eq_zero h.grows.loopCount
    have hloop : s.current.enclosingLoop = [] := h.grows.enclosingLoop
    refine ⟨startCompiler session, rfl, ?_, hloop⟩
    have hsame : { s with currentLoop := s.current.enclosingLoop } = s := by
      rw [hloop, ← hnone]
    rw [hsame]
    exact h
  · rintro s ⟨_, rfl, h, hloops⟩ hcomplete
    exact wellShaped_ended h hloops hcomplete

/-- The code of a unit that is compiled without an error is well shaped. -/
theorem compile_wellShaped {session : CompilerSession} {program : List AstNode} {endLine : ℤ}
    {compiledUnit : CompiledUnit}
    (h : (compile session program endLine).1 = some compiledUnit) : compiledUnit.WellShaped := by
  have hstart : (startCompiler session).Good 0 {} {} (startCompiler session) :=
    (startCompiler_ok session).good
  have hnodes : KeepsShape 0 ((compileOrder program).forM fun node => (compileNode node).asStmt) :=
    keepsShape_forM fun node _ => (compileNode_shapes node).asStmt
  have hline : KeepsShape 0 (setLine endLine) := keepsShape_setLine endLine
  have hprogram : Triple Compiler.Erred ((startCompiler session).Good 0 {} {})
      (compileProgram program endLine) fun _ s => s.compilingUnit.WellShaped :=
    (hnodes _ {} {}).bind fun _ => (hline _ {} {}).bind fun _ =>
      (triple_endScript session).bind fun _ => triple_pure fun _ h => h
  have hresult := (hprogram (startCompiler session)).2 hstart
  by_cases herror : (compileRun session program endLine).hadError = true
  · have hnone : (compile session program endLine).1 = none := if_pos herror
    rw [hnone] at h
    cases h
  · have hsome : (compile session program endLine).1 =
        some (compileRun session program endLine).compilingUnit := if_neg herror
    rw [hsome] at h
    cases h
    exact hresult.resolve_left herror

end KirbyLang
