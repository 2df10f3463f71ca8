import KirbyLang.CompilerState

/-!
# The bytecode compiler

`compiler.c` from `compileCall` on: how each node of the tree is compiled. What C does with a node
depends on where the node stands (as an expression, as a statement, as the callee of a call, as a
part of a string join, as a method or a field), so a node becomes a `NodeCompiler`, which says all
of these.
-/

namespace KirbyLang

/-- What the code of `compiler.c` does with a node. -/
structure NodeCompiler where
  line : ℤ
  /-- `compileExpr` -/
  asExpr : CompileM Unit
  /-- `compileStmt` -/
  asStmt : CompileM Unit
  /-- `compileBranchValue` -/
  asBranchValue : CompileM Unit := asExpr
  /-- for a `NODE_GET`: how its object is compiled, and its name -/
  get? : Option (CompileM Unit × Token) := none
  /-- `isStringConcatOperation` -/
  isStringConcatOperation : Bool := false
  /-- `collectStringConcatOperands`, each with its line -/
  stringConcatOperands : List (ℤ × CompileM Unit) := [(line, asExpr)]
  /-- a method in an `impl` block -/
  asMethod : CompileM Unit := pure ()
  /-- a field in a struct declaration -/
  asField : CompileM Unit := pure ()

def compileExprs (nodes : List NodeCompiler) : CompileM Unit := nodes.forM NodeCompiler.asExpr

def compileStmts (nodes : List NodeCompiler) : CompileM Unit := nodes.forM NodeCompiler.asStmt

/-- An expression that may be missing, and is `nil` then. -/
def compileOrNil : Option NodeCompiler → CompileM Unit
  | some node => node.asExpr
  | none => emitOp .nil

/-! ### Statements -/

/-- `compileStmt` around the code of one node kind. -/
def compileStmtWith (line : ℤ) (body : CompileM Unit) : CompileM Unit := do
  let heightBefore ← currentStackHeight
  let localsBefore := (← get).current.locals.length
  setLine line
  body
  countEmittedCode
  let c := (← get).current
  checkStackHeight
    (!c.isReachable ||
      c.stackHeight - heightBefore == (c.locals.length : ℤ) - (localsBefore : ℤ)) line

/-- The statements that leave through a jump or a return. -/
def keepStackHeight (body : CompileM Unit) : CompileM Unit := do
  let height ← currentStackHeight
  body
  resetStackHeight height

/-- A node that has only an expression form: as a statement its value is dropped. -/
def NodeCompiler.ofExpr (line : ℤ) (body : CompileM Unit) : NodeCompiler where
  line := line
  asExpr := do setLine line; body
  asStmt := compileStmtWith line do
    setLine line
    body
    emitOp .pop

/-- A node that has only a statement form. -/
def NodeCompiler.ofStmt (line : ℤ) (body : CompileM Unit) : NodeCompiler where
  line := line
  asExpr := do
    setLine line
    compilerErrorAtNode line "Internal error: not a valid expression node."
  asStmt := compileStmtWith line body

/-- A statement that may be the branch of an `if` used as a value. -/
def NodeCompiler.ofBranchStmt (line : ℤ) (body : CompileM Unit) : NodeCompiler :=
  { NodeCompiler.ofStmt line body with
    asBranchValue := do
      compileStmtWith line body
      emitOp .nil }

/-! ### Calls and strings -/

def compileCall (callee : NodeCompiler) (args : List NodeCompiler) (argUsesDisplay : Bool)
    (emitDisplayToString : CompileM Unit) : CompileM Unit :=
  match callee.get? with
  | some (object, name) => do
    object
    let name ← identifierConstant name
    compileExprs args
    emitBytes OpCode.invoke.toByte name
    emitByte (lowByte args.length)
  | none => do
    callee.asExpr
    match args with
    | [] => pure ()
    | arg :: rest => do
      arg.asExpr
      if argUsesDisplay then emitDisplayToString
      compileExprs rest
    emitBytes OpCode.call.toByte (lowByte args.length)

def emitGetNative (name : String) : CompileM Unit := do
  emitBytes OpCode.getGlobal.toByte (← stringConstant (ascii name) none)

def emitNativeStrConcatStart : CompileM Unit := emitGetNative "@strConcat"

def emitNativeStrConcatEnd (count : ℕ) (line : ℤ) : CompileM Unit := do
  setLine line
  emitBytes OpCode.list.toByte (lowByte count)
  emitBytes OpCode.call.toByte 1

def compileNativeCall (name : String) (arg : CompileM Unit) : CompileM Unit := do
  emitGetNative name
  arg
  emitBytes OpCode.call.toByte 1

def emitDisplayToString : CompileM Unit := do
  emitBytes OpCode.invoke.toByte (← identifierConstant (tokenFromCString "toString"))
  emitByte 0

def compileToString (expr : NodeCompiler) : StringConversion → CompileM Unit
  | .undefined =>
    compilerErrorAtNode expr.line
      "Internal error: no string conversion was chosen for this placeholder."
  | .string => expr.asExpr
  | .number => compileNativeCall "@numberToString" expr.asExpr
  | .boolean => compileNativeCall "@boolToString" expr.asExpr
  | .display => do
    expr.asExpr
    emitDisplayToString

def compileInterpString (line : ℤ) (parts : List (StringConversion × NodeCompiler)) :
    CompileM Unit :=
  if parts.length > UINT8_MAX then
    compilerErrorAtNode line "Too many parts in interpolated string."
  else match parts with
    | [(conversion, expr)] => compileToString expr conversion
    | parts => do
      emitNativeStrConcatStart
      parts.forM fun part => compileToString part.2 part.1
      emitNativeStrConcatEnd parts.length line

/-- `compileStringConcatChain`, for a chain of three or more strings that fit a list. -/
def compileStringConcatChain (operands : List (ℤ × CompileM Unit)) (line : ℤ) :
    CompileM Unit := do
  setLine ((operands.head?.map Prod.fst).getD line)
  emitNativeStrConcatStart
  operands.forM Prod.snd
  emitNativeStrConcatEnd operands.length line

/-! ### Expressions -/

def compileLiteral : LiteralNode → CompileM Unit
  | .nil | .unit => emitOp .nil
  | .boolean value => emitOp (if value then .true_ else .false_)
  | .number value => emitNumberConstant value.kind value.payload
  | .string chars => emitStringConstant chars

def emitUnaryOp (op : Token) : CompileM Unit :=
  match op.type with
  | .bang => emitOp .not_
  | .minus => emitOp .negate
  | _ => pure ()

def emitBinaryOp (op : Token) : CompileM Unit :=
  match op.type with
  | .bangEqual => emitBytes OpCode.equal.toByte OpCode.not_.toByte
  | .greater => emitOp .greater
  | .greaterEqual => emitBytes OpCode.less.toByte OpCode.not_.toByte
  | .less => emitOp .less
  | .lessEqual => emitBytes OpCode.greater.toByte OpCode.not_.toByte
  | .equalEqual => emitOp .equal
  | .plus => emitOp .add
  | .minus => emitOp .subtract
  | .star => emitOp .multiply
  | .slash => emitOp .divide
  | .modulo => emitOp .modulo
  | _ => pure ()

def compileAssign (name : Token) (value : CompileM Unit) : CompileM Unit := do
  if name.text.head? = some '@'.toUInt8 then
    compilerErrorAtToken name "'@' is a reserved character"
  let ref ← resolveVariable name
  if !ref.isMutable then
    compilerErrorAtToken name "Cannot assign to immutable binding"
  value
  emitBytes ref.setOp.toByte ref.arg

/-- `and` and `??`: the right operand takes the place of the left one, or is jumped over. -/
def compileSkippingRight (instruction : OpCode) (left right : CompileM Unit) : CompileM Unit := do
  left
  let endJump ← emitJump instruction
  emitOp .pop
  right
  patchJump endJump

def compileOr (left right : CompileM Unit) : CompileM Unit := do
  left
  let elseJump ← emitJump .jumpIfFalse
  let endJump ← emitJump .jump
  patchJump elseJump
  emitOp .pop
  right
  patchJump endJump

/-- An `if` of either form, with what is compiled for its branches. -/
def compileIf (condition thenBranch elseBranch : CompileM Unit) : CompileM Unit := do
  condition
  let thenJump ← emitJump .jumpIfFalse
  emitOp .pop
  thenBranch
  let elseJump ← emitJump .jump
  patchJump thenJump
  emitOp .pop
  elseBranch
  patchJump elseJump

/-- Is there a receiver in scope for `self` to refer to? -/
def selfInScope (s : Compiler) : Bool :=
  (s.current :: s.enclosing).any fun c => c.type == .method

def compileSelf (keyword : Token) : CompileM Unit := do
  let s ← get
  if !selfInScope s then
    if s.current.type = .staticMethod then
      compilerErrorAtToken keyword <|
        "Can't use 'self' in a static method. Add 'self' as the " ++
        "first parameter to make it an instance method."
    else
      compilerErrorAtToken keyword "Can't use 'self' outside of an instance method."
    emitOp .nil
  else
    emitGet (← resolveVariable keyword)

def compileGet (object : CompileM Unit) (name : Token) : CompileM Unit := do
  object
  emitBytes OpCode.getProperty.toByte (← identifierConstant name)

def compileSet (object : CompileM Unit) (name : Token) (value : CompileM Unit) :
    CompileM Unit := do
  object
  let name ← identifierConstant name
  value
  emitBytes OpCode.setProperty.toByte name

def compileStructInit (name : Token) (fields : List (Token × NodeCompiler)) (endLine : ℤ) :
    CompileM Unit := do
  emitGet (← resolveVariable name)
  fields.forM fun field => do
    setLine field.1.line
    emitBytes OpCode.constant.toByte (← identifierConstant field.1)
    field.2.asExpr
  setLine endLine
  emitBytes OpCode.structInit.toByte (lowByte fields.length)

def compileArray (line : ℤ) (items : List NodeCompiler) (isFixedSize : Bool) : CompileM Unit := do
  if items.length > UINT8_MAX then
    compilerErrorAtNode line "Too many elements in array literal."
  compileExprs items
  emitBytes (if isFixedSize then OpCode.array else OpCode.list).toByte (lowByte items.length)

/-- A block used as an expression, with what is compiled for its statements and its value. -/
def compileBlockExpr (contents : CompileM Unit) (endLine : ℤ) : CompileM Unit := do
  beginScope
  contents
  setLine endLine
  compileBlockExprClose

/-- A block used as a statement. -/
def compileBlockStmt (contents : CompileM Unit) (endLine : ℤ) : CompileM Unit := do
  beginScope
  contents
  setLine endLine
  endScope

/-! ### Declarations -/

def compileVarDecl (decl : VarDeclInfo) (initializer : CompileM Unit) : CompileM Unit := do
  let global ← parseVariableFromToken decl.name decl.isMutable
  initializer
  setLine decl.declEndLine
  defineVariable global

def compileBlockContents (stmts : List NodeCompiler) (value : Option NodeCompiler)
    (returnsValue : Bool) : CompileM Unit := do
  compileStmts stmts
  match value with
  | some value => do
    value.asExpr
    if returnsValue then emitValueReturn else emitOp .pop
  | none => pure ()

def declareParam (param : Token) : CompileM Unit := do
  declareVariable param true
  markInitialized
  -- The argument is already on the stack when the call starts.
  resetStackHeight ((← currentStackHeight) + 1)

/-- What a function returns: the value of its expression body, or what its block leaves. -/
def compileFunctionBody (stmts : List NodeCompiler) (value exprBody : Option NodeCompiler) :
    CompileM Unit :=
  match exprBody with
  | some exprBody => do
    exprBody.asExpr
    emitValueReturn
  | none => compileBlockContents stmts value true

def compileFunction (fn : FunctionInfo) (type : FunctionType) (body : CompileM Unit) :
    CompileM Unit := do
  initCompiler type (if fn.isLambda then none else some fn.name)
  modifyCurrentFn fun f => { f with isPublic := fn.isPublic }
  beginScope
  modifyCurrentFn fun f => { f with arity := fn.params.length }
  if fn.params.length > 255 then
    compilerErrorAtToken fn.name "Can't have more than 255 parameters."
  fn.params.forM declareParam
  body
  setLine fn.bodyEndLine
  let (compiledIndex, upvalues) ← endCompiler
  emitBytes OpCode.closure.toByte (← makeConstant (.function compiledIndex) none)
  upvalues.forM fun u => do
    emitByte (if u.isLocal then 1 else 0)
    emitByte u.index

def compileFunctionDeclStmt (fn : FunctionInfo) (body : CompileM Unit) : CompileM Unit := do
  let global ← parseVariableFromToken fn.name false
  -- The function can call itself through its own local slot.
  markInitialized
  compileFunction fn .function body
  defineVariable global

def compileMethod (fn : FunctionInfo) (body : CompileM Unit) : CompileM Unit := do
  let constant ← identifierConstant fn.name
  compileFunction fn (if fn.hasSelf then .method else .staticMethod) body
  emitBytes OpCode.method.toByte constant

def compileField (decl : VarDeclInfo) (initializer : CompileM Unit) : CompileM Unit := do
  setLine decl.name.line
  let constant ← identifierConstant decl.name
  initializer
  setLine decl.declEndLine
  emitBytes OpCode.field.toByte constant
  emitByte (if decl.isPublic then 1 else 0)
  emitByte (if decl.isMutable then 1 else 0)

def declareStruct (name : Token) : CompileM Unit := do
  let nameConstant ← identifierConstant name
  if (← get).current.scopeDepth = 0 then
    checkImmutableRedeclaration name
    addImmutableBinding name
  declareVariable name false
  emitBytes OpCode.struct_.toByte nameConstant
  defineVariable nameConstant

def compileStructDecl (name : Token) (fields : List NodeCompiler) (endLine : ℤ) :
    CompileM Unit := do
  declareStruct name
  emitGet (← resolveVariable name)
  fields.forM NodeCompiler.asField
  setLine endLine
  emitOp .pop

/-- The methods of an `impl` block, where `Self` stands for `structName`. -/
def withImplTarget (structName : Token) (methods : CompileM Unit) : CompileM Unit := do
  let previousImplTargetName := (← get).implTargetName
  modify fun s => { s with implTargetName := some structName }
  methods
  modify fun s => { s with implTargetName := previousImplTargetName }

def compileImplDecl (impl : ImplInfo) (methods : List NodeCompiler) : CompileM Unit := do
  setLine impl.targetName.line
  let structName := impl.resolvedTarget.getD impl.targetName
  emitGet (← resolveVariable structName)
  withImplTarget structName (methods.forM NodeCompiler.asMethod)
  setLine impl.endLine
  emitOp .pop

/-! ### Control flow -/

def compileReturn (line : ℤ) (value : CompileM Unit) : CompileM Unit := do
  if (← get).current.type = .script then
    compilerErrorAtNode line "Can't return from top-level code."
  value
  emitValueReturn

def compileBreak (line : ℤ) : CompileM Unit := do
  match (← get).currentLoop with
  | [] => compilerErrorAtNode line "Can't use 'break' outside of a loop."
  | loop :: enclosing =>
    if loop.breakJumps.length = UINT8_COUNT then
      compilerErrorAtNode line "Too many breaks in one loop."
    else
      emitPopsToDepth loop.scopeDepth
      let jump ← emitJump .jump
      modify fun s =>
        { s with currentLoop := { loop with breakJumps := loop.breakJumps ++ [jump] } :: enclosing }

def compileContinue (line : ℤ) : CompileM Unit := do
  match (← get).currentLoop with
  | [] => compilerErrorAtNode line "Can't use 'continue' outside of a loop."
  | loop :: _ =>
    emitPopsToDepth loop.continueDepth
    emitLoop loop.continueTarget

def beginLoop (loop : LoopCompiler) : CompileM Unit :=
  modify fun s => { s with currentLoop := loop :: s.currentLoop }

/-- Patches every `break` in this loop to jump here, then pops the loop. -/
def endLoop : CompileM Unit := do
  match (← get).currentLoop with
  | [] => pure ()
  | loop :: enclosing => do
    loop.breakJumps.forM patchJump
    modify fun s => { s with currentLoop := enclosing }

def compileWhile (condition body : CompileM Unit) : CompileM Unit := do
  let loopStart ← codeCount
  condition
  let exitJump ← emitJump .jumpIfFalse
  emitOp .pop
  let scopeDepth := (← get).current.scopeDepth
  beginLoop
    { scopeDepth := scopeDepth, continueTarget := loopStart, continueDepth := scopeDepth }
  body
  emitLoop loopStart
  patchJump exitJump
  emitOp .pop
  endLoop

/-- The increment of a `for` stands before the body, which it is jumped over to. Returns where
the body goes on. -/
def compileIncrement (loopStart : ℕ) (increment : CompileM Unit) : CompileM ℕ := do
  let bodyJump ← emitJump .jump
  let incrementStart ← codeCount
  increment
  emitOp .pop
  emitLoop loopStart
  patchJump bodyJump
  return incrementStart

def compileFor (init : Option (CompileM Unit)) (condition : CompileM Unit)
    (increment : Option (CompileM Unit)) (body : CompileM Unit) : CompileM Unit := do
  let outerDepth := (← get).current.scopeDepth
  match init with
  | some init => do
    beginScope
    init
  | none => pure ()
  let loopStart ← codeCount
  condition
  let exitJump ← emitJump .jumpIfFalse
  emitOp .pop
  let loopStart ← match increment with
    | some increment => compileIncrement loopStart increment
    | none => pure loopStart
  let scopeDepth := (← get).current.scopeDepth
  beginLoop { scopeDepth := outerDepth, continueTarget := loopStart, continueDepth := scopeDepth }
  body
  emitLoop loopStart
  patchJump exitJump
  emitOp .pop
  if init.isSome then endScope
  endLoop

/-! ### Nodes -/

mutual

def compileNode : AstNode → NodeCompiler
  | .literal line literal => .ofExpr line (compileLiteral literal)
  | .unary line op operand =>
    let operand := compileNode operand
    .ofExpr line do
      operand.asExpr
      emitUnaryOp op
  | .binary line op left right isStringConcat =>
    let left := compileNode left
    let right := compileNode right
    let operands := left.stringConcatOperands ++ right.stringConcatOperands
    let node := NodeCompiler.ofExpr line <|
      if isStringConcat ∧ 3 ≤ operands.length ∧ operands.length ≤ UINT8_MAX then
        compileStringConcatChain operands line
      else do
        left.asExpr
        right.asExpr
        emitBinaryOp op
    { node with
      isStringConcatOperation := isStringConcat
      stringConcatOperands := if isStringConcat then operands else [(line, node.asExpr)] }
  | .grouping line inner =>
    let inner := compileNode inner
    let node := NodeCompiler.ofExpr line inner.asExpr
    { node with
      isStringConcatOperation := inner.isStringConcatOperation
      stringConcatOperands :=
        if inner.isStringConcatOperation then inner.stringConcatOperands
        else [(line, node.asExpr)] }
  | .cast line expr _ _ target =>
    let expr := compileNode expr
    .ofExpr line do
      expr.asExpr
      emitOp .cast
      emitByte target.toByte
  | .variable_ line name => .ofExpr line do emitGet (← resolveVariable name)
  | .assign line name value => .ofExpr line (compileAssign name (compileNode value).asExpr)
  | .and_ line left right =>
    .ofExpr line
      (compileSkippingRight .jumpIfFalse (compileNode left).asExpr (compileNode right).asExpr)
  | .or_ line left right => .ofExpr line (compileOr (compileNode left).asExpr (compileNode right).asExpr)
  | .nullish line left right =>
    .ofExpr line
      (compileSkippingRight .jumpIfNotNil (compileNode left).asExpr (compileNode right).asExpr)
  | .call line callee _ args argUsesDisplay =>
    .ofExpr line
      (compileCall (compileNode callee) (compileAll args) argUsesDisplay emitDisplayToString)
  | .get line object name =>
    let object := (compileNode object).asExpr
    { NodeCompiler.ofExpr line (compileGet object name) with get? := some (object, name) }
  | .set line object name value =>
    .ofExpr line (compileSet (compileNode object).asExpr name (compileNode value).asExpr)
  | .self_ line keyword => .ofExpr line (compileSelf keyword)
  | .indexGet line object index _ =>
    let object := compileNode object
    let index := compileNode index
    .ofExpr line do
      object.asExpr
      index.asExpr
      emitOp .getIndex
  | .indexSet line object index value _ =>
    let object := compileNode object
    let index := compileNode index
    let value := compileNode value
    .ofExpr line do
      object.asExpr
      index.asExpr
      value.asExpr
      emitOp .setIndex
  | .exprStmt line expr =>
    let expr := compileNode expr
    .ofStmt line do
      expr.asExpr
      emitOp .pop
  | .varDecl line decl initializer =>
    let initializer := compileOption initializer
    { NodeCompiler.ofStmt line (compileVarDecl decl do
        if initializer.isNone then setLine decl.name.line
        compileOrNil initializer) with
      asField := compileField decl (compileOrNil initializer) }
  | .block line stmts value endLine =>
    let stmts := compileAll stmts
    let value := compileOption value
    { NodeCompiler.ofExpr line (compileBlockExpr (do
          compileStmts stmts
          if value.isNone then setLine endLine
          compileOrNil value) endLine) with
      asStmt := compileStmtWith line
        (compileBlockStmt (compileBlockContents stmts value false) endLine) }
  | .if_ line condition thenBranch elseBranch =>
    let condition := compileNode condition
    let thenBranch := compileNode thenBranch
    let elseBranch := compileOption elseBranch
    { NodeCompiler.ofExpr line
        (compileIf condition.asExpr thenBranch.asBranchValue
          (match elseBranch with
          | some elseBranch => elseBranch.asBranchValue
          | none => emitOp .nil)) with
      asStmt := compileStmtWith line
        (compileIf condition.asExpr thenBranch.asStmt
          (match elseBranch with
          | some elseBranch => elseBranch.asStmt
          | none => pure ())) }
  | .while_ line condition body =>
    .ofBranchStmt line (compileWhile (compileNode condition).asExpr (compileNode body).asStmt)
  | .for_ line init condition increment body =>
    .ofBranchStmt line
      (compileFor ((compileOption init).map NodeCompiler.asStmt) (compileNode condition).asExpr
        ((compileOption increment).map NodeCompiler.asExpr) (compileNode body).asStmt)
  | .return_ line value =>
    .ofBranchStmt line (keepStackHeight (compileReturn line (compileOrNil (compileOption value))))
  | .break_ line _ => .ofBranchStmt line (keepStackHeight (compileBreak line))
  | .continue_ line _ => .ofBranchStmt line (keepStackHeight (compileContinue line))
  | .function line fn stmts value exprBody =>
    let body := compileFunctionBody (compileAll stmts) (compileOption value) (compileOption exprBody)
    { NodeCompiler.ofExpr line (compileFunction fn .function body) with
      asStmt := compileStmtWith line (compileFunctionDeclStmt fn body)
      asMethod := compileMethod fn body }
  | .struct_ line name _ fields endLine =>
    .ofStmt line (compileStructDecl name (compileAll fields) endLine)
  | .structInit line name fieldNames values endLine =>
    .ofExpr line (compileStructInit name (fieldNames.zip (compileAll values)) endLine)
  | .impl line impl methods => .ofStmt line (compileImplDecl impl (compileAll methods))
  | .trait_ line _ _ => .ofStmt line (pure ())
  | .typeAlias line _ _ _ => .ofStmt line (pure ())
  | .array line items isFixedSize => .ofExpr line (compileArray line (compileAll items) isFixedSize)
  | .interpString line conversions exprs =>
    .ofExpr line (compileInterpString line (conversions.zip (compileAll exprs)))

def compileAll : List AstNode → List NodeCompiler
  | [] => []
  | node :: nodes => compileNode node :: compileAll nodes

def compileOption : Option AstNode → Option NodeCompiler
  | none => none
  | some node => some (compileNode node)

end

/-- What stays from one unit to the next. -/
structure CompilerSession where
  lambdaCount : ℕ := 0
  currentLine : ℤ := 0
  immutableBindings : StringSet := {}
  deriving DecidableEq, Repr

/-- The state when the script's compiler has been initialized. -/
def startCompiler (session : CompilerSession) : Compiler where
  current := newFnCompiler 0 .script []
  compilingUnit := (cuAddFunction cuInit).2
  lambdaCount := session.lambdaCount
  currentLine := session.currentLine
  implTargetName := none
  immutableBindings := session.immutableBindings

def compileProgram (program : List AstNode) (endLine : ℤ) : CompileM Unit := do
  (compileOrder program).forM fun node => (compileNode node).asStmt
  setLine endLine
  discard endCompiler

/-- The state after a program is compiled. -/
def compileRun (session : CompilerSession) (program : List AstNode) (endLine : ℤ) : Compiler :=
  ((compileProgram program endLine).run (startCompiler session)).2

/-- The unit, unless there was an error, and what the next unit starts from. -/
def compile (session : CompilerSession) (program : List AstNode) (endLine : ℤ) :
    Option CompiledUnit × CompilerSession :=
  let s := compileRun session program endLine
  (if s.hadError then none else some s.compilingUnit,
    { lambdaCount := s.lambdaCount
      currentLine := s.currentLine
      immutableBindings := s.immutableBindings })

end KirbyLang
