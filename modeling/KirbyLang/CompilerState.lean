import KirbyLang.Ast
import KirbyLang.OpCode

/-!
# The state of the bytecode compiler

`compiler.c` up to `endCompiler`: errors, the stack height, bytes and jumps, constants, variables
and scopes. The globals of C are the fields of `Compiler`, and the chain of `enclosing` compilers
is the list `enclosing`. A function under construction is kept in its `FnCompiler` until
`endCompiler` stores it in the unit; nothing reads its slot before.
-/

namespace KirbyLang

abbrev UINT8_MAX : ℕ := 255
abbrev UINT8_COUNT : ℕ := UINT8_MAX + 1
abbrev UINT16_MAX : ℕ := 65535

/-! ### State -/

/-- A local's depth from its declaration until its initializer finishes. -/
abbrev LOCAL_UNINITIALIZED : ℤ := -1

structure Local where
  name : Token
  depth : ℤ
  slot : ℤ
  isCaptured : Bool
  isMutable : Bool
  deriving DecidableEq, Repr

inductive FunctionType
  | function | method | staticMethod | script
  deriving DecidableEq, Repr

structure Upvalue where
  index : UInt8
  isLocal : Bool
  isMutable : Bool
  deriving DecidableEq, Repr

structure LoopCompiler where
  scopeDepth : ℕ
  breakJumps : List ℕ := []
  continueTarget : ℕ
  continueDepth : ℕ
  deriving DecidableEq, Repr

/-- The fields of a function compiler that count emitted code. `tracked` is not in the source: it
keeps the value `stackHeight` has for each instruction when the instruction is counted. -/
structure StackCount where
  stackHeight : ℤ := 1
  bytesCounted : ℕ := 0
  isReachable : Bool := true
  lastOpIsReturn : Bool := false
  tracked : List (ℕ × ℤ) := []
  deriving DecidableEq, Repr

/-- A function compiler. `locals` has the newest first. -/
structure FnCompiler extends StackCount where
  fnIndex : ℕ
  fn : CompiledFn
  type : FunctionType
  locals : List Local
  upvalues : List Upvalue := []
  scopeDepth : ℕ := 0
  enclosingLoop : List LoopCompiler
  deriving DecidableEq, Repr

/-- Where in the source an error is. -/
inductive ErrorPlace
  | line
  | atEnd
  | at (lexeme : Bytes)
  deriving DecidableEq, Repr

structure CompilerError where
  line : ℤ
  place : ErrorPlace
  message : Bytes
  deriving DecidableEq, Repr

/-- `currentLoop` is the chain of the loops around the code being compiled, innermost first.
`hadError` is that `errors` is not empty. `implTargetName` is `none` while
`hasCurrentImplTargetName` is false. `heights` is not in the source: it keeps what each finished
function has in `tracked`. -/
structure Compiler where
  current : FnCompiler
  enclosing : List FnCompiler := []
  currentLoop : List LoopCompiler := []
  compilingUnit : CompiledUnit
  errors : List CompilerError := []
  lambdaCount : ℕ
  currentLine : ℤ
  implTargetName : Option Token
  immutableBindings : StringSet
  heights : List (ℕ × List (ℕ × ℤ)) := []
  deriving DecidableEq, Repr

abbrev CompileM := StateM Compiler

def Compiler.hadError (s : Compiler) : Bool := !s.errors.isEmpty

def modifyCurrent (f : FnCompiler → FnCompiler) : CompileM Unit :=
  modify fun s => { s with current := f s.current }

def modifyCurrentFn (f : CompiledFn → CompiledFn) : CompileM Unit :=
  modifyCurrent fun c => { c with fn := f c.fn }

def setLine (line : ℤ) : CompileM Unit := modify fun s => { s with currentLine := line }

/-! ### Errors -/

def compilerErrorAt (line : ℤ) (place : ErrorPlace) (message : String) : CompileM Unit :=
  modify fun s => { s with errors := s.errors ++ [⟨line, place, ascii message⟩] }

def compilerErrorAtToken (token : Token) (message : String) : CompileM Unit :=
  compilerErrorAt token.line
    (match token.type with
    | .eof => .atEnd
    | .error => .line
    | _ => .at token.text)
    message

def compilerErrorAtNode (line : ℤ) (message : String) : CompileM Unit :=
  compilerErrorAt line .line message

def compilerError (message : String) : CompileM Unit := do
  compilerErrorAt (← get).currentLine .line message

def checkStackHeight (ok : Bool) (line : ℤ) : CompileM Unit := do
  if !ok && !(← get).hadError then
    compilerErrorAt line .line "Internal compiler error: stack height mismatch."

/-! ### Stack height -/

def codeAt (fn : CompiledFn) (i : ℕ) : UInt8 := ((fn.code[i]?).map CodeByte.byte).getD 0

/-- The length of the instruction at `offset`. A closure has two more bytes for each variable its
function captures. -/
def instructionLength (unit : CompiledUnit) (fn : CompiledFn) (offset : ℕ) (op : OpCode) : ℕ :=
  1 + (opInfo op).operandBytes +
    if op = .closure then
      match fn.constants[(codeAt fn (offset + 1)).toNat]? with
      | some (.function functionIndex) =>
        2 * (cuGetFnByIndex unit functionIndex.toNat).upvalueCount.toNat
      | _ => 0
    else 0

/-- The count of the instruction at `offset`, 0 if it has none. -/
def instructionCount (fn : CompiledFn) (offset : ℕ) (op : OpCode) : ℕ :=
  match (opInfo op).countOperand with
  | some i => (codeAt fn (offset + 1 + i)).toNat
  | none => 0

def applyStackEffect (op : OpCode) (count : ℕ) (c : FnCompiler) : FnCompiler :=
  { c with
    stackHeight := c.stackHeight + op.effect count
    isReachable := c.isReachable && !(op == .jump || op == .loop || op == .return_) }

/-- The body of the loop of `countEmittedCode`, for an instruction that has an entry. -/
def countInstruction (unit : CompiledUnit) (op : OpCode) (c : FnCompiler) : FnCompiler :=
  let count := instructionCount c.fn c.bytesCounted op
  let tracked := c.tracked ++ [(c.bytesCounted, c.stackHeight)]
  let length := instructionLength unit c.fn c.bytesCounted op
  { applyStackEffect op count c with
    lastOpIsReturn := op == .return_
    bytesCounted := c.bytesCounted + length
    tracked }

/-- The loop of `countEmittedCode`. Every turn counts at least one byte, so `fuel` is never short
when it is the number of bytes left. -/
def countEmittedCodeLoop : ℕ → CompileM Unit
  | 0 => return
  | fuel + 1 => do
    let s ← get
    if s.current.bytesCounted < s.current.fn.code.length then
      match OpCode.ofByte? (codeAt s.current.fn s.current.bytesCounted) with
      | none => do
        if !s.hadError then
          compilerErrorAt s.currentLine .line
            "Internal compiler error: opcode has no OpInfo entry."
        modifyCurrent fun c => { c with bytesCounted := c.fn.code.length }
      | some op => do
        modifyCurrent (countInstruction s.compilingUnit op)
        countEmittedCodeLoop fuel

def countEmittedCode : CompileM Unit := do
  let s ← get
  countEmittedCodeLoop (s.current.fn.code.length - s.current.bytesCounted)

def currentStackHeight : CompileM ℤ := do
  countEmittedCode
  return (← get).current.stackHeight

def resetStackHeight (height : ℤ) : CompileM Unit := do
  countEmittedCode
  modifyCurrent fun c => { c with stackHeight := height }

/-! ### Emitting code -/

def emitByte (byte : UInt8) : CompileM Unit := do
  let line := (← get).currentLine
  modifyCurrentFn fun fn => cuWriteByte fn byte line

def emitBytes (byte1 byte2 : UInt8) : CompileM Unit := do
  emitByte byte1
  emitByte byte2

def emitOp (op : OpCode) : CompileM Unit := emitByte op.toByte

/-- The two bytes `(n >> 8) & 0xff` and `n & 0xff` of a C int. -/
def highByte (n : ℤ) : UInt8 := UInt8.ofNat ((n / 256) % 256).toNat
def lowByte (n : ℤ) : UInt8 := UInt8.ofNat (n % 256).toNat

def codeCount : CompileM ℕ := do return (← get).current.fn.code.length

def emitLoop (loopStart : ℕ) : CompileM Unit := do
  emitOp .loop
  let offset := (← codeCount) - loopStart + 2
  if offset > UINT16_MAX then compilerError "Loop body too large."
  emitBytes (highByte offset) (lowByte offset)

def emitJump (instruction : OpCode) : CompileM ℕ := do
  let height ← currentStackHeight
  emitOp instruction
  emitBytes (highByte height) (lowByte height)
  return (← codeCount) - 2

/-- `code[offset] = byte`. -/
def CompiledFn.setByte (fn : CompiledFn) (offset : ℕ) (byte : UInt8) : CompiledFn :=
  { fn with code := fn.code.modify offset fun b => { b with byte } }

def patchJump (offset : ℕ) : CompileM Unit := do
  let fn := (← get).current.fn
  let heightAtJump : ℤ := (codeAt fn offset).toNat * 256 + (codeAt fn (offset + 1)).toNat
  let height ← currentStackHeight
  if (← get).current.isReachable then
    checkStackHeight (height == heightAtJump) (← get).currentLine
  else
    resetStackHeight heightAtJump
    modifyCurrent fun c => { c with isReachable := true }
  let jump := (← codeCount) - offset - 2
  if jump > UINT16_MAX then compilerError "Too much code to jump over"
  modifyCurrentFn fun fn =>
    (fn.setByte offset (highByte jump)).setByte (offset + 1) (lowByte jump)

/-! ### Constants -/

def makeConstant (value : CompiledConst) (tok : Option Token) : CompileM UInt8 := do
  let (constant, fn) := cuAddConstant (← get).current.fn value
  modifyCurrentFn fun _ => fn
  if constant > UINT8_MAX then
    match tok with
    | some tok => compilerErrorAtToken tok "Too many constants in one chunk."
    | none => compilerError "Too many constants in one chunk."
    return 0
  return UInt8.ofNat constant

def stringConstant (chars : Bytes) (tok : Option Token) : CompileM UInt8 := do
  let (offset, compilingUnit) := cuInternString (← get).compilingUnit chars
  modify fun s => { s with compilingUnit }
  makeConstant (.string offset chars.length) tok

/-- Make a new constant from an identifier token. -/
def identifierConstant (identifier : Token) : CompileM UInt8 :=
  stringConstant identifier.text (some identifier)

def emitNumberConstant (kind : NumberKind) (payload : NumberPayload) : CompileM Unit := do
  emitBytes OpCode.constant.toByte (← makeConstant (.number kind payload) none)

def emitStringConstant (chars : Bytes) : CompileM Unit := do
  emitBytes OpCode.constant.toByte (← stringConstant chars none)

/-! ### Variables -/

/-- Resolve a local variable: its position in `locals`. -/
def resolveLocal (compiler : FnCompiler) (identifier : Token) : CompileM (Option ℕ) := do
  match compiler.locals.findIdx? fun l => tokensEqual identifier l.name with
  | none => return none
  | some i =>
    if (compiler.locals[i]?.map Local.depth).getD 0 == LOCAL_UNINITIALIZED then
      compilerErrorAtToken identifier "Can't read local variable in its own initializer"
    return some i

def addUpvalue (compiler : FnCompiler) (index : UInt8) (isLocal isMutable : Bool) :
    CompileM (ℕ × FnCompiler) := do
  match compiler.upvalues.findIdx? fun u => u.index == index && u.isLocal == isLocal with
  | some i => return (i, compiler)
  | none =>
    if compiler.upvalues.length = UINT8_COUNT then
      compilerError "Too many closure variables in function."
      return (0, compiler)
    return (compiler.upvalues.length,
      { compiler with upvalues := compiler.upvalues ++ [⟨index, isLocal, isMutable⟩] })

/-- `(uint8_t)slot`. -/
def Local.slotByte (l : Local) : UInt8 := lowByte l.slot

/-- `compiler->locals[local].isCaptured = true`. -/
def FnCompiler.captureLocal (compiler : FnCompiler) (i : ℕ) : FnCompiler :=
  { compiler with locals := compiler.locals.modify i fun l => { l with isCaptured := true } }

/-- Resolve a name in the compilers around `compiler`, adding an upvalue to each compiler on the
way. Returns the index in `compiler` and all these compilers again. -/
def resolveUpvalue (name : Token) :
    FnCompiler → List FnCompiler → CompileM (Option ℕ × FnCompiler × List FnCompiler)
  | compiler, [] => return (none, compiler, [])
  | compiler, enclosing :: rest => do
    match ← resolveLocal enclosing name with
    | some i =>
      match enclosing.locals[i]? with
      | some l =>
        let (upvalue, compiler) ← addUpvalue compiler l.slotByte true l.isMutable
        return (some upvalue, compiler, enclosing.captureLocal i :: rest)
      | none => return (none, compiler, enclosing :: rest)
    | none =>
      let (upvalue, enclosing, rest) ← resolveUpvalue name enclosing rest
      match upvalue with
      | some upvalue =>
        let isMutable := (enclosing.upvalues[upvalue]?.map Upvalue.isMutable).getD false
        let (upvalue, compiler) ←
          addUpvalue compiler (UInt8.ofNat upvalue) false isMutable
        return (some upvalue, compiler, enclosing :: rest)
      | none => return (none, compiler, enclosing :: rest)

/-- A resolved variable reference. -/
structure VarRef where
  getOp : OpCode
  setOp : OpCode
  arg : UInt8
  isMutable : Bool
  deriving DecidableEq, Repr

/-- True, despite its name, when the binding is immutable. -/
def isMutuableBinding (name : Token) : CompileM Bool := do
  return stringSetContains (← get).immutableBindings name.text

def addImmutableBinding (name : Token) : CompileM Unit :=
  modify fun s => { s with immutableBindings := stringSetAdd s.immutableBindings name.text }

def checkImmutableRedeclaration (name : Token) : CompileM Unit := do
  if ← isMutuableBinding name then
    compilerErrorAtToken name "Already declared in this scope."

/-- Resolves `name` as a local, then an upvalue, then falls back to treating it as a global. -/
def resolveVariable (name : Token) : CompileM VarRef := do
  match ← resolveLocal (← get).current name with
  | some i =>
    match (← get).current.locals[i]? with
    | some l => return ⟨.getLocal, .setLocal, l.slotByte, l.isMutable⟩
    | none => return ⟨.getLocal, .setLocal, 0, false⟩
  | none =>
    let s ← get
    let (upvalue, current, enclosing) ← resolveUpvalue name s.current s.enclosing
    modify fun s => { s with current, enclosing }
    match upvalue with
    | some upvalue =>
      let isMutable := (current.upvalues[upvalue]?.map Upvalue.isMutable).getD false
      return ⟨.getUpvalue, .setUpvalue, UInt8.ofNat upvalue, isMutable⟩
    | none =>
      -- `Self` stands for the type of the `impl` block
      let name := match s.implTargetName with
        | some target => if tokenTextEquals name "Self" then target else name
        | none => name
      let arg ← identifierConstant name
      return ⟨.getGlobal, .setGlobal, arg, !(← isMutuableBinding name)⟩

def emitGet (ref : VarRef) : CompileM Unit := emitBytes ref.getOp.toByte ref.arg

def addLocal (name : Token) (isMutable : Bool) : CompileM Unit := do
  let c := (← get).current
  if c.locals.length = UINT8_COUNT then
    compilerErrorAtToken name "Too many local variables in function."
  else if c.locals.any fun existing => tokensEqual name existing.name && !existing.isMutable then
    compilerErrorAtToken name "Already declared in this scope."
  else
    let slot ← currentStackHeight
    modifyCurrent fun c =>
      { c with locals := ⟨name, LOCAL_UNINITIALIZED, slot, false, isMutable⟩ :: c.locals }

def declareVariable (name : Token) (isMutable : Bool) : CompileM Unit := do
  if (← get).current.scopeDepth = 0 then return
  addLocal name isMutable

def parseVariableFromToken (name : Token) (isMutable : Bool) : CompileM UInt8 := do
  declareVariable name isMutable
  if (← get).current.scopeDepth > 0 then return 0
  setLine name.line
  checkImmutableRedeclaration name
  let constant ← identifierConstant name
  if !isMutable then addImmutableBinding name
  return constant

/-- `current->locals[current->localCount - 1].depth = current->scopeDepth`. -/
def FnCompiler.markNewest (c : FnCompiler) : FnCompiler :=
  { c with locals := c.locals.modify 0 fun l => { l with depth := c.scopeDepth } }

/-- Initialize a new local variable. -/
def markInitialized : CompileM Unit := do
  if (← get).current.scopeDepth = 0 then return
  modifyCurrent FnCompiler.markNewest

def defineVariable (global : UInt8) : CompileM Unit := do
  if (← get).current.scopeDepth > 0 then markInitialized
  else emitBytes OpCode.defineGlobal.toByte global

/-! ### Scopes -/

def beginScope : CompileM Unit := modifyCurrent fun c => { c with scopeDepth := c.scopeDepth + 1 }

/-- The locals deeper than a scope depth, newest first, up to the first that is not. -/
def localsAbove (locals : List Local) (depth : ℕ) : List Local :=
  locals.takeWhile fun l => depth < l.depth

/-- The instruction that takes a local off the stack. -/
def popOf (l : Local) : OpCode := if l.isCaptured then .closeUpvalue else .pop

def emitPops (locals : List Local) : CompileM Unit := locals.forM fun l => emitOp (popOf l)

def captureOrCleanLocalsGoingOutOfScope : CompileM Unit := do
  let c := (← get).current
  let leaving := localsAbove c.locals c.scopeDepth
  emitPops leaving
  modifyCurrent fun c => { c with locals := c.locals.drop leaving.length }

def endScope : CompileM Unit := do
  modifyCurrent fun c => { c with scopeDepth := c.scopeDepth - 1 }
  captureOrCleanLocalsGoingOutOfScope

/-- Used for loop breaks: the locals stay declared. -/
def emitPopsToDepth (targetDepth : ℕ) : CompileM Unit := do
  emitPops (localsAbove (← get).current.locals targetDepth)

def compileBlockExprClose : CompileM Unit := do
  modifyCurrent fun c => { c with scopeDepth := c.scopeDepth - 1 }
  let c := (← get).current
  let leaving := localsAbove c.locals c.scopeDepth
  modifyCurrent fun c => { c with locals := c.locals.drop leaving.length }
  emitBytes OpCode.closeBlockExpr.toByte (lowByte leaving.length)

/-! ### Functions -/

def emitImplicitReturn : CompileM Unit := do
  emitOp .nil
  emitOp .return_

def emitValueReturn : CompileM Unit := emitOp .return_

/-- The digits of `%x`. -/
def hexDigits (n : ℕ) : Bytes :=
  (Nat.toDigits 16 n).map fun c => UInt8.ofNat c.toNat

/-- Initialize a compiler for a function. `enclosingLoop` is what `currentLoop` was. -/
def newFnCompiler (fnIndex : ℕ) (functionType : FunctionType)
    (enclosingLoop : List LoopCompiler) : FnCompiler where
  fnIndex := fnIndex
  fn := { isStatic := functionType == .staticMethod }
  type := functionType
  locals :=
    [{ name := tokenFromCString (if functionType = .method then "self" else "")
       depth := 0
       slot := 0
       isCaptured := false
       isMutable := false }]
  enclosingLoop := enclosingLoop

def setFnName (chars : Bytes) : CompileM Unit := do
  let (offset, compilingUnit) := cuInternString (← get).compilingUnit chars
  modify fun s => { s with compilingUnit }
  modifyCurrentFn fun fn => { fn with nameOffset := offset, nameLength := chars.length }

/-- `initCompiler` of a function inside another one. -/
def initCompiler (functionType : FunctionType) (nameToken : Option Token) : CompileM Unit := do
  modify fun s =>
    let (fnIndex, compilingUnit) := cuAddFunction s.compilingUnit
    { s with
      current := newFnCompiler fnIndex functionType s.currentLoop
      enclosing := s.current :: s.enclosing
      currentLoop := []
      compilingUnit }
  match nameToken with
  | some nameToken => setFnName nameToken.text
  | none =>
    if functionType = .function then
      modify fun s => { s with lambdaCount := s.lambdaCount + 1 }
      setFnName (ascii "lambda0x" ++ hexDigits (← get).lambdaCount)

/-- Stores the function in the unit. Returns its index and its captured variables. -/
def endCompiler : CompileM (ℕ × List Upvalue) := do
  modify fun s => { s with currentLoop := s.current.enclosingLoop }
  countEmittedCode
  if !(← get).current.lastOpIsReturn then
    emitImplicitReturn
    -- not in the source, where nothing reads the height any more: for `tracked` only
    countEmittedCode
  let c := (← get).current
  let fn := { c.fn with upvalueCount := c.upvalues.length }
  modify fun s =>
    { s with
      compilingUnit := { s.compilingUnit with
        functions := s.compilingUnit.functions.set c.fnIndex fn }
      current := s.enclosing.headD c
      enclosing := s.enclosing.tail
      heights := s.heights ++ [(c.fnIndex, c.tracked)] }
  return (c.fnIndex, c.upvalues)

end KirbyLang
