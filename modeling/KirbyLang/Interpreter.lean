import KirbyLang.Machine

/-!
# The interpreter

`vm.c`: calls, the lookup of members, upvalues, and `run`, whose cases are one definition for each
opcode that does more than a few pushes and pops. The innermost frame is the one that is running.

* `call`, `callValue`, `invoke`, `bindMethod`: entering functions;
* `captureUpvalue`, `closeUpvalues`: open upvalues;
* `step`: one instruction; `run`: instructions until the script returns or an error is reported.
-/

namespace KirbyLang.Vm

inductive InterpretResult
  | ok
  | compileError
  | runtimeError
  deriving DecidableEq, Repr

def framesMax : ℕ := 64

/-- `STACK_MAX`: `FRAMES_MAX * UINT8_COUNT`. -/
def stackMax : ℕ := framesMax * 256

/-- What the C library and the version of the program contribute. -/
structure Host where
  libc : Libc
  version : Bytes := []

/-! ### Calls -/

def call (closure : Ref) (argCount : ℕ) : M Bool := do
  let function ← functionOfClosure closure
  if (argCount : ℤ) ≠ function.arity then
    refuse (text "Expected " ++ decimal function.arity ++ text " arguments but got " ++
      decimal argCount ++ text ".")
  else if (← get).frames.length = framesMax then
    refuse (text "Stack overflow.")
  else do
    modify fun vm => { vm with
      frames := { closure, ip := 0, slots := vm.stackTop - argCount - 1 } :: vm.frames }
    return true

variable (host : Host)

/-- The native that is defined under a name. -/
def findNative (function : Bytes) : Option Native :=
  ((nativeDefinitions host.libc host.version).find? fun definition =>
    text definition.1 == function).map Prod.snd

def callNative (native : ObjNative) (argCount : ℕ) : M Bool := do
  let vm ← get
  match findNative host native.function with
  | none => fault
  | some native => do
    let result ← native.run host.libc argCount fun i : ℕ => vm.stack (vm.stackTop - argCount + i)
    popN (argCount + 1)
    push result
    return true

def callValue (callee : Value) (argCount : ℕ) : M Bool := do
  match ← objectOf callee with
  | some (_, .boundMethod bound) => do
    setSlot ((← get).stackTop - argCount - 1) bound.receiver
    call bound.method argCount
  | some (closure, .closure _) => call closure argCount
  | some (_, .native native) => callNative host native argCount
  | _ => refuse (text "Can only call functions and structs.")

/-! ### Members -/

/-- The struct whose private members may be touched, or `NULL`. -/
def Memory.currentOwner (memory : Memory) : Ref :=
  match memory.frames with
  | [] => null
  | frame :: _ =>
    match memory.gc.closure? frame.closure with
    | some closure => closure.owner
    | none => null

def canAccess (struct_ : Ref) (isPublic : Bool) : M Bool := do
  return isPublic || (← get).currentOwner == struct_

/-- Note that a member is used. -/
def logAccess (struct_ : Ref) (isPublic : Bool) : M Unit :=
  modify fun vm => vm.logged (.access struct_ isPublic vm.currentOwner)

/-- The slot of a field. Slots are kept in the table as doubles. -/
def structFieldSlot (struct_ name : Ref) : M (Option ℕ) := do
  match ← lookup (← structAt struct_).fields name with
  | none => return none
  | some (.number _ payload) => return some payload.truncated.toNat
  | some _ => fault

/-- The name of the field in a slot, from a slot of the table on. -/
def structFieldName (table : Table Ref Value) (slot : ℕ) : Option Ref :=
  (List.range table.capacity).findSome? fun i =>
    match table.entries i with
    | .full key (.number _ payload) => if payload.truncated = slot then some key else none
    | _ => none

/-- `'%s' is private to '%s'.` -/
def privateMessage (kind : String) (name struct_ : Ref) : M Bytes := do
  let name ← textOf name
  let structName ← textOf (← structAt struct_).name
  return text kind ++ text " '" ++ name ++ text "' is private to '" ++ structName ++ text "'."

def undefinedProperty (name : Ref) : M Bytes := do
  return text "Undefined property '" ++ (← textOf name) ++ text "'."

def staticMessage (how : String) (name struct_ : Ref) : M Bytes := do
  let name ← textOf name
  let structName ← textOf (← structAt struct_).name
  return text "'" ++ name ++ text "' is a static method. " ++ text how ++ text " it on '" ++
    structName ++ text "' instead of on an instance."

def instanceMessage (name struct_ : Ref) : M Bytes := do
  let name ← textOf name
  let structName ← textOf (← structAt struct_).name
  return text "'" ++ name ++ text "' is an instance method and needs an instance of '" ++
    structName ++ text "' to be called on."

/-- The checks on a method before it is used as a static method or not: the message of the first
that fails. -/
def methodError (isStatic : Bool) (wrongKind : Ref → Ref → M Bytes) (struct_ name method : Ref) :
    M (Option Bytes) := do
  let function ← functionOfClosure method
  if function.isStatic ≠ isStatic then return some (← wrongKind name struct_)
  else if !(← canAccess struct_ function.isPublic) then
    return some (← privateMessage "Method" name struct_)
  else return none

/-- Note that a method is used. -/
def logMethod (struct_ method : Ref) : M Unit := do
  logAccess struct_ (← functionOfClosure method).isPublic

/-- Look up a method, check it and call it. -/
def invokeMethod (isStatic : Bool) (wrongKind : Ref → Ref → M Bytes) (struct_ name : Ref)
    (argCount : ℕ) : M Bool := do
  match ← lookup (← structAt struct_).methods name with
  | none => refuse (← undefinedProperty name)
  | some method => do
    let method ← asClosure method
    match ← methodError isStatic wrongKind struct_ name method with
    | some message => refuse message
    | none => do
      logMethod struct_ method
      call method argCount

def invokeFromStruct : Ref → Ref → ℕ → M Bool := invokeMethod false (staticMessage "Call")

def invokeStatic : Ref → Ref → ℕ → M Bool := invokeMethod true instanceMessage

/-- The value of a field. -/
def fieldAt (instance_ : ObjInstance) (slot : ℕ) : M Value :=
  orFault (instance_.fields.bind fun fields => fields[slot]?)

def setField (instance_ : Ref) (slot : ℕ) (value : Value) : M Unit := do
  let o ← instanceAt instance_
  let fields ← orFault o.fields
  if slot < fields.length then
    liftMem (writeObj instance_ (.instance_ { o with fields := some (fields.set slot value) }))
  else fault

def invoke (name : Ref) (argCount : ℕ) : M Bool := do
  match ← objectOf (← peekStack argCount) with
  | some (struct_, .struct_ _) => invokeStatic struct_ name argCount
  | some (_, .instance_ instance_) => do
    match ← structFieldSlot instance_.struct_ name with
    | none => invokeFromStruct instance_.struct_ name argCount
    | some slot => do
      let struct_ ← structAt instance_.struct_
      if !(← canAccess instance_.struct_ (struct_.fieldPublic slot)) then
        match ← lookup struct_.methods name with
        | some _ => invokeFromStruct instance_.struct_ name argCount
        | none => refuse (← privateMessage "Field" name instance_.struct_)
      else do
        logAccess instance_.struct_ (struct_.fieldPublic slot)
        let fieldValue ← fieldAt instance_ slot
        -- the receiver gives way to the function
        setSlot ((← get).stackTop - argCount - 1) fieldValue
        callValue host fieldValue argCount
  | _ => refuse (text "Only instances have methods.")

inductive BindResult
  | notFound
  | ok
  | error
  deriving DecidableEq, Repr

def bindMethod (struct_ name : Ref) : M BindResult := do
  match ← lookup (← structAt struct_).methods name with
  | none => return .notFound
  | some method => do
    let method ← asClosure method
    match ← methodError false (staticMessage "Access") struct_ name method with
    | some message => do
      runtimeError message
      return .error
    | none => do
      logMethod struct_ method
      let bound ← liftMem (newBoundMethod (← peekStack 0) method)
      let _ ← pop
      push (.obj bound)
      return .ok

def defineMethod (name : Ref) : M Bool := do
  let method ← peekStack 0
  match ← objectOf (← peekStack 1) with
  | some (struct_, .struct_ _) => do
    let closure ← asClosure method
    let o ← closureAt closure
    liftMem (writeObj closure (.closure { o with owner := struct_ }))
    let _ ← liftMem (tableSet (.methods struct_) name method)
    let _ ← pop
    return true
  | _ => refuse (text "Only structs can have implementations")

/-! ### Upvalues -/

/-- The slot that an open upvalue refers to. -/
def GC.upvalueSlot (gc : GC) (upvalue : Ref) : Option ℤ :=
  match gc.upvalue? upvalue with
  | some ⟨.stack slot, _⟩ => some slot
  | _ => none

/-- Whether an upvalue refers to a slot above another. -/
def GC.isAbove (gc : GC) (slot : ℤ) (upvalue : Ref) : Bool :=
  match gc.upvalueSlot upvalue with
  | some slot' => decide (slot < slot')
  | none => false

/-- The open upvalue of a slot, new and in its place in the list when there is none. -/
def captureUpvalue (slot : ℤ) : M Ref := do
  let vm ← get
  let above := vm.openUpvalues.takeWhile (vm.gc.isAbove slot)
  let rest := vm.openUpvalues.dropWhile (vm.gc.isAbove slot)
  match rest.head? with
  | some upvalue =>
    if vm.gc.upvalueSlot upvalue = some slot then return upvalue
    else create above rest
  | none => create above rest
where
  create (above rest : List Ref) : M Ref := do
    let createdUpvalue ← liftMem (newUpvalue slot)
    modify fun vm => { vm with openUpvalues := above ++ createdUpvalue :: rest }
    return createdUpvalue

/-- The loop of `closeUpvalues` over the open upvalues. -/
def closeUpvaluesLoop (last : ℤ) : List Ref → Memory → Memory
  | [], memory => { memory with openUpvalues := [] }
  | upvalue :: rest, memory =>
    match memory.gc.upvalueSlot upvalue with
    | some slot =>
      if last ≤ slot then
        closeUpvaluesLoop last rest
          (memory.setObj upvalue (.upvalue { location := .closed, closed := memory.stack slot }))
      else { memory with openUpvalues := upvalue :: rest }
    | none => { memory with openUpvalues := upvalue :: rest }

def closeUpvalues (last : ℤ) : M Unit := modify fun vm =>
  { vm with toMemory := closeUpvaluesLoop last vm.openUpvalues vm.toMemory }

/-- What an upvalue of the running closure is at. -/
def upvalueOf (closure : Ref) (index : ℕ) : M Ref := do
  orFault (← closureAt closure).upvalues[index]?

def readUpvalue (upvalue : Ref) : M Value := do
  let o ← upvalueAt upvalue
  match o.location with
  | .stack slot => return (← get).stack slot
  | .closed => return o.closed

def writeUpvalue (upvalue : Ref) (value : Value) : M Unit := do
  let o ← upvalueAt upvalue
  match o.location with
  | .stack slot => setSlot slot value
  | .closed => liftMem (writeObj upvalue (.upvalue { o with closed := value }))

/-! ### Reading instructions -/

/-- The running frame. -/
def currentFrame : M CallFrame := do orFault (← get).frames.head?

def setIp (ip : ℤ) : M Unit := modify fun vm =>
  match vm.frames with
  | [] => vm
  | frame :: frames => { vm with frames := { frame with ip } :: frames }

/-- `READ_BYTE`. -/
def readByte : M UInt8 := do
  let frame ← currentFrame
  let function ← functionOfClosure frame.closure
  if frame.ip < 0 then fault
  else do
    let code ← orFault function.chunk.code[frame.ip.toNat]?
    setIp (frame.ip + 1)
    return code.byte

/-- `READ_SHORT`. -/
def readShort : M ℕ := do
  let high ← readByte
  let low ← readByte
  return high.toNat * 256 + low.toNat

/-- `READ_CONSTANT`. -/
def readConstant : M Value := do
  let index ← readByte
  let function ← functionOfClosure (← currentFrame).closure
  orFault function.chunk.constants.values[index.toNat]?

/-- `READ_STRING`. -/
def readString : M Ref := do asStringRef (← readConstant)

/-! ### Operators -/

def isFalsey : Value → Bool
  | .nil => true
  | .boolean value => !value
  | _ => false

/-- The length of the result is an `int`. -/
def concatenate : M Unit := do
  let b ← stringAt (← asStringRef (← peekStack 0))
  let a ← stringAt (← asStringRef (← peekStack 1))
  let length := a.chars.length + b.chars.length
  if 2 ^ 31 ≤ length then fault
  else do
    liftMem (reallocate 0 (length + 1))
    let result ← liftMem (takeString (a.chars ++ b.chars))
    let _ ← pop
    let _ ← pop
    push (.obj result)

/-- The position in an array that a number is, or the message of an error. -/
def arrayPosition (kind : NumberKind) (payload : NumberPayload) (count : ℕ) : Except Bytes ℕ :=
  if kind.info.isFloat then
    if payload.f64 != payload.f64.floor then .error (text "Array index must be a whole number.")
    else if payload.f64 < 0 || Float.ofNat count ≤ payload.f64 then
      .error (text "Array index out of bounds.")
    else .ok payload.truncated.toNat
  else if if kind.info.isSigned then decide (payload.i64 < 0 ∨ count ≤ payload.i64)
      else decide (count ≤ payload.u64) then
    .error (text "Array index out of bounds.")
  else .ok payload.u64

def numbersOfSameType : Bytes := text "Operands must be two numbers of the same type."

/-- The kind and the payloads of two numbers of one kind. -/
def sameNumberKind : Value → Value → Option (NumberKind × NumberPayload × NumberPayload)
  | .number kind a, .number kind' b => if kind = kind' then some (kind, a, b) else none
  | _, _ => none

/-- The smallest and the largest number of a kind as they are printed. -/
def rangeText (kind : NumberKind) (between : String) : Bytes :=
  formatNumber host.libc kind (.ofInt kind.min) ++ text between ++
    formatNumber host.libc kind (.ofInt kind.max)

def integerOverflowMessage (kind : NumberKind) (expression : Bytes) : Bytes :=
  text "Integer overflow: " ++ expression ++ text " doesn't fit in " ++ text kind.info.name ++
    text ", which holds " ++ rangeText host kind " to " ++ text "."

def numberOpSymbol : NumberOp → String
  | .add => "+"
  | .subtract => "-"
  | .multiply => "*"
  | .divide => "/"
  | .modulo => "%"

def assertNonZeroNumber (function : String) (kind : NumberKind) (payload : NumberPayload)
    (index : ℤ) : M Unit :=
  if !numberIsZero kind payload then return ()
  else
    let number := if kind.info.isFloat then host.libc.general payload.f64
      else formatNumber host.libc kind payload
    die (text "function " ++ text function ++ text " expects argument " ++ decimal index ++
      text " to be a non-zero number but got " ++ number ++ text ".")

def numberBinary (op : NumberOp) (mismatchMessage : Bytes) : M Bool := do
  let b ← peekStack 0
  let a ← peekStack 1
  match sameNumberKind a b with
  | none => refuse mismatchMessage
  | some (kind, a, b) => do
    if op = .divide ∨ (op = .modulo ∧ kind.info.isFloat = false) then
      assertNonZeroNumber host (if op = .divide then "/" else "%") kind b 1
    match numberArithmetic host.libc kind op a b with
    | none =>
      refuse (integerOverflowMessage host kind (formatNumber host.libc kind a ++ text " " ++
        text (numberOpSymbol op) ++ text " " ++ formatNumber host.libc kind b))
    | some result => do
      let _ ← pop
      let _ ← pop
      push (.number kind result)
      return true

def numberCompare (greater : Bool) : M Bool := do
  let b ← peekStack 0
  let a ← peekStack 1
  match sameNumberKind a b with
  | none => refuse numbersOfSameType
  | some (kind, a, b) => do
    let result := if greater then numberOpLessThan kind b a else numberOpLessThan kind a b
    let _ ← pop
    let _ ← pop
    push (.boolean result)
    return true

def castNumber (source : NumberKind) (payload : NumberPayload) (target : NumberKind) : M Bool :=
  let cannot := text "can't convert " ++ text source.info.name ++ text " " ++
    formatNumber host.libc source payload ++ text " to " ++ text target.info.name
  match numberCast source payload target with
  | .ok result => do
    push (.number target result)
    return true
  | _ =>
    if target.info.isFloat then refuse (cannot ++ text ", out of range.")
    else refuse (cannot ++ text ", expected an integer from " ++
      rangeText host target " to " ++ text ".")

/-! ### Instructions -/

/-- `return INTERPRET_RUNTIME_ERROR` when the program has failed, else on to the next instruction. -/
def orFailed (p : M Bool) : M (Option InterpretResult) := do
  if ← p then return none else return some .runtimeError

/-- Report an error and return from `run`. -/
def failWith (message : Bytes) : M (Option InterpretResult) := do
  runtimeError message
  return some .runtimeError

/-- On to the next instruction. -/
def next (p : M Unit) : M (Option InterpretResult) := do
  p
  return none

def opAdd : M (Option InterpretResult) := do
  let b ← objectOf (← peekStack 0)
  let a ← objectOf (← peekStack 1)
  match b, a with
  | some (_, .string _), some (_, .string _) => next concatenate
  | _, _ =>
    orFailed (numberBinary host .add (text "Operands must be two numbers or two strings."))

def opNegate : M (Option InterpretResult) := do
  match ← peekStack 0 with
  | .number kind payload =>
    match numberNegateValue kind payload with
    | none =>
      failWith (integerOverflowMessage host kind
        (text "-(" ++ formatNumber host.libc kind payload ++ text ")"))
    | some result => next do
      let _ ← pop
      push (.number kind result)
  | _ => failWith (text "Operand must be a number.")

def opCast : M (Option InterpretResult) := do
  let target ← readByte
  let value ← pop
  match NumberKind.ofByte? target with
  | none => failWith (text "Internal: unknown cast target " ++ decimal target.toNat ++ text ".")
  | some target =>
    match value with
    | .number kind payload => orFailed (castNumber host kind payload target)
    | _ => failWith (text "can't cast a value that is not a number.")

def opPrint : M (Option InterpretResult) := next do
  let value ← pop
  let printed ← printedText host.libc false value
  modify fun vm => { vm with
    world := { vm.world with stdout := vm.world.stdout ++ printed ++ text "\n" } }

def opReturn : M (Option InterpretResult) := do
  let frame ← currentFrame
  let result ← pop
  closeUpvalues frame.slots
  modify fun vm => { vm with frames := vm.frames.tail }
  if (← get).frames = [] then
    let _ ← pop
    return some .ok
  else next do
    popN ((← get).stackTop - frame.slots)
    push result

def opGetGlobal : M (Option InterpretResult) := do
  let name ← readString
  match ← lookup (← get).globals name with
  | none => failWith (text "Undefined variable '" ++ (← textOf name) ++ text "'.")
  | some value => next (push value)

def opSetGlobal : M (Option InterpretResult) := do
  let name ← readString
  let value ← peekStack 0
  let isNewKey ← liftMem (tableSet .globals name value)
  if isNewKey then do
    let vm ← get
    let (globals, _) ← orFault (tableDelete vm.gc.hash vm.globals name)
    modify fun vm => { vm with globals }
    failWith (text "Undefined variable " ++ (← textOf name))
  else return none

def opDefineGlobal : M (Option InterpretResult) := next do
  let name ← readString
  let value ← peekStack 0
  let _ ← liftMem (tableSet .globals name value)
  let _ ← pop

/-- The jump of an instruction, when its condition holds. -/
def jumpIf (condition : Value → Bool) : M (Option InterpretResult) := next do
  let jumpOffset ← readShort
  if condition (← peekStack 0) then
    setIp ((← currentFrame).ip + jumpOffset)

def opCall : M (Option InterpretResult) := do
  let argCount := (← readByte).toNat
  let callee ← peekStack argCount
  orFailed (callValue host callee argCount)

/-- The loop over the upvalues of a new closure. -/
def captureLoop (frame : CallFrame) (closure : Ref) (i : ℕ) : M Unit := do
  let isLocal ← readByte
  let index ← readByte
  let upvalue ←
    if isLocal ≠ 0 then captureUpvalue (frame.slots + index.toNat)
    else upvalueOf frame.closure index.toNat
  let o ← closureAt closure
  liftMem (writeObj closure (.closure { o with upvalues := o.upvalues.set i upvalue }))

def opClosure : M (Option InterpretResult) := next do
  match ← readConstant with
  | .obj function => do
    let frame ← currentFrame
    let closure ← liftMem (newClosure function)
    let owner := (← closureAt frame.closure).owner
    let o ← closureAt closure
    liftMem (writeObj closure (.closure { o with owner }))
    push (.obj closure)
    (List.range o.upvalues.length).forM (captureLoop frame closure)
  | _ => fault

def opGetUpvalue : M (Option InterpretResult) := next do
  let slot ← readByte
  let upvalue ← upvalueOf (← currentFrame).closure slot.toNat
  push (← readUpvalue upvalue)

def opSetUpvalue : M (Option InterpretResult) := next do
  let slot ← readByte
  let upvalue ← upvalueOf (← currentFrame).closure slot.toNat
  writeUpvalue upvalue (← peekStack 0)

/-- The loop over the pairs of a struct literal, with the slots that are provided; `none` after an
error. -/
def initFields (struct_ instance_ : Ref) (pairs : ℤ) :
    List ℕ → (ℕ → Bool) → M (Option (ℕ → Bool))
  | [], provided => return some provided
  | i :: rest, provided => do
    let field ← asStringRef ((← get).stack (pairs + 2 * i))
    match ← structFieldSlot struct_ field with
    | none => do
      runtimeError (text "Undefined field '" ++ (← textOf field) ++ text "'.")
      return none
    | some slot => do
      let isPublic := (← structAt struct_).fieldPublic slot
      if !(← canAccess struct_ isPublic) then
        runtimeError (← privateMessage "Field" field struct_)
        return none
      else do
        logAccess struct_ isPublic
        setField instance_ slot ((← get).stack (pairs + 2 * i + 1))
        initFields struct_ instance_ pairs rest (Function.update provided slot true)

/-- The slots that are not provided must not be. -/
def missingField (struct_ : ObjStruct) (provided : ℕ → Bool) : Option ℕ :=
  (List.range struct_.fieldCount).find? fun i => !provided i

def opStructInit : M (Option InterpretResult) := do
  let fieldCount := (← readByte).toNat
  let pairs := (← get).stackTop - 2 * fieldCount
  match ← objectOf ((← get).stack (pairs - 1)) with
  | some (struct_, .struct_ _) => do
    let instance_ ← liftMem (newInstance struct_)
    match ← initFields struct_ instance_ pairs (List.range fieldCount) fun _ => false with
    | none => return some .runtimeError
    | some provided => do
      let o ← structAt struct_
      match missingField o provided with
      | some slot => do
        let name ← match structFieldName o.fields slot with
          | some name => textOf name
          | none => pure (text "?")
        failWith (text "Missing required field '" ++ name ++ text "'.")
      | none => next do
        popN ((← get).stackTop - (pairs - 1))
        push (.obj instance_)
  | _ => failWith (text "Only structs can be initialized with '\x7b\x7d'.")

/-- `OP_GET_PROPERTY` on a struct. -/
def getStaticMethod (struct_ : Ref) : M (Option InterpretResult) := do
  let name ← readString
  match ← lookup (← structAt struct_).methods name with
  | none => failWith (← undefinedProperty name)
  | some method => do
    let closure ← asClosure method
    match ← methodError true instanceMessage struct_ name closure with
    | some message => failWith message
    | none => next do
      logMethod struct_ closure
      let _ ← pop
      push method

/-- The end of `OP_GET_PROPERTY`, when it is not a field that is read. -/
def getMethod (struct_ name : Ref) : M (Option InterpretResult) := do
  match ← bindMethod struct_ name with
  | .ok => return none
  | .error => return some .runtimeError
  | .notFound => failWith (← undefinedProperty name)

def opGetProperty : M (Option InterpretResult) := do
  match ← objectOf (← peekStack 0) with
  | some (struct_, .struct_ _) => getStaticMethod struct_
  | some (_, .instance_ instance_) => do
    let name ← readString
    match ← structFieldSlot instance_.struct_ name with
    | none => getMethod instance_.struct_ name
    | some slot => do
      let struct_ ← structAt instance_.struct_
      let isPublic := struct_.fieldPublic slot
      if ← canAccess instance_.struct_ isPublic then next do
        logAccess instance_.struct_ isPublic
        let value ← fieldAt instance_ slot
        let _ ← pop
        push value
      else
        -- a private field does not hide a method
        match ← lookup struct_.methods name with
        | some _ => getMethod instance_.struct_ name
        | none => failWith (← privateMessage "Field" name instance_.struct_)
  | _ => failWith (text "Only instances have properties.")

def opSetProperty : M (Option InterpretResult) := do
  match ← objectOf (← peekStack 1) with
  | some (r, .instance_ instance_) => do
    let name ← readString
    match ← structFieldSlot instance_.struct_ name with
    | none => failWith (text "Undefined field '" ++ (← textOf name) ++ text "'.")
    | some slot => do
      let struct_ ← structAt instance_.struct_
      if !(← canAccess instance_.struct_ (struct_.fieldPublic slot)) then
        failWith (← privateMessage "Field" name instance_.struct_)
      else if !struct_.fieldMutable slot then
        failWith (text "Field '" ++ (← textOf name) ++ text "' is immutable")
      else next do
        logAccess instance_.struct_ (struct_.fieldPublic slot)
        setField r slot (← peekStack 0)
        let value ← pop
        let _ ← pop
        push value
  | _ => failWith (text "Only instances have fields.")

def opField : M (Option InterpretResult) := do
  let fieldName ← readString
  let isPublic := (← readByte) != 0
  let isMutable := (← readByte) != 0
  match ← objectOf (← peekStack 1) with
  | some (r, .struct_ struct_) => do
    match ← lookup struct_.fields fieldName with
    | some _ => failWith (text "Duplicate field '" ++ (← textOf fieldName) ++ text "'.")
    | none =>
      if 256 ≤ struct_.fieldCount then
        failWith (text "A struct can't have more than 256 fields.")
      else next do
        let _ ← liftMem (tableSet (.fields r) fieldName (f64Value (Float.ofNat struct_.fieldCount)))
        let o ← structAt r
        liftMem (writeObj r (.struct_ { o with
          fieldPublic := Function.update o.fieldPublic o.fieldCount isPublic
          fieldMutable := Function.update o.fieldMutable o.fieldCount isMutable
          fieldCount := o.fieldCount + 1 }))
        let _ ← pop
  | _ => failWith (text "Field declaration outside struct.")

def opList : M (Option InterpretResult) := next do
  let count := (← readByte).toNat
  let list ← liftMem newList
  push (.obj list)
  -- the first element is furthest from the top
  (List.range count).reverse.forM fun i => do
    liftMem (writeValueToListObj list (← peekStack (i + 1)))
  let arrayValue ← pop
  popN count
  push arrayValue

def opArray : M (Option InterpretResult) := next do
  let count := (← readByte).toNat
  let array ← liftMem (newArray count)
  let vm ← get
  let values := (List.range count).map fun i : ℕ => vm.stack (vm.stackTop - count + i)
  liftMem (setArrayValues array values)
  popN count
  push (.obj array)

/-- The elements of a list or an array. -/
def elements : Obj → Option (List Value)
  | .list list => some list.values
  | .array array => some array.values
  | _ => none

/-- Write an element of a list or an array. -/
def setElement (o : Obj) (i : ℕ) (value : Value) : Obj :=
  match o with
  | .list list => .list { list with values := list.values.set i value }
  | .array array => .array { values := array.values.set i value }
  | o => o

/-- The target of an index and the position in it, or the message of an error. -/
def indexed (target index : Value) : M (Except Bytes (Ref × Obj × List Value × ℕ)) := do
  match ← objectOf target with
  | some (r, o) =>
    match elements o with
    | some values =>
      match index with
      | .number kind payload =>
        match arrayPosition kind payload values.length with
        | .ok i => return .ok (r, o, values, i)
        | .error message => return .error message
      | _ => return .error (text "Array index must be number.")
    | none => return .error (text "Can only index arrays.")
  | none => return .error (text "Can only index arrays.")

def opGetIndex : M (Option InterpretResult) := do
  let index ← pop
  let target ← pop
  match ← indexed target index with
  | .error message => failWith message
  | .ok (_, _, values, i) => next do push (← orFault values[i]?)

def opSetIndex : M (Option InterpretResult) := do
  let value ← pop
  let index ← pop
  let target ← pop
  match ← indexed target index with
  | .error message => failWith message
  | .ok (r, o, values, i) => next do
    if i < values.length then
      liftMem (writeObj r (setElement o i value))
      push value
    else fault

def opCloseBlockExpr : M (Option InterpretResult) := next do
  let locals := (← readByte).toNat
  let result ← pop
  closeUpvalues ((← get).stackTop - locals)
  popN locals
  push result

/-- The `switch` of `run`. -/
def execute : OpCode → M (Option InterpretResult)
  | .constant => next do push (← readConstant)
  | .nil => next (push .nil)
  | .true_ => next (push (.boolean true))
  | .false_ => next (push (.boolean false))
  | .add => opAdd host
  | .subtract => orFailed (numberBinary host .subtract numbersOfSameType)
  | .multiply => orFailed (numberBinary host .multiply numbersOfSameType)
  | .divide => orFailed (numberBinary host .divide numbersOfSameType)
  | .modulo => orFailed (numberBinary host .modulo numbersOfSameType)
  | .negate => opNegate host
  | .print => opPrint host
  | .return_ => opReturn
  | .equal => next do
    let b ← pop
    let a ← pop
    push (.boolean (valuesEqual a b))
  | .not_ => next do push (.boolean (isFalsey (← pop)))
  | .pop => next do let _ ← pop
  | .closeUpvalue => next do
    closeUpvalues ((← get).stackTop - 1)
    let _ ← pop
  | .defineGlobal => opDefineGlobal
  | .getGlobal => opGetGlobal
  | .setGlobal => opSetGlobal
  | .getUpvalue => opGetUpvalue
  | .setUpvalue => opSetUpvalue
  | .getLocal => next do
    let slot ← readByte
    push ((← get).stack ((← currentFrame).slots + slot.toNat))
  | .setLocal => next do
    let slot ← readByte
    setSlot ((← currentFrame).slots + slot.toNat) (← peekStack 0)
  | .jumpIfFalse => jumpIf isFalsey
  | .jumpIfNotNil => jumpIf fun value => value != .nil
  | .jump => jumpIf fun _ => true
  | .loop => next do
    let jumpOffset ← readShort
    setIp ((← currentFrame).ip - jumpOffset)
  | .greater => orFailed (numberCompare true)
  | .less => orFailed (numberCompare false)
  | .call => opCall host
  | .closure => opClosure
  | .struct_ => next do
    let struct_ ← liftMem (newStruct (← readString))
    push (.obj struct_)
  | .structInit => opStructInit
  | .field => opField
  | .getProperty => opGetProperty
  | .setProperty => opSetProperty
  | .method => do orFailed (defineMethod (← readString))
  | .invoke => do
    let method ← readString
    let argCount := (← readByte).toNat
    orFailed (invoke host method argCount)
  | .list => opList
  | .getIndex => opGetIndex
  | .setIndex => opSetIndex
  | .closeBlockExpr => opCloseBlockExpr
  | .cast => opCast host
  | .array => opArray

/-- One round of the loop of `run`. A byte that is no opcode is passed over. -/
def step : M (Option InterpretResult) := do
  match OpCode.ofByte? (← readByte) with
  | none => return none
  | some instruction => do
    modify fun vm => vm.logged (.instruction instruction)
    execute host instruction

/-- At most the given number of instructions; `none` when there are more to come. -/
def run : ℕ → M (Option InterpretResult)
  | 0 => return none
  | rounds + 1 => do
    match ← step host with
    | some result => return some result
    | none => run rounds

/-- `interpretFunction` up to `run`. What `call` returns is not looked at. -/
def enterFunction (function : Ref) : M Unit := do
  push (.obj function)
  let closure ← liftMem (newClosure function)
  let _ ← pop
  push (.obj closure)
  let _ ← call closure 0

/-- Load and run a unit. -/
def interpret (compiledUnit : CompiledUnit) (rounds : ℕ) : M (Option InterpretResult) := do
  let function ← liftMem (loadUnit compiledUnit)
  enterFunction function
  run host rounds

end KirbyLang.Vm
