import KirbyLang.Allocation

/-!
# Construction of objects

The constructors of `object.c` beside strings, the growing of chunks and value arrays (`chunk.c`,
`value.c`), and the loading of a compiled unit (`loader.c`). An object that is read again after an
allocation may have been freed by it.
-/

namespace KirbyLang.Vm

/-- Read something that may have been freed. -/
def readMemory {α : Type} (f : Memory → Option α) : Mem α := fun memory =>
  (f memory).map (·, memory)

def writeObj (r : Ref) (o : Obj) : Mem Unit := fun memory => some ((), memory.setObj r o)

def functionAt (function : Ref) : Mem ObjFunction := readMemory fun memory =>
  memory.gc.function? function

/-! ### Constructors -/

def newBoundMethod (receiver : Value) (method : Ref) : Mem Ref :=
  allocateObject (.boundMethod { receiver, method })

def newStruct (name : Ref) : Mem Ref := allocateObject (.struct_ { name })

def newClosure (function : Ref) : Mem Ref := do
  let count := (← functionAt function).upvalueCount.toNat
  reallocate 0 (sizeofPointer * count)
  allocateObject (.closure { function, upvalues := List.replicate count null })

def newFunction : Mem Ref := allocateObject (.function {})

/-- The instance is on the stack while its fields are allocated. -/
def newInstance (struct_ : Ref) : Mem Ref := do
  let instance_ ← allocateObject (.instance_ { struct_ })
  pushOnStack (.obj instance_)
  let count := (← readMemory fun memory => memory.gc.struct? struct_).fieldCount
  if 0 < count then
    reallocate 0 (sizeofValue * count)
    let o ← readMemory fun memory => memory.gc.instance? instance_
    writeObj instance_ (.instance_ { o with fields := some (List.replicate count .nil) })
  let _ ← popFromStack
  return instance_

def newNative (function : Bytes) : Mem Ref := allocateObject (.native { function })

def newList : Mem Ref := allocateObject (.list {})

def newArray (count : ℕ) : Mem Ref := do
  if 0 < count then
    reallocate 0 (sizeofValue * count)
  allocateObject (.array { values := List.replicate count .nil })

def newUpvalue (slot : ℤ) : Mem Ref := allocateObject (.upvalue { location := .stack slot })

/-! ### Growing arrays -/

def writeValueToListObj (list : Ref) (value : Value) : Mem Unit := do
  let o ← readMemory fun memory => memory.gc.list? list
  if o.capacity < o.values.length + 1 then
    let capacity := growCapacity o.capacity
    writeObj list (.list { o with capacity })
    reallocate (sizeofValue * o.capacity) (sizeofValue * capacity)
  let o ← readMemory fun memory => memory.gc.list? list
  writeObj list (.list { o with values := o.values ++ [value] })

/-- Write the elements of a list, which are no more than it has room for. -/
def setListValues (list : Ref) (values : List Value) : Mem Unit := do
  let o ← readMemory fun memory => memory.gc.list? list
  writeObj list (.list { o with values })

/-- Write the elements of an array. -/
def setArrayValues (array : Ref) (values : List Value) : Mem Unit := do
  let o ← readMemory fun memory => memory.gc.array? array
  writeObj array (.array { o with values })

/-- Write a byte and its line behind the code of a function. -/
def writeChunk (function : Ref) (byte : CodeByte) : Mem Unit := do
  let o ← functionAt function
  if o.chunk.capacity < o.chunk.code.length + 1 then
    let capacity := growCapacity o.chunk.capacity
    writeObj function (.function { o with chunk := { o.chunk with capacity } })
    reallocate o.chunk.capacity capacity
    reallocate (sizeofInt * o.chunk.capacity) (sizeofInt * capacity)
  let o ← functionAt function
  writeObj function
    (.function { o with chunk := { o.chunk with code := o.chunk.code ++ [byte] } })

/-- `writeValueArray` on the constants of a function. -/
def writeConstant (function : Ref) (value : Value) : Mem Unit := do
  let o ← functionAt function
  let array := o.chunk.constants
  if array.capacity < array.values.length + 1 then
    let capacity := growCapacity array.capacity
    writeObj function
      (.function { o with chunk := { o.chunk with constants := { array with capacity } } })
    reallocate (sizeofValue * array.capacity) (sizeofValue * capacity)
  let o ← functionAt function
  let array := o.chunk.constants
  writeObj function (.function { o with
    chunk := { o.chunk with constants := { array with values := array.values ++ [value] } } })

/-! ### The loader -/

/-- `copyString` of a slice of the unit's arena. -/
def copySlice (compiledUnit : CompiledUnit) (offset length : ℤ) : Mem Ref :=
  if 0 ≤ offset ∧ 0 ≤ length ∧ offset + length ≤ compiledUnit.strings.arena.length then
    copyString ((compiledUnit.strings.arena.drop offset.toNat).take length.toNat)
  else fun _ => none

/-- One round of `allocateFunctions`. The function stays on the stack. -/
def allocateFunction (compiledUnit : CompiledUnit) (compiledFn : CompiledFn) : Mem Ref := do
  let function ← newFunction
  pushOnStack (.obj function)
  let o ← functionAt function
  writeObj function (.function { o with
    arity := compiledFn.arity
    upvalueCount := compiledFn.upvalueCount
    isStatic := compiledFn.isStatic
    isPublic := compiledFn.isPublic })
  if compiledFn.nameLength ≥ 0 then
    let name ← copySlice compiledUnit compiledFn.nameOffset compiledFn.nameLength
    let o ← functionAt function
    writeObj function (.function { o with name })
  compiledFn.code.forM (writeChunk function)
  return function

def allocateFunctions (compiledUnit : CompiledUnit) : Mem (List Ref) :=
  compiledUnit.functions.mapM (allocateFunction compiledUnit)

/-- The function with the given index in the unit. -/
def functionOf (byIndex : List Ref) (functionIndex : ℤ) : Mem Ref := fun memory =>
  if functionIndex < 0 then none else byIndex[functionIndex.toNat]?.map (·, memory)

def resolveConstToValue (compiledUnit : CompiledUnit) (byIndex : List Ref) :
    CompiledConst → Mem Value
  | .number kind payload => return .number kind payload
  | .boolean value => return .boolean value
  | .nil => return .nil
  | .string offset length => do return .obj (← copySlice compiledUnit offset length)
  | .function functionIndex => do return .obj (← functionOf byIndex functionIndex)

/-- The body of the inner loop of `resolveConstsInFunctionsToValues`. -/
def resolveConst (compiledUnit : CompiledUnit) (byIndex : List Ref) (function : Ref)
    (constant : CompiledConst) : Mem Unit := do
  let resolvedValue ← resolveConstToValue compiledUnit byIndex constant
  pushOnStack resolvedValue
  writeConstant function resolvedValue
  let _ ← popFromStack

def resolveConstsInFunctionsToValues (compiledUnit : CompiledUnit) (byIndex : List Ref) : Mem Unit :=
  (compiledUnit.functions.zip byIndex).forM fun (compiledFn, function) =>
    compiledFn.constants.forM (resolveConst compiledUnit byIndex function)

def cleanupFromAllocatingFunctions : ℕ → Mem Unit
  | 0 => return
  | n + 1 => do
    let _ ← popFromStack
    cleanupFromAllocatingFunctions n

/-- Load a unit. Returns the script. -/
def loadUnit (compiledUnit : CompiledUnit) : Mem Ref := do
  let byIndex ← allocateFunctions compiledUnit
  resolveConstsInFunctionsToValues compiledUnit byIndex
  cleanupFromAllocatingFunctions compiledUnit.functions.length
  functionOf byIndex 0

end KirbyLang.Vm
