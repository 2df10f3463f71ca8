import KirbyLang.Gc

/-!
# Allocation

`reallocate` (`gc.c`), the constructors of objects (`object.c`), the value stack (`vm.c`), and the
half of `tableSet` that may allocate (`hashtable.c`). A program of type `Mem` gives `none` when it
reads an object that has been freed.
-/

namespace KirbyLang.Vm

/-- Programs over the memory. -/
abbrev Mem := StateT Memory Option

/-- Account for a block that changes its size, and collect when the policy says so. -/
def reallocate (oldSize newSize : ℕ) : Mem Unit := fun memory => do
  let gc := memory.gc.account oldSize newSize
  if oldSize < newSize then
    let counted := { memory with gc := { gc with allocations := gc.allocations + 1 } }
    if gc.policy gc.allocations gc.bytesAllocated gc.nextGC then
      let collected ← collectGarbage counted
      return ((), collected)
    else return ((), counted)
  else return ((), { memory with gc })

/-- Link a new object in front of the others. -/
def GC.link (gc : GC) (o : Obj) : GC :=
  { gc with
    heap := Function.update gc.heap gc.nextRef (some o)
    isMarked := Function.update gc.isMarked gc.nextRef false
    objects := gc.nextRef :: gc.objects
    nextRef := gc.nextRef + 1 }

/-- `allocateObject`, with the fields that the constructor fills in before it allocates again. -/
def allocateObject (o : Obj) : Mem Ref := do
  reallocate 0 o.sizeof
  fun memory => some (memory.gc.nextRef, { memory with gc := memory.gc.link o })

/-! ### The value stack -/

def Memory.pushed (memory : Memory) (value : Value) : Memory :=
  { memory with
    stack := Function.update memory.stack memory.stackTop value
    stackTop := memory.stackTop + 1
    trace := .push (memory.stackTop + 1) :: memory.trace }

def pushOnStack (value : Value) : Mem Unit := fun memory => some ((), memory.pushed value)

def Memory.popped (memory : Memory) (count : ℤ) : Memory :=
  { memory with
    stackTop := memory.stackTop - count
    trace := .pop (memory.stackTop - count) :: memory.trace }

def popFromStack : Mem Value := fun memory =>
  some (memory.stack (memory.stackTop - 1), memory.popped 1)

def popNFromStack (count : ℤ) : Mem Unit := fun memory => some ((), memory.popped count)

/-! ### Tables -/

/-- The tables of the memory. -/
inductive TablePlace
  | strings
  | globals
  | methods (struct_ : Ref)
  | fields (struct_ : Ref)
  deriving DecidableEq, Repr

def TablePlace.read (memory : Memory) : TablePlace → Option (Table Ref Value)
  | .strings => some memory.gc.strings
  | .globals => some memory.globals
  | .methods struct_ => (memory.gc.struct? struct_).map ObjStruct.methods
  | .fields struct_ => (memory.gc.struct? struct_).map ObjStruct.fields

/-- Write an object over the one at an address. -/
def Memory.setObj (memory : Memory) (r : Ref) (o : Obj) : Memory :=
  { memory with gc := { memory.gc with heap := Function.update memory.gc.heap r (some o) } }

def TablePlace.write (memory : Memory) (table : Table Ref Value) : TablePlace → Option Memory
  | .strings => some { memory with gc := { memory.gc with strings := table } }
  | .globals => some { memory with globals := table }
  | .methods struct_ => do
    let o ← memory.gc.struct? struct_
    return memory.setObj struct_ (.struct_ { o with methods := table })
  | .fields struct_ => do
    let o ← memory.gc.struct? struct_
    return memory.setObj struct_ (.struct_ { o with fields := table })

/-- The table is read again after each allocation, for a collection may change it. -/
def tableSet (place : TablePlace) (key : Ref) (value : Value) : Mem Bool := do
  let table ← fun memory => (place.read memory).map (·, memory)
  if table.needsGrowth then
    let capacity := growCapacity table.capacity
    reallocate 0 (sizeofEntry * capacity)
    fun memory => do
      let table ← place.read memory
      let grown ← table.adjustCapacity memory.gc.hash capacity
      let memory ← place.write memory grown
      return ((), memory)
    reallocate (sizeofEntry * table.capacity) 0
  fun memory => do
    let table ← place.read memory
    let (table, isNewKey) ← table.put memory.gc.hash key value
    let memory ← place.write memory table
    return (isNewKey, memory)

/-! ### Strings -/

/-- The comparison of `tableFindString`. -/
def GC.hasText (gc : GC) (chars : Bytes) (hash : UInt32) (key : Ref) : Bool :=
  match gc.string? key with
  | some string =>
    string.chars.length == chars.length && string.hash == hash && string.chars == chars
  | none => false

def findString (chars : Bytes) : Mem (Option Ref) := fun memory => do
  let hash := hashBytes chars
  let found ← tableFindString memory.gc.strings (memory.gc.hasText chars hash) hash.toNat
  return (found, memory)

/-- The new string is on the stack while the intern table may grow. -/
def allocateString (chars : Bytes) (hash : UInt32) : Mem Ref := do
  let string ← allocateObject (.string { chars, hash })
  pushOnStack (.obj string)
  let _ ← tableSet .strings string .nil
  let _ ← popFromStack
  return string

/-- Make a string of a buffer, which is freed when the string is there already. -/
def takeString (chars : Bytes) : Mem Ref := do
  match ← findString chars with
  | some interned => do
    reallocate (chars.length + 1) 0
    return interned
  | none => allocateString chars (hashBytes chars)

def copyString (chars : Bytes) : Mem Ref := do
  match ← findString chars with
  | some interned => return interned
  | none => do
    reallocate 0 (chars.length + 1)
    allocateString chars (hashBytes chars)

end KirbyLang.Vm
