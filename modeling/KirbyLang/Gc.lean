import KirbyLang.Memory

/-!
# The collector

The marking and sweeping of `gc.c`, and the marking of the VM's roots in `vm.c`. A step that reads
an object that has been freed gives `none`.
-/

namespace KirbyLang.Vm

/-- `reallocate`, but for the collection it may make. -/
def GC.account (gc : GC) (oldSize newSize : ℕ) : GC :=
  { gc with bytesAllocated := gc.bytesAllocated + (UInt64.ofNat newSize - UInt64.ofNat oldSize) }

/-! ### Marking -/

def markObject (gc : GC) (object : Ref) : Option GC :=
  if object = null then some gc
  else match gc.heap object with
    | none => none
    | some _ =>
      if gc.isMarked object then some gc
      else some { gc with
        isMarked := Function.update gc.isMarked object true
        grayStack := object :: gc.grayStack }

def markValue (gc : GC) : Value → Option GC
  | .obj object => markObject gc object
  | _ => some gc

/-- `markArray`, and the loops over the values of lists and arrays. -/
def markArray (gc : GC) (values : List Value) : Option GC := values.foldlM markValue gc

/-- One round of the loop of `markTable`. The value of a tombstone is a boolean. -/
def markEntry (table : Table Ref Value) (gc : GC) (i : ℕ) : Option GC :=
  match table.entries i with
  | .full key value => do
    let gc ← markObject gc key
    markValue gc value
  | _ => some gc

def markTable (gc : GC) (table : Table Ref Value) : Option GC :=
  (List.range table.capacity).foldlM (markEntry table) gc

def blackenObject (gc : GC) (object : Ref) : Option GC := do
  match ← gc.heap object with
  | .struct_ struct_ =>
    let gc ← markObject gc struct_.name
    let gc ← markTable gc struct_.methods
    markTable gc struct_.fields
  | .instance_ instance_ =>
    let gc ← markObject gc instance_.struct_
    match instance_.fields with
    | none => some gc
    | some fields =>
      let struct_ ← gc.struct? instance_.struct_
      if struct_.fieldCount ≤ fields.length then markArray gc (fields.take struct_.fieldCount)
      else none
  | .boundMethod bound =>
    let gc ← markValue gc bound.receiver
    markObject gc bound.method
  | .upvalue upvalue => markValue gc upvalue.closed
  | .closure closure =>
    let gc ← markObject gc closure.function
    let gc ← markObject gc closure.owner
    closure.upvalues.foldlM markObject gc
  | .function function =>
    let gc ← markObject gc function.name
    markArray gc function.chunk.constants.values
  | .list list => markArray gc list.values
  | .array array => markArray gc array.values
  | .native _ => some gc
  | .string _ => some gc

/-- The loop of `traceReferences`, for at most the given number of rounds. -/
def traceReferences : ℕ → GC → Option GC
  | 0, gc => if gc.grayStack = [] then some gc else none
  | rounds + 1, gc =>
    match gc.grayStack with
    | [] => some gc
    | object :: rest => do
      let gc ← blackenObject { gc with grayStack := rest } object
      traceReferences rounds gc

def markVMRoots (memory : Memory) : Option GC := do
  let gc ← markArray memory.gc
    ((List.range memory.stackTop.toNat).map fun slot : ℕ => memory.stack slot)
  let gc ← (memory.frames.reverse.map CallFrame.closure).foldlM markObject gc
  let gc ← memory.openUpvalues.foldlM markObject gc
  markTable gc memory.globals

/-! ### Sweeping -/

/-- The size of the blocks that an object owns. The size of an instance's fields is read from its
struct. -/
def GC.ownedSize (gc : GC) : Obj → Option ℕ
  | .struct_ o => some (sizeofEntry * o.methods.capacity + sizeofEntry * o.fields.capacity)
  | .instance_ o => (gc.struct? o.struct_).map fun struct_ => sizeofValue * struct_.fieldCount
  | .boundMethod _ => some 0
  | .closure o => some (sizeofPointer * o.upvalues.length)
  | .function o =>
    some (o.chunk.capacity + sizeofInt * o.chunk.capacity +
      sizeofValue * o.chunk.constants.capacity)
  | .native _ => some 0
  | .string o => some (o.chars.length + 1)
  | .upvalue _ => some 0
  | .list o => some (sizeofValue * o.capacity)
  | .array o => some (sizeofValue * o.values.length)

def freeObject (gc : GC) (object : Ref) : Option GC := do
  let o ← gc.heap object
  let owned ← gc.ownedSize o
  return { gc.account (owned + o.sizeof) 0 with heap := Function.update gc.heap object none }

/-- The loop of `sweep` over the objects from `object` on; `kept` are those it has gone past, last
one first. -/
def sweepLoop (kept : List Ref) : List Ref → GC → Option GC
  | [], gc => some { gc with objects := kept.reverse }
  | object :: rest, gc => do
    let _ ← gc.heap object
    if gc.isMarked object then
      sweepLoop (object :: kept) rest
        { gc with isMarked := Function.update gc.isMarked object false }
    else do
      let gc ← freeObject gc object
      sweepLoop kept rest gc

def sweep (gc : GC) : Option GC := sweepLoop [] gc.objects gc

/-- Every object is marked at most once, which bounds the rounds of `traceReferences`. -/
def collectGarbage (memory : Memory) : Option Memory := do
  let gc ← markVMRoots memory
  let gc ← traceReferences gc.objects.length gc
  let strings ← tableRemoveWhite gc.hash gc.isMarked gc.strings
  let gc ← sweep { gc with strings }
  return { memory with gc := { gc with nextGC := gc.bytesAllocated * 2 } }

end KirbyLang.Vm
