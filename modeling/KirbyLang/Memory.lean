import KirbyLang.Object
import KirbyLang.OpCode

/-!
# The memory of the virtual machine

The collector's state (`gc.h`) and the part of `struct VM` (`vm.h`) that holds values. The heap maps
the addresses of the objects that have not been freed; a step that reads another address gives
`none`.

`trace` is not in the source. It records, newest first, what the theorems about runs speak about.
-/

namespace KirbyLang.Vm

/-- The state of the collector. `objects` is the list through the `next` fields, newest object
first, and `isMarked` is the field of that name. `policy` says at which allocations a collection is
made, from the number of allocations before, `bytesAllocated` and `nextGC`. -/
structure GC where
  bytesAllocated : UInt64 := 0
  nextGC : UInt64 := 1024 * 1024
  heap : Ref → Option Obj := fun _ => none
  isMarked : Ref → Bool := fun _ => false
  objects : List Ref := []
  nextRef : Ref := 1
  strings : Table Ref Value := {}
  grayStack : List Ref := []
  allocations : ℕ := 0
  policy : ℕ → UInt64 → UInt64 → Bool

/-- Collect when the threshold is passed. -/
def thresholdPolicy : ℕ → UInt64 → UInt64 → Bool :=
  fun _ bytesAllocated nextGC => decide (nextGC < bytesAllocated)

/-- `DEBUG_STRESS_GC`: collect at every allocation. -/
def stressPolicy : ℕ → UInt64 → UInt64 → Bool := fun _ _ _ => true

/-- `ip` is the position in the code of the closure's function. -/
structure CallFrame where
  closure : Ref
  ip : ℤ
  slots : ℤ
  deriving DecidableEq, Repr

/-- What a run does that the theorems about runs speak about. -/
inductive Event
  /-- An instruction is read. -/
  | instruction (op : OpCode)
  /-- A value has been pushed, and the stack pointer is now at `top`. -/
  | push (top : ℤ)
  /-- The stack pointer has been lowered to `top`. -/
  | pop (top : ℤ)
  /-- `runtimeError` has been called. -/
  | report (message : Bytes)
  /-- A member of `struct_` has been looked up by its name and is used, while the innermost frame
  runs a closure with the given owner. -/
  | access (struct_ : Ref) (isPublic : Bool) (owner : Ref)
  deriving DecidableEq, Repr

/-- `frames` has the innermost frame first; `openUpvalues` is the list through the upvalues' `next`
fields. Positions of the stack count from its base. -/
structure Memory where
  gc : GC
  stack : ℤ → Value := fun _ => .nil
  stackTop : ℤ := 0
  frames : List CallFrame := []
  globals : Table Ref Value := {}
  openUpvalues : List Ref := []
  trace : List Event := []

namespace GC

def struct? (gc : GC) (r : Ref) : Option ObjStruct := (gc.heap r).bind Obj.struct?
def instance? (gc : GC) (r : Ref) : Option ObjInstance := (gc.heap r).bind Obj.instance?
def boundMethod? (gc : GC) (r : Ref) : Option ObjBoundMethod := (gc.heap r).bind Obj.boundMethod?
def closure? (gc : GC) (r : Ref) : Option ObjClosure := (gc.heap r).bind Obj.closure?
def function? (gc : GC) (r : Ref) : Option ObjFunction := (gc.heap r).bind Obj.function?
def native? (gc : GC) (r : Ref) : Option ObjNative := (gc.heap r).bind Obj.native?
def string? (gc : GC) (r : Ref) : Option ObjString := (gc.heap r).bind Obj.string?
def upvalue? (gc : GC) (r : Ref) : Option ObjUpvalue := (gc.heap r).bind Obj.upvalue?
def list? (gc : GC) (r : Ref) : Option ObjList := (gc.heap r).bind Obj.list?
def array? (gc : GC) (r : Ref) : Option ObjArray := (gc.heap r).bind Obj.array?

/-- The `hash` field of a string. -/
def hash (gc : GC) (r : Ref) : ℕ :=
  match gc.string? r with
  | some string => string.hash.toNat
  | none => 0

theorem string?_eq_some {gc : GC} {r : Ref} {s : ObjString} :
    gc.string? r = some s ↔ gc.heap r = some (.string s) := by
  unfold string?
  cases gc.heap r <;> simp

theorem struct?_eq_some {gc : GC} {r : Ref} {s : ObjStruct} :
    gc.struct? r = some s ↔ gc.heap r = some (.struct_ s) := by
  unfold struct?
  cases gc.heap r <;> simp

end GC

end KirbyLang.Vm
