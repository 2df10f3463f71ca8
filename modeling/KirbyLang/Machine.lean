import KirbyLang.Construction
import KirbyLang.Native

/-!
# The machine

The state of the virtual machine and the programs of the interpreter over it: `runtimeError`, what
it reads from the heap, and the running of natives.

* `Stop`: how the process can end in the middle of a program;
* `M`: the programs;
* `runtimeError`: the report of an error, after which the stack and the frames are gone;
* `Prog.run`: a native's program as a program of the machine.
-/

namespace KirbyLang.Vm

structure VM extends Memory where
  world : World := {}

/-- The end of the process: by `exit`, or because memory is read or written that is not an object of
the kind the code takes it for. -/
inductive Stop
  | exit (code : ℤ)
  | fault
  deriving DecidableEq, Repr

/-- Programs of the interpreter. -/
abbrev M := ExceptT Stop (StateM VM)

def exitRuntimeError : ℤ := 70

def fault {α : Type} : M α := throw .fault

def exit {α : Type} (code : ℤ) : M α := throw (.exit code)

def orFault {α : Type} : Option α → M α
  | some a => return a
  | none => fault

def liftMem {α : Type} (p : Mem α) : M α := fun vm =>
  match p vm.toMemory with
  | some (a, memory) => (.ok a, { vm with toMemory := memory })
  | none => (.error .fault, vm)

/-- Note that something has happened. -/
def VM.logged (vm : VM) (event : Event) : VM := { vm with trace := event :: vm.trace }

/-! ### The stack -/

/-- `pushOnStack`. -/
def push (value : Value) : M Unit := liftMem (pushOnStack value)

/-- `popFromStack`. -/
def pop : M Value := liftMem popFromStack

/-- `popNFromStack`, and the other places that lower `stackTop`. -/
def popN (count : ℤ) : M Unit := liftMem (popNFromStack count)

def peekStack (distance : ℤ) : M Value := do
  let vm ← get
  return vm.stack (vm.stackTop - 1 - distance)

/-- Write a slot of the value stack. -/
def setSlot (slot : ℤ) (value : Value) : M Unit :=
  modify fun vm => { vm with stack := Function.update vm.stack slot value }

/-! ### Reading objects -/

def deref (r : Ref) : M Obj := do orFault ((← get).gc.heap r)

def structAt (r : Ref) : M ObjStruct := do orFault ((← get).gc.struct? r)

def closureAt (r : Ref) : M ObjClosure := do orFault ((← get).gc.closure? r)

def functionOfClosure (r : Ref) : M ObjFunction := do
  let closure ← closureAt r
  orFault ((← get).gc.function? closure.function)

def instanceAt (r : Ref) : M ObjInstance := do orFault ((← get).gc.instance? r)

def stringAt (r : Ref) : M ObjString := do orFault ((← get).gc.string? r)

def upvalueAt (r : Ref) : M ObjUpvalue := do orFault ((← get).gc.upvalue? r)

/-- The object that a value is. -/
def objectOf : Value → M (Option (Ref × Obj))
  | .obj r => do return some (r, ← deref r)
  | _ => return none

/-- `AS_CLOSURE`. -/
def asClosure : Value → M Ref
  | .obj r => do
    let _ ← closureAt r
    return r
  | _ => fault

/-- `AS_STRING`. -/
def asStringRef : Value → M Ref
  | .obj r => do
    let _ ← stringAt r
    return r
  | _ => fault

/-- The text of a string as `%s` writes it. -/
def textOf (r : Ref) : M Bytes := do return cString (← stringAt r).chars

/-- `tableGet` on a table with the keys of the heap. -/
def lookup (table : Table Ref Value) (key : Ref) : M (Option Value) := do
  orFault (tableGet (← get).gc.hash table key)

/-! ### Errors -/

/-- The line of an instruction that has been read up to `ip`; outside of the code it is nothing that
could be named. -/
def lineText (function : ObjFunction) (ip : ℤ) : Bytes :=
  if 0 < ip then
    match function.chunk.code[(ip - 1).toNat]? with
    | some code => decimal code.line
    | none => []
  else []

/-- What a frame adds to the report of an error. -/
def frameText (gc : GC) (frame : CallFrame) : Bytes :=
  match (gc.closure? frame.closure).bind fun closure => gc.function? closure.function with
  | some function =>
    text "[line " ++ lineText function frame.ip ++ text "] in " ++
      (if function.name = null then text "script"
      else (gc.nameText function.name).getD [] ++ text "()") ++ text "\n"
  | none => []

def VM.resetStack (vm : VM) : VM := { vm with stackTop := 0, frames := [], openUpvalues := [] }

/-- Print the message and the frames, innermost first, and reset the stack. -/
def VM.afterError (vm : VM) (message : Bytes) : VM :=
  let report := message ++ text "\n" ++ (vm.frames.map (frameText vm.gc)).flatten
  ({ vm with world := { vm.world with stderr := vm.world.stderr ++ report } }.logged
    (.report message)).resetStack

def runtimeError (message : Bytes) : M Unit := modify fun vm => vm.afterError message

/-- Report an error and return `false`. -/
def refuse (message : Bytes) : M Bool := do
  runtimeError message
  return false

/-- Report an error and end the process. -/
def die {α : Type} (message : Bytes) : M α := do
  runtimeError message
  exit exitRuntimeError

/-! ### Natives -/

variable (libc : Libc)

/-- The text that `printValue` or `printValueToErr` makes. A list that contains itself has none. -/
def printedText (toErr : Bool) (value : Value) : M Bytes := do
  let gc := (← get).gc
  orFault (if toErr then printValueToErr libc gc value
    else printValue libc gc (gc.objects.length + 1) value)

/-- Run a native's program. -/
def Prog.run {goesOn : Bool} : {α : Type} → Prog goesOn α → M α
  | _, .pure a => do return a
  | _, .bind p f => p.run >>= fun a => (f a).run
  | _, .load object => deref object
  | _, .takeString chars => liftMem (Vm.takeString chars)
  | _, .copyString chars => liftMem (Vm.copyString chars)
  | _, .reallocate oldSize newSize => liftMem (Vm.reallocate oldSize newSize)
  | _, .newList => liftMem Vm.newList
  | _, .newArray count => liftMem (Vm.newArray count)
  | _, .writeValueToListObj list value => liftMem (Vm.writeValueToListObj list value)
  | _, .setListValues list values => liftMem (Vm.setListValues list values)
  | _, .setArrayValues array values => liftMem (Vm.setArrayValues array values)
  | _, .holding value p => do
    push value
    let result ← p.run
    let _ ← pop
    return result
  | _, .printed toErr value => printedText libc toErr value
  | _, .typeName value => do orFault (valueTypeToString (← get).gc value)
  | _, .outside f => modifyGet fun vm => ((f vm.world).1, { vm with world := (f vm.world).2 })
  | _, .exit code => Vm.exit code
  | _, .fail message => die message
  | _, .report _ message => runtimeError message
  | _, .fault => Vm.fault

def Native.run : Native → ℕ → (ℕ → Value) → M Value
  | .stops fn, argCount, args => (fn argCount args).run libc
  | .goesOn fn, argCount, args => (fn argCount args).run libc

end KirbyLang.Vm
