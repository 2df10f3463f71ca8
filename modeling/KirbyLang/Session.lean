import KirbyLang.Compiler
import KirbyLang.Interning
import KirbyLang.Interpreter
import KirbyLang.Parser

/-!
# Sessions

`initVM` and `defineAllNatives`, and the states a machine is in between the units it is given: the
lines typed at the prompt, or the standard library and the program.
-/

namespace KirbyLang.Vm

/-- The name and the native are the only values on the stack. -/
def defineNative (name : Bytes) : Mem Unit := do
  let string ← copyString name
  pushOnStack (.obj string)
  let native ← newNative name
  pushOnStack (.obj native)
  let key ← readMemory fun memory =>
    match memory.stack 0 with
    | .obj r => some r
    | _ => none
  let value ← readMemory fun memory => some (memory.stack 1)
  let _ ← tableSet .globals key value
  let _ ← popFromStack
  let _ ← popFromStack

def defineAllNatives (host : Host) : Mem Unit :=
  (nativeDefinitions host.libc host.version).forM fun definition => defineNative (text definition.1)

def initVM (host : Host) (policy : ℕ → UInt64 → UInt64 → Bool) (world : World) : Option VM := do
  let (_, memory) ← defineAllNatives host (Memory.initial policy)
  return { toMemory := memory, world }

/-- The states between the units of a session. A unit that runs into an error does not end it. -/
inductive Session (host : Host) : VM → Prop
  | start {policy : ℕ → UInt64 → UInt64 → Bool} {world : World} {vm : VM}
      (h : initVM host policy world = some vm) : Session host vm
  | input {vm vm' : VM} {compiledUnit : CompiledUnit} {rounds : ℕ} {result : InterpretResult}
      (session : Session host vm)
      (h : interpret host compiledUnit rounds vm = (.ok (some result), vm')) : Session host vm'

theorem exists_of_any {α : Type} {p : α → Bool} {o : Option α} (h : o.any p = true) :
    ∃ a, o = some a ∧ p a = true := by
  cases o with
  | none => cases h
  | some a => exact ⟨a, rfl, h⟩

/-- The result of a run that does not stop, with the machine behind it. -/
def finished {α : Type} : Except Stop α × VM → Option (α × VM)
  | (.ok result, vm) => some (result, vm)
  | (.error _, _) => none

theorem eq_of_finished {α : Type} {run : Except Stop α × VM} {ended : α × VM}
    (h : finished run = some ended) : run = (.ok ended.1, ended.2) := by
  obtain ⟨_ | result, vm⟩ := run
  · cases h
  · cases h
    rfl

/-- A host with the C library for programs without floats. -/
def plainHost : Host := { libc := plainLibc }

/-- The program that a text is. -/
def parsed (source : String) : Option (List AstNode) :=
  match Parsing.parse plainLibc (ascii source) with
  | some (program, p) => if p.errors = [] then some program else none
  | none => none

/-- The unit of a program that is compiled first. -/
def compiled (program : List AstNode) : Option CompiledUnit := (compile {} program 1).1

def numberNode (value : UInt64) : AstNode :=
  .literal 1 (.number { kind := .i64, payload := value })

/-- A program that ends with an error. -/
def outOfBounds : String := "let xs: [bool] = [true]; let i = 5; xs[i];"

def callNode (callee : AstNode) (args : List AstNode) : AstNode :=
  .call 1 callee (tokenFromCString ")") args false

end KirbyLang.Vm
