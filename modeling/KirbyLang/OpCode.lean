import Mathlib.Data.Int.Notation
import Mathlib.Data.Nat.Notation
import Mathlib.Tactic.IntervalCases

/-!
# The instruction set

`opcode.h` and `opcode.c`: the opcodes in the order of the C enumeration, and the table that says
how each is encoded and how it changes the stack height.
-/

namespace KirbyLang

inductive OpCode
  | constant | nil | true_ | false_ | add | subtract | multiply | divide | modulo | negate
  | print | return_ | equal | not_ | pop | closeUpvalue | defineGlobal | getGlobal | setGlobal
  | getUpvalue | setUpvalue | getLocal | setLocal | jumpIfFalse | jumpIfNotNil | jump | loop
  | greater | less | call | closure | struct_ | structInit | field | getProperty | setProperty
  | method | invoke | list | getIndex | setIndex | closeBlockExpr | cast | array
  deriving DecidableEq, Repr

namespace OpCode

/-- The opcodes in the order of the enumeration. -/
def all : List OpCode :=
  [constant, nil, true_, false_, add, subtract, multiply, divide, modulo, negate,
    print, return_, equal, not_, pop, closeUpvalue, defineGlobal, getGlobal, setGlobal,
    getUpvalue, setUpvalue, getLocal, setLocal, jumpIfFalse, jumpIfNotNil, jump, loop,
    greater, less, call, closure, struct_, structInit, field, getProperty, setProperty,
    method, invoke, list, getIndex, setIndex, closeBlockExpr, cast, array]

/-- The enumeration's number for an opcode. -/
def toByte (op : OpCode) : UInt8 := UInt8.ofNat op.ctorIdx

/-- `(OpCode)b`, or `none` when `b >= OP_COUNT`. -/
def ofByte? (b : UInt8) : Option OpCode := all[b.toNat]?

@[simp] theorem ofByte?_toByte (op : OpCode) : ofByte? op.toByte = some op := by
  cases op <;> rfl

theorem toByte_of_ofByte? {b : UInt8} {op : OpCode} (h : ofByte? b = some op) : op.toByte = b := by
  have hlt : b.toNat < 44 := (List.getElem?_eq_some_iff.mp h).1
  apply UInt8.toNat_inj.mp
  generalize hn : b.toNat = n at *
  unfold ofByte? at h
  rw [hn] at h
  interval_cases n <;> cases h <;> rfl

end OpCode

/-- How an instruction is encoded and how it changes the stack. `countOperand` says which operand
byte holds a count, and `perCount` is added to the effect for each unit of it. -/
structure OpInfo where
  operandBytes : ℕ
  stackEffect : ℤ
  countOperand : Option ℕ := none
  perCount : ℤ := 0
  deriving DecidableEq, Repr

def opInfo : OpCode → OpInfo
  | .constant => ⟨1, 1, none, 0⟩
  | .nil => ⟨0, 1, none, 0⟩
  | .true_ => ⟨0, 1, none, 0⟩
  | .false_ => ⟨0, 1, none, 0⟩
  | .add => ⟨0, -1, none, 0⟩
  | .subtract => ⟨0, -1, none, 0⟩
  | .multiply => ⟨0, -1, none, 0⟩
  | .divide => ⟨0, -1, none, 0⟩
  | .modulo => ⟨0, -1, none, 0⟩
  | .negate => ⟨0, 0, none, 0⟩
  | .print => ⟨0, -1, none, 0⟩
  | .return_ => ⟨0, -1, none, 0⟩
  | .equal => ⟨0, -1, none, 0⟩
  | .not_ => ⟨0, 0, none, 0⟩
  | .pop => ⟨0, -1, none, 0⟩
  | .closeUpvalue => ⟨0, -1, none, 0⟩
  | .defineGlobal => ⟨1, -1, none, 0⟩
  | .getGlobal => ⟨1, 1, none, 0⟩
  | .setGlobal => ⟨1, 0, none, 0⟩
  | .getUpvalue => ⟨1, 1, none, 0⟩
  | .setUpvalue => ⟨1, 0, none, 0⟩
  | .getLocal => ⟨1, 1, none, 0⟩
  | .setLocal => ⟨1, 0, none, 0⟩
  | .jumpIfFalse => ⟨2, 0, none, 0⟩
  | .jumpIfNotNil => ⟨2, 0, none, 0⟩
  | .jump => ⟨2, 0, none, 0⟩
  | .loop => ⟨2, 0, none, 0⟩
  | .greater => ⟨0, -1, none, 0⟩
  | .less => ⟨0, -1, none, 0⟩
  -- The callee and its arguments become the result.
  | .call => ⟨1, 0, some 0, -1⟩
  | .closure => ⟨1, 1, none, 0⟩
  | .struct_ => ⟨1, 1, none, 0⟩
  -- The struct and a name and value per field become the instance.
  | .structInit => ⟨1, 0, some 0, -2⟩
  | .field => ⟨3, -1, none, 0⟩
  | .getProperty => ⟨1, 0, none, 0⟩
  | .setProperty => ⟨1, -1, none, 0⟩
  | .method => ⟨1, -1, none, 0⟩
  -- The receiver and its arguments become the result.
  | .invoke => ⟨2, 0, some 1, -1⟩
  | .list => ⟨1, 1, some 0, -1⟩
  | .getIndex => ⟨0, -1, none, 0⟩
  | .setIndex => ⟨0, -2, none, 0⟩
  -- The block's locals are removed from under its result.
  | .closeBlockExpr => ⟨1, 0, some 0, -1⟩
  | .cast => ⟨1, 0, none, 0⟩
  | .array => ⟨1, 1, some 0, -1⟩

/-- `info->stackEffect + info->perCount * count`. -/
def OpCode.effect (op : OpCode) (count : ℕ) : ℤ :=
  (opInfo op).stackEffect + (opInfo op).perCount * count

end KirbyLang
