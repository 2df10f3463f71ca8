import KirbyLang.Allocation
import KirbyLang.Printing

/-!
# Programs of native functions

What a native function may do. Natives are written as programs over the commands below, so what all
commands have in common is true of every native: none of them touches a frame, a variable or an
instance, and what a native pushes on the stack it pops again.

The index of a program says whether it may go on after it has reported an error: a program of type
`Prog false α` ends the process when it reports one.
-/

namespace KirbyLang.Vm

/-- What is outside of the process. `clocks`, `times` and `rands` are the results of successive calls
of `clock`, `time` and `rand`, of which `calls` have been made. -/
structure World where
  stdin : Bytes := []
  stdout : Bytes := []
  stderr : Bytes := []
  files : Bytes → Option Bytes := fun _ => none
  /-- Files that can be opened but not read to their end. -/
  unreadable : Bytes → Bool := fun _ => false
  /-- Files that cannot be opened for writing. -/
  unwritable : Bytes → Bool := fun _ => false
  /-- Text written to open files and still in their buffers, oldest first. -/
  buffered : List (Bytes × Bytes) := []
  environment : Bytes → Option Bytes := fun _ => none
  /-- The names that `setenv` refuses. -/
  setenvRefuses : Bytes → Bool := fun _ => false
  argv : List Bytes := []
  clocks : ℕ → Float := fun _ => 0
  times : ℕ → ℤ := fun _ => 0
  rands : ℕ → ℕ := fun _ => 0
  calls : ℕ := 0

/-- Programs of natives. -/
inductive Prog (goesOn : Bool) : Type → Type 1
  | pure {α : Type} (a : α) : Prog goesOn α
  | bind {α β : Type} (p : Prog goesOn α) (f : α → Prog goesOn β) : Prog goesOn β
  /-- Read an object. -/
  | load (object : Ref) : Prog goesOn Obj
  | takeString (chars : Bytes) : Prog goesOn Ref
  | copyString (chars : Bytes) : Prog goesOn Ref
  /-- Allocate, grow or free a buffer. -/
  | reallocate (oldSize newSize : ℕ) : Prog goesOn Unit
  | newList : Prog goesOn Ref
  | newArray (count : ℕ) : Prog goesOn Ref
  | writeValueToListObj (list : Ref) (value : Value) : Prog goesOn Unit
  /-- Write the elements of a list, which are no more than it has room for. -/
  | setListValues (list : Ref) (values : List Value) : Prog goesOn Unit
  | setArrayValues (array : Ref) (values : List Value) : Prog goesOn Unit
  /-- Push a value, to keep it from being collected, run a program, and pop the value. -/
  | holding {α : Type} (value : Value) (p : Prog goesOn α) : Prog goesOn α
  /-- The text of a value as it is printed, to `stderr` or to `stdout`. -/
  | printed (toErr : Bool) (value : Value) : Prog goesOn Bytes
  | typeName (value : Value) : Prog goesOn Bytes
  | outside {α : Type} (f : World → α × World) : Prog goesOn α
  | exit {α : Type} (code : ℤ) : Prog goesOn α
  /-- `runtimeError` and `exit(EXIT_CODE_RUNTIME_ERR)`. -/
  | fail {α : Type} (message : Bytes) : Prog goesOn α
  /-- `runtimeError` alone. -/
  | report (h : goesOn = true) (message : Bytes) : Prog goesOn Unit
  /-- A value of another kind is read as an object. -/
  | fault {α : Type} : Prog goesOn α

instance (goesOn : Bool) : Monad (Prog goesOn) where
  pure := .pure
  bind := .bind

section Helpers

variable {goesOn : Bool}

/-! ### Reading arguments -/

def isObj (kind : Obj → Bool) : Value → Prog goesOn Bool
  | .obj r => do return kind (← .load r)
  | _ => return false

def asString : Value → Prog goesOn ObjString
  | .obj r => do
    match ← .load r with
    | .string string => return string
    | _ => .fault
  | _ => .fault

/-- The address and the contents of a list. -/
def asList : Value → Prog goesOn (Ref × ObjList)
  | .obj r => do
    match ← .load r with
    | .list list => return (r, list)
    | _ => .fault
  | _ => .fault

def asArray : Value → Prog goesOn ObjArray
  | .obj r => do
    match ← .load r with
    | .array array => return array
    | _ => .fault
  | _ => .fault

/-- Read after the argument is known to be a number. -/
def numberArg : Value → Float
  | .number kind payload => numberToDouble kind payload
  | _ => 0

def f64Value (value : Float) : Value := .number .f64 (.ofF64 value)

def i64Value (value : ℤ) : Value := .number .i64 (.ofInt value)

def u8Value (value : UInt8) : Value := .number .u8 value.toUInt64

/-- The conversion of a double to `int`. Outside the range of `int`, where C leaves it undefined, it
is the one x86 makes. -/
def cInt (value : Float) : ℤ :=
  let i := value.toInt64.toInt
  if -2 ^ 31 ≤ i ∧ i < 2 ^ 31 then i else -2 ^ 31

/-! ### Assertions -/

def raiseError {α : Type} (message : Bytes) : Prog goesOn α := .fail message

def assertArgCount (function : Bytes) (expectedCount actualCount : ℕ) : Prog goesOn Unit :=
  if expectedCount ≠ actualCount then
    .fail (text "function " ++ function ++ text " expects " ++ decimal expectedCount ++
      text " argument(s) but got " ++ decimal actualCount ++ text " instead.")
  else return ()

/-- The assertions on the kind of one argument. -/
def assertArg (expected : String) (is : Value → Prog goesOn Bool) (function : Bytes)
    (args : ℕ → Value) (index : ℕ) : Prog goesOn Unit := do
  if !(← is (args index)) then
    .fail (text "function " ++ function ++ text " expects argument " ++ decimal (index + 1) ++
      text " to be " ++ text expected ++ text ".")

def isNumber : Value → Bool
  | .number _ _ => true
  | _ => false

def isBool : Value → Bool
  | .boolean _ => true
  | _ => false

def assertArgIsBool : Bytes → (ℕ → Value) → ℕ → Prog goesOn Unit :=
  assertArg "a boolean value" fun value => return isBool value

def assertArgIsStruct : Bytes → (ℕ → Value) → ℕ → Prog goesOn Unit :=
  assertArg "a struct" (isObj fun o => o.struct?.isSome)

def assertArgIsList : Bytes → (ℕ → Value) → ℕ → Prog goesOn Unit :=
  assertArg "a list" (isObj fun o => o.list?.isSome)

def assertArgIsArray : Bytes → (ℕ → Value) → ℕ → Prog goesOn Unit :=
  assertArg "an array" (isObj fun o => o.array?.isSome)

def assertArgIsNumber : Bytes → (ℕ → Value) → ℕ → Prog goesOn Unit :=
  assertArg "a number" fun value => return isNumber value

def assertArgIsAnyNumber : Bytes → (ℕ → Value) → ℕ → Prog goesOn Unit :=
  assertArg "a number" fun value => return isNumber value

def assertArgIsString : Bytes → (ℕ → Value) → ℕ → Prog goesOn Unit :=
  assertArg "a string" (isObj fun o => o.string?.isSome)

/-- `assertIsInListBounds` and `assertIsInArrayBounds`. -/
def assertIsInBounds (what : String) (count : ℕ) (index : ℤ) : Prog goesOn Unit :=
  if index < 0 ∨ count < index then
    .fail (text "index " ++ decimal index ++ text " out of bounds. " ++ text what ++
      text " length: " ++ decimal count)
  else return ()

def assertIsInListBounds (list : ObjList) (index : ℤ) : Prog goesOn Unit :=
  assertIsInBounds "list" list.values.length index

def assertIsInArrayBounds (array : ObjArray) (index : ℤ) : Prog goesOn Unit :=
  assertIsInBounds "array" array.values.length index

section Numbers

variable (libc : Libc)

def assertPositiveNumber (function : Bytes) (value : Float) (argIndex : ℕ) : Prog goesOn Unit :=
  if value ≤ 0 then
    .fail (text "function " ++ function ++ text " expects argument " ++ decimal argIndex ++
      text " to be a positive number but got " ++ libc.general value ++ text ".")
  else return ()

def assertGtEq (function : Bytes) (value comparison : Float) (argIndex : ℕ) : Prog goesOn Unit :=
  if comparison ≤ value then return ()
  else .fail (text "function " ++ function ++ text " expects argument " ++ decimal (argIndex + 1) ++
      text " to be greater than or equal to " ++ libc.general comparison ++ text " but got " ++
      libc.general value ++ text ".")

def assertLtEq (function : Bytes) (value comparison : Float) (argIndex : ℕ) : Prog goesOn Unit :=
  if value ≤ comparison then return ()
  else .fail (text "function " ++ function ++ text " expects argument " ++ decimal (argIndex + 1) ++
      text " to be less than or equal to " ++ libc.general comparison ++ text " but got " ++
      libc.general value ++ text ".")

def assertNonNegativeNumber (function : Bytes) (number : Float) (index : ℕ) : Prog goesOn Unit :=
  if number < 0 then
    .fail (text "function " ++ function ++ text " expects argument " ++ decimal (index + 1) ++
      text " to be a non-negative number but got " ++ libc.general number ++ text ".")
  else return ()

def assertWholeNumber (function : Bytes) (number : Float) (index : ℕ) : Prog goesOn Unit :=
  if number != number.floor then
    .fail (text "function " ++ function ++ text " expects argument " ++ decimal (index + 1) ++
      text " to be a whole number but got " ++ libc.general number ++ text ".")
  else return ()

end Numbers

end Helpers

end KirbyLang.Vm
