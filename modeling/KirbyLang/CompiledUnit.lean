import KirbyLang.NumberKind
import Mathlib.Data.List.Basic

/-!
# Compiled units

The artifact between the compiler and the virtual machine (`compiled_unit.h`): a list of
functions with their bytecode, constants and captured variables, over one arena of interned
strings. `functions[0]` is the implicit top-level script.

C's `int` fields are integers here; the arrays carry their own counts, and an instruction byte is
kept together with its line because the two arrays of C share one count.
-/

namespace KirbyLang

/-- Raw bytes: names, string contents and encoded files. -/
abbrev Bytes := List UInt8

/-! ### Interned strings -/

/-- A set of byte strings (`stringset.h`): an arena and, for every string in it, where it starts
and how long it is. The hash index of C only speeds up the lookup and is left out. -/
structure StringSet where
  arena : Bytes := []
  entries : List (ℕ × ℕ) := []
  deriving DecidableEq, Repr

/-- The bytes of an entry. -/
def StringSet.text (set : StringSet) (entry : ℕ × ℕ) : Bytes :=
  (set.arena.drop entry.1).take entry.2

/-- The slot for `chars`, if it is present. -/
def StringSet.find? (set : StringSet) (chars : Bytes) : Option (ℕ × ℕ) :=
  set.entries.find? fun entry => entry.2 == chars.length && set.text entry == chars

def stringSetContains (set : StringSet) (chars : Bytes) : Bool := (set.find? chars).isSome

/-- The offset of `chars`, appended to the arena when it is not there yet. -/
def stringSetIntern (set : StringSet) (chars : Bytes) : ℕ × StringSet :=
  match set.find? chars with
  | some entry => (entry.1, set)
  | none => (set.arena.length,
      { arena := set.arena ++ chars
        entries := set.entries ++ [(set.arena.length, chars.length)] })

def stringSetAdd (set : StringSet) (chars : Bytes) : StringSet := (stringSetIntern set chars).2

/-! ### Functions -/

/-- A constant. A string is a slice of the unit's arena, a function an index into the unit. -/
inductive CompiledConst
  | number (kind : NumberKind) (payload : NumberPayload)
  | boolean (value : Bool)
  | nil
  | string (offset length : ℤ)
  | function (functionIndex : ℤ)
  deriving DecidableEq, Repr

/-- A variable captured by a compiled function. -/
structure CompiledUpvalue where
  isLocal : Bool
  index : UInt8
  deriving DecidableEq, Repr

/-- One byte of bytecode and its source line. -/
structure CodeByte where
  byte : UInt8
  line : ℤ
  deriving DecidableEq, Repr

/-- A compiled function. A negative `nameLength` means it has no name. The defaults are those of
`cuInitFn`. -/
structure CompiledFn where
  arity : ℤ := 0
  upvalueCount : ℤ := 0
  code : List CodeByte := []
  constants : List CompiledConst := []
  upvalues : List CompiledUpvalue := []
  nameOffset : ℤ := 0
  nameLength : ℤ := -1
  isStatic : Bool := false
  isPublic : Bool := false
  deriving DecidableEq, Repr

/-- The instruction bytes alone. -/
def CompiledFn.bytes (fn : CompiledFn) : Bytes := fn.code.map CodeByte.byte

/-- A compiled program. -/
structure CompiledUnit where
  strings : StringSet := {}
  functions : List CompiledFn := []
  deriving DecidableEq, Repr

/-! ### The builder -/

def cuInit : CompiledUnit := {}

def cuInternString (unit : CompiledUnit) (chars : Bytes) : ℕ × CompiledUnit :=
  let (offset, strings) := stringSetIntern unit.strings chars
  (offset, { unit with strings })

/-- Reserve a new function and return its index. -/
def cuAddFunction (unit : CompiledUnit) : ℕ × CompiledUnit :=
  (unit.functions.length, { unit with functions := unit.functions ++ [{}] })

def cuGetFnByIndex (unit : CompiledUnit) (index : ℕ) : CompiledFn :=
  unit.functions.getD index {}

/-- Append one byte to a function's bytecode. -/
def cuWriteByte (fn : CompiledFn) (byte : UInt8) (line : ℤ) : CompiledFn :=
  { fn with code := fn.code ++ [⟨byte, line⟩] }

/-- Equal floats share a constant as C's `==` sees them; a function never shares one. -/
def compiledConstantsAreEqual : CompiledConst → CompiledConst → Bool
  | .number k p, .number k' p' =>
    k == k' && if k.info.isFloat then p.f64Equal p' else p.u64 == p'.u64
  | .boolean b, .boolean b' => b == b'
  | .nil, .nil => true
  | .string offset length, .string offset' length' => offset == offset' && length == length'
  | _, _ => false

/-- Add a constant, or find the one that equals it, and return its index. -/
def cuAddConstant (fn : CompiledFn) (const : CompiledConst) : ℕ × CompiledFn :=
  match fn.constants.findIdx? (compiledConstantsAreEqual · const) with
  | some i => (i, fn)
  | none => (fn.constants.length, { fn with constants := fn.constants ++ [const] })

@[simp] theorem bytes_cuWriteByte (fn : CompiledFn) (byte : UInt8) (line : ℤ) :
    (cuWriteByte fn byte line).bytes = fn.bytes ++ [byte] := by
  simp [CompiledFn.bytes, cuWriteByte]

end KirbyLang
