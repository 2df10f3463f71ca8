import KirbyLang.CompiledUnit
import KirbyLang.HashTable

/-!
# Objects

Values and heap objects as the collector and the interpreter see them (`value.h`, `object.h`,
`chunk.h`). An object is named by its address, and a string is an object like the others.
-/

namespace KirbyLang.Vm

/-- The address of an object. `0` is `NULL`. An address is not used for a second object. -/
abbrev Ref := ℕ

/-- `NULL`. -/
def null : Ref := 0

inductive Value
  | boolean (value : Bool)
  | nil
  | number (kind : NumberKind) (payload : NumberPayload)
  | obj (object : Ref)
  deriving DecidableEq, Repr

instance : Inhabited Value := ⟨.nil⟩

/-- Objects are equal when they are the same object. -/
def valuesEqual : Value → Value → Bool
  | .boolean a, .boolean b => a == b
  | .nil, .nil => true
  | .number k p, .number k' p' =>
    k == k' && if k.info.isFloat then p.f64Equal p' else p.u64 == p'.u64
  | .obj a, .obj b => a == b
  | _, _ => false

/-- `hashBytes`: FNV-1a. -/
def hashBytes (key : Bytes) : UInt32 :=
  key.foldl (fun hash byte => (hash ^^^ byte.toUInt32) * 16777619) 2166136261

structure ObjString where
  chars : Bytes
  hash : UInt32
  deriving DecidableEq, Repr

/-- The elements of a growing array, and how many it has room for. -/
structure ValueArray where
  values : List Value := []
  capacity : ℕ := 0
  deriving DecidableEq, Repr

/-- Bytecode with its lines, and the constants. -/
structure Chunk where
  code : List CodeByte := []
  capacity : ℕ := 0
  constants : ValueArray := {}
  deriving DecidableEq, Repr

structure ObjFunction where
  arity : ℤ := 0
  upvalueCount : ℤ := 0
  chunk : Chunk := {}
  name : Ref := null
  isStatic : Bool := false
  isPublic : Bool := false
  deriving DecidableEq, Repr

/-- Where an upvalue's value is: in a slot of the value stack, or in its own `closed`. -/
inductive Location
  | stack (slot : ℤ)
  | closed
  deriving DecidableEq, Repr

/-- An upvalue. The list of open upvalues is kept in the VM and not in a field here. -/
structure ObjUpvalue where
  location : Location
  closed : Value := .nil
  deriving DecidableEq, Repr

/-- `upvalues` holds `NULL` where an upvalue is not captured yet. -/
structure ObjClosure where
  function : Ref
  upvalues : List Ref
  owner : Ref := null
  deriving DecidableEq, Repr

/-- `fields` maps the name of a field to its slot. -/
structure ObjStruct where
  name : Ref
  methods : Table Ref Value := {}
  fields : Table Ref Value := {}
  fieldCount : ℕ := 0
  fieldPublic : ℕ → Bool := fun _ => false
  fieldMutable : ℕ → Bool := fun _ => false

/-- `fields` is `none` for `NULL`. -/
structure ObjInstance where
  struct_ : Ref
  fields : Option (List Value) := none
  deriving DecidableEq, Repr

structure ObjBoundMethod where
  receiver : Value
  method : Ref
  deriving DecidableEq, Repr

/-- A native, by the name it is defined under. -/
structure ObjNative where
  function : Bytes
  deriving DecidableEq, Repr

abbrev ObjList := ValueArray

structure ObjArray where
  values : List Value
  deriving DecidableEq, Repr

inductive Obj
  | struct_ (struct_ : ObjStruct)
  | instance_ (instance_ : ObjInstance)
  | boundMethod (bound : ObjBoundMethod)
  | closure (closure : ObjClosure)
  | function (function : ObjFunction)
  | native (native : ObjNative)
  | string (string : ObjString)
  | upvalue (upvalue : ObjUpvalue)
  | list (list : ObjList)
  | array (array : ObjArray)

namespace Obj

def struct? : Obj → Option ObjStruct
  | .struct_ o => some o
  | _ => none

def instance? : Obj → Option ObjInstance
  | .instance_ o => some o
  | _ => none

def boundMethod? : Obj → Option ObjBoundMethod
  | .boundMethod o => some o
  | _ => none

def closure? : Obj → Option ObjClosure
  | .closure o => some o
  | _ => none

def function? : Obj → Option ObjFunction
  | .function o => some o
  | _ => none

def native? : Obj → Option ObjNative
  | .native o => some o
  | _ => none

def string? : Obj → Option ObjString
  | .string o => some o
  | _ => none

def upvalue? : Obj → Option ObjUpvalue
  | .upvalue o => some o
  | _ => none

def list? : Obj → Option ObjList
  | .list o => some o
  | _ => none

def array? : Obj → Option ObjArray
  | .array o => some o
  | _ => none

@[simp] theorem string?_eq_some {o : Obj} {s : ObjString} : o.string? = some s ↔ o = .string s := by
  cases o <;> simp [string?]

@[simp] theorem struct?_eq_some {o : Obj} {s : ObjStruct} : o.struct? = some s ↔ o = .struct_ s := by
  cases o <;> simp [struct?]

end Obj

/-! ### Sizes -/

/-- `sizeof` of the C types, where pointers are 8 bytes. -/
def sizeofValue : ℕ := 24
def sizeofEntry : ℕ := 32
def sizeofPointer : ℕ := 8
def sizeofInt : ℕ := 4

/-- `sizeof` of an object's own struct. -/
def Obj.sizeof : Obj → ℕ
  | .struct_ _ => 576
  | .instance_ _ => 32
  | .boundMethod _ => 48
  | .closure _ => 48
  | .function _ => 80
  | .native _ => 24
  | .string _ => 40
  | .upvalue _ => 56
  | .list _ => 32
  | .array _ => 32

end KirbyLang.Vm
