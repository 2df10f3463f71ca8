import KirbyLang.CompiledUnit
import KirbyLang.Lib.Cursor
import KirbyLang.Lib.LittleEndian

/-!
# The byte form of a compiled unit

`unitEncode` and `unitDecode` (`unit_bytes.c`). The decoder reads through a `Reader` that keeps
the first problem it finds: after a problem every read returns 0, so the code reads a run of
fields and checks the status once. `size_t` positions are natural numbers;
`Reader.Inside` (in `UnitSafety`) shows that the subtraction `length - position` never goes below
zero, so nothing depends on its wrapping.

`KIRBY_VERSION` is generated by the build, so it is a parameter.
-/

namespace KirbyLang

/-- `INT_MAX`. -/
def INT_MAX : ℕ := 2 ^ 31 - 1

/-- The letters `KRBC`. -/
def MAGIC : Bytes := [0x4b, 0x52, 0x42, 0x43]

def UNIT_BYTES_FORMAT_VERSION : ℕ := 3

/-- The smallest a function can be: its fixed fields and three empty lists. -/
def MIN_FUNCTION_BYTES : ℕ := 4 + 4 + 1 + 4 + 4 + 4 + 4 + 4

/-- One code byte takes a byte, and its line takes four. -/
def CODE_BYTES_EACH : ℕ := 1 + 4

/-- A constant takes at least its kind byte. -/
def MIN_CONSTANT_BYTES : ℕ := 1

/-- An upvalue takes `isLocal` and `index`. -/
def UPVALUE_BYTES_EACH : ℕ := 2

def FLAG_STATIC : UInt8 := 0x01
def FLAG_PUBLIC : UInt8 := 0x02

/-! ### Encoding -/

def putU8 (value : UInt8) : Bytes := [value]

def putU16 (value : ℕ) : Bytes := LittleEndian.shifted 2 value

def putU32 (value : ℕ) : Bytes := LittleEndian.shifted 4 value

/-- `(uint32_t)value`. -/
def toU32 (value : ℤ) : ℕ := (value % 2 ^ 32).toNat

def putI32 (value : ℤ) : Bytes := putU32 (toU32 value)

/-- The low `size` bytes of a number. A double goes out by its bits, so `putDouble` is
`putSized _ 8`. -/
def putSized (value : ℕ) (size : ℕ) : Bytes := LittleEndian.shifted size value

def putDouble (payload : NumberPayload) : Bytes := putSized payload.u64 8

/-- The enumeration's number for a constant's kind. -/
def CompiledConst.kindByte : CompiledConst → UInt8
  | number .. => 0
  | boolean _ => 1
  | nil => 2
  | string .. => 3
  | function _ => 4

/-- What follows a constant's kind byte. -/
def encodeConstantBody : CompiledConst → Bytes
  | .number kind payload =>
    putU8 kind.toByte ++
      if kind.info.isFloat then putDouble payload else putSized payload.u64 kind.info.size
  | .boolean value => putU8 (if value then 1 else 0)
  | .nil => []
  | .string offset length => putI32 offset ++ putI32 length
  | .function functionIndex => putI32 functionIndex

def encodeConstant (constant : CompiledConst) : Bytes :=
  putU8 constant.kindByte ++ encodeConstantBody constant

def flagsOf (fn : CompiledFn) : UInt8 :=
  (if fn.isStatic then FLAG_STATIC else 0) ||| (if fn.isPublic then FLAG_PUBLIC else 0)

def encodeUpvalue (upvalue : CompiledUpvalue) : Bytes :=
  putU8 (if upvalue.isLocal then 1 else 0) ++ putU8 upvalue.index

def encodeFunction (fn : CompiledFn) : Bytes :=
  putI32 fn.arity ++ (putI32 fn.upvalueCount ++ (putU8 (flagsOf fn) ++
    (putI32 fn.nameOffset ++ (putI32 fn.nameLength ++
    (putU32 fn.code.length ++ (fn.bytes ++ ((fn.code.map CodeByte.line).flatMap putI32 ++
    (putU32 fn.constants.length ++ (fn.constants.flatMap encodeConstant ++
    (putU32 fn.upvalues.length ++ fn.upvalues.flatMap encodeUpvalue))))))))))

def unitEncode (version : Bytes) (unit : CompiledUnit) : Bytes :=
  MAGIC ++ (putU16 UNIT_BYTES_FORMAT_VERSION ++
    (putU8 (UInt8.ofNat version.length) ++ (version ++
    (putU32 unit.strings.arena.length ++ (unit.strings.arena ++
    (putU32 unit.functions.length ++ unit.functions.flatMap encodeFunction))))))

/-! ### Reading -/

inductive UnitDecodeStatus
  | ok
  /-- ends before the data it announces -/
  | truncated
  /-- not a compiled unit -/
  | badMagic
  /-- made with a different layout -/
  | badFormatVersion
  /-- made by a different Kirby version -/
  | versionMismatch
  /-- an index, offset or count is out of range -/
  | invalid
  deriving DecidableEq, Repr

/-- A table the decoder allocated: how many elements, how few bytes of input one element can
take, and the position just after the element count was read. -/
structure Allocation where
  count : ℕ
  bytesEach : ℕ
  countedAt : ℕ
  deriving DecidableEq, Repr

/-- Reads from a block of bytes. `taken` and `allocated` are not in the C structure: they record
each range of bytes that `take` handed out and each table that was allocated. -/
structure Reader where
  data : Bytes
  position : ℕ := 0
  status : UnitDecodeStatus := .ok
  taken : List (ℕ × ℕ) := []
  allocated : List Allocation := []
  deriving DecidableEq, Repr

abbrev ReadM := StateM Reader

def failed (reader : Reader) : Bool := decide (reader.status ≠ .ok)

/-- Keep the first problem. -/
def fail (status : UnitDecodeStatus) : ReadM Unit :=
  modify fun reader => if reader.status = .ok then { reader with status } else reader

def take (count : ℕ) : ReadM (Option Bytes) := fun reader =>
  if reader.status ≠ .ok then (none, reader)
  else if count > reader.data.length - reader.position then
    (none, { reader with status := .truncated })
  else
    (some ((reader.data.drop reader.position).take count),
      { reader with
        position := reader.position + count
        taken := reader.taken ++ [(reader.position, count)] })

/-- Turn the bytes of a `take` into a number, 0 when there are none. -/
def orZero : Option Bytes → ℕ
  | none => 0
  | some bytes => LittleEndian.orFrom 0 0 bytes

def readU8 : ReadM UInt8 := do
  let bytes ← take 1
  return bytes.elim 0 (·.headD 0)

def readU16 : ReadM ℕ := do return orZero (← take 2)

def readU32 : ReadM ℕ := do return orZero (← take 4)

/-- `(int32_t)value`. -/
def toI32 (value : ℕ) : ℤ := if value < 2 ^ 31 then value else (value : ℤ) - 2 ^ 32

def readI32 : ReadM ℤ := do return toI32 (← readU32)

def readSized (size : ℕ) : ReadM UInt64 := do return UInt64.ofNat (orZero (← take size))

def readDouble : ReadM NumberPayload := readSized 8

/-- True if `count` items of at least `bytesEach` bytes can still be in the data. -/
def countFits (count bytesEach : ℕ) : ReadM Bool := do
  let reader ← get
  if reader.status ≠ .ok then return false
  else if count > INT_MAX then do fail .invalid; return false
  else if count > (reader.data.length - reader.position) / bytesEach then do
    fail .truncated
    return false
  else return true

/-- `offset` and `length` select a part of `total` things. -/
def rangeInside (offset length : ℤ) (total : ℕ) : Bool :=
  decide (0 ≤ offset) && decide (0 ≤ length) && decide (offset + length ≤ total)

/-- `allocateArray` allocates nothing for an empty table. -/
def allocateArray (count bytesEach countedAt : ℕ) : ReadM Unit :=
  modify fun reader =>
    if count = 0 then reader
    else { reader with allocated := reader.allocated ++ [⟨count, bytesEach, countedAt⟩] }

/-- A check of the decoder. C guards some of these with `status == UNIT_DECODE_OK`, which `fail`
does anyway. -/
def failIf (status : UnitDecodeStatus) (bad : Bool) : ReadM Unit :=
  if bad then fail status else pure ()

/-- A number constant after its kind byte. -/
def readNumber : ReadM CompiledConst := do
  let numberKind ← readU8
  match NumberKind.ofByte? numberKind with
  | none => do fail .invalid; return .nil
  | some k =>
    if k.info.isFloat then return .number k (← readDouble)
    else return .number k (k.widen (← readSized k.info.size))

/-- The branches of `readConstant` on the kind byte. -/
def readConstantBody (arenaLen functionCount : ℕ) (kind : UInt8) : ReadM CompiledConst :=
  if kind = 0 then readNumber
  else if kind = 1 then do
    let value ← readU8
    failIf .invalid (decide (value > 1))
    return .boolean (value == 1)
  else if kind = 2 then return .nil
  else if kind = 3 then do
    let offset ← readI32
    let length ← readI32
    failIf .invalid (!rangeInside offset length arenaLen)
    return .string offset length
  else if kind = 4 then do
    let functionIndex ← readI32
    failIf .invalid (decide (functionIndex < 0) || decide (functionIndex ≥ functionCount))
    return .function functionIndex
  else do fail .invalid; return .nil

def readConstant (arenaLen functionCount : ℕ) : ReadM CompiledConst := do
  readConstantBody arenaLen functionCount (← readU8)

def readUpvalue : ReadM CompiledUpvalue := do
  let isLocal ← readU8
  failIf .invalid (decide (isLocal > 1))
  if failed (← get) then return ⟨false, 0⟩
  else return ⟨isLocal == 1, ← readU8⟩

/-- The part of `readFunction` before the tables: the fixed fields and their check. -/
def readFunctionHeader (arenaLen : ℕ) : ReadM CompiledFn := do
  let arity ← readI32
  let upvalueCount ← readI32
  let flags ← readU8
  let nameOffset ← readI32
  let nameLength ← readI32
  failIf .invalid (flags &&& ~~~(FLAG_STATIC ||| FLAG_PUBLIC) != 0 || decide (arity < 0) ||
    decide (upvalueCount < 0) ||
    (decide (nameLength ≥ 0) && !rangeInside nameOffset nameLength arenaLen))
  return { arity, upvalueCount, nameOffset, nameLength
           isStatic := flags &&& FLAG_STATIC != 0
           isPublic := flags &&& FLAG_PUBLIC != 0 }

/-- The part of every table after its count: the check that the input can hold that many items,
the allocation, the items. -/
def readCounted {α : Type} (count bytesEach countedAt : ℕ) (items : ReadM (List α)) :
    ReadM (List α) := do
  if !(← countFits count bytesEach) then return []
  else do
    allocateArray count bytesEach countedAt
    items

/-- The shape of the three tables of a function. -/
def readTable {α : Type} (bytesEach : ℕ) (items : ℕ → ReadM (List α)) : ReadM (List α) := do
  let count ← readU32
  let reader ← get
  readCounted count bytesEach reader.position (items count)

/-- The bytecode and its lines. -/
def readCode : ReadM (List CodeByte) :=
  readTable CODE_BYTES_EACH fun codeCount => do
    let code ← take codeCount
    let codeLines ← Cursor.readEach (fun _ => false) readI32 codeCount
    return List.zipWith CodeByte.mk (code.getD []) codeLines

def readConstants (arenaLen functionCount : ℕ) : ReadM (List CompiledConst) :=
  readTable MIN_CONSTANT_BYTES (Cursor.readEach failed (readConstant arenaLen functionCount))

def readUpvalues : ReadM (List CompiledUpvalue) :=
  readTable UPVALUE_BYTES_EACH (Cursor.readEach failed readUpvalue)

/-- C returns as soon as a part fails; reading on would return zeros and change nothing, but the
tables after a failed part are not allocated either. -/
def readFunction (arenaLen functionCount : ℕ) : ReadM CompiledFn := do
  let fn ← readFunctionHeader arenaLen
  if failed (← get) then return fn
  else do
    let code ← readCode
    if failed (← get) then return { fn with code }
    else do
      let constants ← readConstants arenaLen functionCount
      if failed (← get) then return { fn with code, constants }
      else return { fn with code, constants, upvalues := ← readUpvalues }

/-- The magic letters, the format version and the Kirby version. -/
def readPreamble (version : Bytes) : ReadM Unit := do
  let magic ← take MAGIC.length
  failIf .badMagic (magic.any (· != MAGIC))
  let formatVersion ← readU16
  failIf .badFormatVersion (formatVersion != UNIT_BYTES_FORMAT_VERSION)
  let versionLength ← readU8
  let found ← take versionLength.toNat
  failIf .versionMismatch
    (found.any fun bytes => versionLength.toNat != version.length || bytes != version)

/-- The bytes of the string arena. -/
def readArena : ReadM Bytes := do
  let blobLength ← readU32
  failIf .invalid (decide (blobLength > INT_MAX))
  let blob ← take blobLength
  return blob.getD []

/-- The function table. The arena gets a table of its own only now that the function count has
been checked. -/
def readFunctions (arena : Bytes) (arenaCountedAt : ℕ) : ReadM (List CompiledFn) := do
  let functionCount ← readU32
  let reader ← get
  failIf .invalid (functionCount == 0)
  readCounted functionCount MIN_FUNCTION_BYTES reader.position do
    allocateArray arena.length 1 arenaCountedAt
    Cursor.readEach failed (readFunction arena.length functionCount) functionCount

/-- Everything of `unitDecode` before the check that the whole input was used. After a problem the
unit is whatever was read so far, and `unitDecode` rejects it. -/
def readUnit (version : Bytes) : ReadM CompiledUnit := do
  readPreamble version
  let reader ← get
  let arena ← readArena
  let functions ← readFunctions arena (reader.position + 4)
  return { strings := { arena }, functions }

/-- The body of `unitDecode`: the unit, or `none` with the reason in the reader's status. -/
def unitDecodeM (version : Bytes) : ReadM (Option CompiledUnit) := do
  let unit ← readUnit version
  let reader ← get
  if failed reader then return none
  else if reader.position ≠ reader.data.length then do fail .invalid; return none
  else return some unit

/-- The outcome of `unitDecode`, with the reader as it was left. -/
def unitDecodeRun (version bytes : Bytes) : Option CompiledUnit × Reader :=
  (unitDecodeM version).run { data := bytes }

def unitDecode (version bytes : Bytes) : Option CompiledUnit := (unitDecodeRun version bytes).1

end KirbyLang
