import KirbyLang.CompilerState
import KirbyLang.Lib.Boundaries
import KirbyLang.UnitRoundTrip

/-!
# The shape of bytecode

What the interpreter takes for granted about the code of a function: instructions one behind the
other, operands that name what is there, and jumps that lead to instructions.

* `IsBoundary`: where an instruction begins or the code ends;
* `Setting`: what the code of a function relies on outside of it;
* `InstructionOk`: one instruction; `Shaped`: the code of a function that may have open jumps;
* `Shaped.mono`, `Shaped.append`, `Shaped.patch`: the three ways in which the compiler changes it.
-/

namespace KirbyLang

open Boundaries

/-! ### Instructions -/

/-- The length of the instruction at a place of the code, if there is one. -/
def lengthAt (compiledUnit : CompiledUnit) (fn : CompiledFn) (offset : ℕ) : Option ℕ :=
  (OpCode.ofByte? (codeAt fn offset)).map (instructionLength compiledUnit fn offset)

/-- Where an instruction of the code begins or the last one ends. -/
def IsBoundary (compiledUnit : CompiledUnit) (fn : CompiledFn) (offset : ℕ) : Prop :=
  Boundary (lengthAt compiledUnit fn) fn.code.length offset

/-- The operand of a jump. -/
def shortAt (fn : CompiledFn) (offset : ℕ) : ℕ :=
  (codeAt fn offset).toNat * 256 + (codeAt fn (offset + 1)).toNat

/-- How many variables a function that is a constant captures. -/
def CompiledConst.captured (compiledUnit : CompiledUnit) : CompiledConst → ℕ
  | .function functionIndex => (cuGetFnByIndex compiledUnit functionIndex.toNat).upvalueCount.toNat
  | _ => 0

/-- How many variables the closure that the instruction at `offset` makes captures. -/
def capturedAt (compiledUnit : CompiledUnit) (fn : CompiledFn) (offset : ℕ) : ℕ :=
  (fn.constants[(codeAt fn (offset + 1)).toNat]?.map (CompiledConst.captured compiledUnit)).getD 0

/-- What the constant has to be that an instruction names. -/
inductive ConstantUse
  | value | string | function
  deriving DecidableEq, Repr

/-- The constant that an instruction names by its first operand. -/
def constantUse : OpCode → Option ConstantUse
  | .constant => some .value
  | .defineGlobal | .getGlobal | .setGlobal | .struct_ | .field | .getProperty | .setProperty
  | .method | .invoke => some .string
  | .closure => some .function
  | _ => none

def ConstantUse.Fits : ConstantUse → CompiledConst → Prop
  | .value, c => ∀ functionIndex, c ≠ .function functionIndex
  | .string, c => ∃ offset length, c = .string offset length
  | .function, c => ∃ functionIndex, c = .function functionIndex

/-- The jumps that the compiler patches. -/
def OpCode.JumpsForward (op : OpCode) : Prop := op = .jump ∨ op = .jumpIfFalse ∨ op = .jumpIfNotNil

variable {compiledUnit : CompiledUnit} {fn fn' : CompiledFn} {offset offset' : ℕ} {op : OpCode}

theorem instructionLength_eq : instructionLength compiledUnit fn offset op =
    1 + (opInfo op).operandBytes + if op = .closure then 2 * capturedAt compiledUnit fn offset
      else 0 := by
  unfold instructionLength capturedAt
  congr 1
  cases fn.constants[(codeAt fn (offset + 1)).toNat]? with
  | none => simp
  | some c => cases c <;> simp [CompiledConst.captured]

theorem lengthAt_eq_some {count : ℕ} : lengthAt compiledUnit fn offset = some count ↔
    ∃ op, OpCode.ofByte? (codeAt fn offset) = some op ∧
      instructionLength compiledUnit fn offset op = count := Option.map_eq_some_iff

theorem instructionLength_pos : 0 < instructionLength compiledUnit fn offset op := by
  rw [instructionLength_eq, Nat.add_assoc]
  exact Nat.lt_add_right _ Nat.zero_lt_one

theorem lengthAt_nonempty : Nonempty (lengthAt compiledUnit fn) := by
  intro offset count h
  obtain ⟨op, -, rfl⟩ := lengthAt_eq_some.mp h
  exact instructionLength_pos

theorem OpCode.JumpsForward.operandBytes (h : op.JumpsForward) : (opInfo op).operandBytes = 2 := by
  rcases h with rfl | rfl | rfl <;> rfl

theorem OpCode.JumpsForward.ne_closure (h : op.JumpsForward) : op ≠ .closure := by
  rcases h with rfl | rfl | rfl <;> decide

theorem OpCode.JumpsForward.length (h : op.JumpsForward) :
    instructionLength compiledUnit fn offset op = 3 := by
  rw [instructionLength_eq, h.operandBytes, if_neg h.ne_closure]

/-- An instruction with a constant has an operand. -/
theorem operandBytes_pos {use : ConstantUse} (h : constantUse op = some use) :
    0 < (opInfo op).operandBytes := by
  cases op <;> cases h <;> decide

/-! ### Well shaped code -/

/-- What the code of a function relies on: its unit, which functions of the unit are finished, and
how many variables the function captures. -/
structure Setting where
  compiledUnit : CompiledUnit
  finished : ℕ → Prop
  upvalueCount : ℕ

/-- What is there stays. -/
structure Setting.Before (a b : Setting) : Prop where
  finished : ∀ i, a.finished i → b.finished i
  captured : ∀ i, a.finished i →
    (cuGetFnByIndex b.compiledUnit i).upvalueCount = (cuGetFnByIndex a.compiledUnit i).upvalueCount
  arena : a.compiledUnit.strings.arena.length ≤ b.compiledUnit.strings.arena.length
  upvalueCount : a.upvalueCount ≤ b.upvalueCount

/-- A constant names what is there. -/
def Setting.Holds (a : Setting) : CompiledConst → Prop
  | .string offset length => Slice offset length a.compiledUnit.strings.arena.length
  | .function functionIndex => 0 ≤ functionIndex ∧ a.finished functionIndex.toNat
  | _ => True

/-- What the instruction at a place needs. The operand of an open jump is written later. -/
structure InstructionOk (a : Setting) (isOpen : ℕ → Prop) (fn : CompiledFn) (offset : ℕ)
    (op : OpCode) : Prop where
  constant : ∀ use, constantUse op = some use →
    ∃ c, fn.constants[(codeAt fn (offset + 1)).toNat]? = some c ∧ use.Fits c
  forward : op.JumpsForward → isOpen (offset + 1) ∨
    IsBoundary a.compiledUnit fn (offset + 3 + shortAt fn (offset + 1))
  backward : op = .loop →
    ∃ target ≤ offset, IsBoundary a.compiledUnit fn target ∧
      target + shortAt fn (offset + 1) = offset + 3
  upvalue : op = .getUpvalue ∨ op = .setUpvalue →
    (codeAt fn (offset + 1)).toNat < a.upvalueCount
  kind : op = .cast → ∃ kind, NumberKind.ofByte? (codeAt fn (offset + 1)) = some kind
  captured : op = .closure → ∀ j < capturedAt a.compiledUnit fn offset,
    codeAt fn (offset + 2 + 2 * j) = 1 ∨ codeAt fn (offset + 2 + 2 * j) = 0 ∧
      (codeAt fn (offset + 2 + 2 * j + 1)).toNat < a.upvalueCount

/-- The code of a function whose jumps with the operands at `isOpen` are still to be patched. -/
structure Shaped (a : Setting) (isOpen : ℕ → Prop) (fn : CompiledFn) : Prop where
  whole : IsBoundary a.compiledUnit fn fn.code.length
  instruction : ∀ offset op, IsBoundary a.compiledUnit fn offset → offset < fn.code.length →
    OpCode.ofByte? (codeAt fn offset) = some op → InstructionOk a isOpen fn offset op
  hole : ∀ operand, isOpen operand → ∃ offset op, operand = offset + 1 ∧
    IsBoundary a.compiledUnit fn offset ∧ offset < fn.code.length ∧
    OpCode.ofByte? (codeAt fn offset) = some op ∧ op.JumpsForward
  pool : ∀ c ∈ fn.constants, a.Holds c
  name : 0 ≤ fn.nameLength →
    Slice fn.nameOffset fn.nameLength a.compiledUnit.strings.arena.length

variable {a b : Setting} {isOpen isOpen' : ℕ → Prop}

theorem Setting.Before.refl (a : Setting) : a.Before a :=
  ⟨fun _ h => h, fun _ _ => rfl, Nat.le_refl _, Nat.le_refl _⟩

theorem Setting.Before.slice (h : a.Before b) {start length : ℤ}
    (hslice : Slice start length a.compiledUnit.strings.arena.length) :
    Slice start length b.compiledUnit.strings.arena.length := by
  obtain ⟨hstart, hlength, hle⟩ := hslice
  have harena := h.arena
  exact ⟨hstart, hlength, by omega⟩

theorem Setting.Before.holds (h : a.Before b) {c : CompiledConst} (hc : a.Holds c) :
    b.Holds c := by
  cases c with
  | string start length => exact h.slice hc
  | function functionIndex => exact ⟨hc.1, h.finished _ hc.2⟩
  | number _ _ => trivial
  | boolean _ => trivial
  | nil => trivial

/-- A finished function captures what it captured. -/
theorem Setting.Before.captured_eq (h : a.Before b) {c : CompiledConst} (hc : a.Holds c) :
    c.captured b.compiledUnit = c.captured a.compiledUnit := by
  cases c with
  | function functionIndex => exact congrArg Int.toNat (h.captured _ hc.2)
  | string _ _ => rfl
  | number _ _ => rfl
  | boolean _ => rfl
  | nil => rfl

section Transport

variable (hbefore : a.Before b) (hpool : ∀ c ∈ fn.constants, a.Holds c)
  (hconstants : fn.constants <+: fn'.constants)

include hconstants in
/-- A constant stays what it is when constants are added. -/
theorem getElem?_constants_mono {i : ℕ} {c : CompiledConst} (h : fn.constants[i]? = some c) :
    fn'.constants[i]? = some c := by
  obtain ⟨rest, hrest⟩ := hconstants
  rw [← hrest, List.getElem?_append_left (List.getElem?_eq_some_iff.mp h).1]
  exact h

include hbefore hpool hconstants in
theorem capturedAt_mono (hcode : codeAt fn' (offset + 1) = codeAt fn (offset + 1))
    {c : CompiledConst}
    (hc : fn.constants[(codeAt fn (offset + 1)).toNat]? = some c) :
    capturedAt b.compiledUnit fn' offset = capturedAt a.compiledUnit fn offset := by
  unfold capturedAt
  rw [hcode, hc, getElem?_constants_mono hconstants hc]
  exact hbefore.captured_eq (hpool c (List.mem_of_getElem? hc))

include hbefore hpool hconstants in
/-- The length of an instruction does not change. -/
theorem instructionLength_mono (hok : InstructionOk a isOpen fn offset op)
    (hcode : op = .closure → codeAt fn' (offset + 1) = codeAt fn (offset + 1)) :
    instructionLength b.compiledUnit fn' offset op =
      instructionLength a.compiledUnit fn offset op := by
  rw [instructionLength_eq, instructionLength_eq]
  by_cases hclosure : op = .closure
  · subst hclosure
    obtain ⟨c, hc, -⟩ := hok.constant .function rfl
    rw [capturedAt_mono hbefore hpool hconstants (hcode rfl) hc]
  · rw [if_neg hclosure, if_neg hclosure]

include hbefore hpool hconstants in
/-- An instruction is carried over to another function that has it at the same place. -/
theorem InstructionOk.carry (hok : InstructionOk a isOpen fn offset op)
    (hsame : ∀ i < instructionLength a.compiledUnit fn offset op,
      codeAt fn' (offset + i) = codeAt fn (offset + i))
    (hboundary : ∀ place, IsBoundary a.compiledUnit fn place → IsBoundary b.compiledUnit fn' place)
    (hopen : isOpen (offset + 1) → isOpen' (offset + 1)) :
    InstructionOk b isOpen' fn' offset op := by
  rw [instructionLength_eq] at hsame
  have hfirst : 0 < (opInfo op).operandBytes → codeAt fn' (offset + 1) = codeAt fn (offset + 1) :=
    fun hpos => hsame 1 (by omega)
  have hshort : (opInfo op).operandBytes = 2 →
      shortAt fn' (offset + 1) = shortAt fn (offset + 1) := by
    intro htwo
    unfold shortAt
    rw [hsame 1 (by omega), hsame 2 (by omega)]
  refine ⟨fun use huse => ?_, fun hjump => ?_, fun hloop => ?_, fun hupvalue => ?_, fun hcast => ?_,
    fun hclosure j hj => ?_⟩
  · obtain ⟨c, hc, hfits⟩ := hok.constant use huse
    rw [hfirst (operandBytes_pos huse)]
    exact ⟨c, getElem?_constants_mono hconstants hc, hfits⟩
  · rw [hshort hjump.operandBytes]
    exact (hok.forward hjump).imp hopen (hboundary _)
  · obtain ⟨target, hle, htarget, hdistance⟩ := hok.backward hloop
    rw [hshort (by subst hloop; rfl)]
    exact ⟨target, hle, hboundary _ htarget, hdistance⟩
  · rw [hfirst (by rcases hupvalue with rfl | rfl <;> decide)]
    exact Nat.lt_of_lt_of_le (hok.upvalue hupvalue) hbefore.upvalueCount
  · rw [hfirst (by subst hcast; decide)]
    exact hok.kind hcast
  · obtain ⟨c, hc, -⟩ := hok.constant .function (by subst hclosure; rfl)
    rw [if_pos hclosure] at hsame
    rw [capturedAt_mono hbefore hpool hconstants (hfirst (by subst hclosure; decide)) hc] at hj
    have hoperands : (opInfo op).operandBytes = 1 := by subst hclosure; rfl
    have hflag := hsame (2 + 2 * j) (by omega)
    have hindex := hsame (2 + 2 * j + 1) (by omega)
    rw [show offset + 2 + 2 * j = offset + (2 + 2 * j) by omega] at *
    rw [show offset + (2 + 2 * j) + 1 = offset + (2 + 2 * j + 1) by omega, hflag, hindex]
    have hold := hok.captured hclosure j hj
    rw [show offset + 2 + 2 * j = offset + (2 + 2 * j) by omega,
      show offset + (2 + 2 * j) + 1 = offset + (2 + 2 * j + 1) by omega] at hold
    exact hold.imp id fun h => ⟨h.1, Nat.lt_of_lt_of_le h.2 hbefore.upvalueCount⟩

end Transport

/-! ### How the compiler changes code -/

section Changes

variable (h : Shaped a isOpen fn) (hbefore : a.Before b)
  (hconstants : fn.constants <+: fn'.constants)

/-- The instructions of a function are instructions of another function, at the same places. -/
structure Carries (compiledUnit : CompiledUnit) (fn : CompiledFn) (compiledUnit' : CompiledUnit)
    (fn' : CompiledFn) : Prop where
  boundary : ∀ place, IsBoundary compiledUnit fn place → IsBoundary compiledUnit' fn' place
  opcode : ∀ place, IsBoundary compiledUnit fn place → place < fn.code.length →
    codeAt fn' place = codeAt fn place

include h in
/-- There is an instruction at every boundary but the end. -/
theorem Shaped.item (hoffset : IsBoundary a.compiledUnit fn offset)
    (hlt : offset < fn.code.length) :
    ∃ op, OpCode.ofByte? (codeAt fn offset) = some op ∧
      offset + instructionLength a.compiledUnit fn offset op ≤ fn.code.length ∧
      IsBoundary a.compiledUnit fn (offset + instructionLength a.compiledUnit fn offset op) := by
  obtain ⟨count, hitem, hfits⟩ := Whole.item h.whole lengthAt_nonempty hoffset hlt
  obtain ⟨op, hop, rfl⟩ := lengthAt_eq_some.mp hitem
  exact ⟨op, hop, hfits, .next hoffset hitem hfits⟩

/-- What the length of an instruction is read from is the same in the other function. -/
def KeepsLengths (compiledUnit : CompiledUnit) (fn fn' : CompiledFn) : Prop :=
  ∀ place op, IsBoundary compiledUnit fn place → OpCode.ofByte? (codeAt fn place) = some op →
    place + instructionLength compiledUnit fn place op ≤ fn.code.length →
    codeAt fn' place = codeAt fn place ∧
      (op = .closure → codeAt fn' (place + 1) = codeAt fn (place + 1))

section

variable (hkept : KeepsLengths a.compiledUnit fn fn')

include h hbefore hconstants hkept in
theorem Shaped.found (place count : ℕ) (hplace : IsBoundary a.compiledUnit fn place)
    (hitem : lengthAt a.compiledUnit fn place = some count)
    (hfits : place + count ≤ fn.code.length) : lengthAt b.compiledUnit fn' place = some count := by
  have hpos := lengthAt_nonempty _ _ hitem
  obtain ⟨op, hop, rfl⟩ := lengthAt_eq_some.mp hitem
  obtain ⟨hopcode, hoperand⟩ := hkept place op hplace hop hfits
  have hok := h.instruction place op hplace (by omega) hop
  exact lengthAt_eq_some.mpr ⟨op, by rw [hopcode, hop],
    instructionLength_mono hbefore h.pool hconstants hok hoperand⟩

include h hbefore hconstants hkept in
theorem Shaped.carries (hsize : fn.code.length ≤ fn'.code.length) :
    Carries a.compiledUnit fn b.compiledUnit fn' := by
  refine ⟨fun place hplace => hplace.mono hsize (h.found hbefore hconstants hkept),
    fun place hplace hlt => ?_⟩
  obtain ⟨op, hop, hfits, -⟩ := h.item hplace hlt
  exact (hkept place op hplace hop hfits).1

include h hbefore hconstants hkept in
/-- The other function has no boundaries inside the first one's code that are not there. -/
theorem Shaped.boundary_of_le (hplace : IsBoundary b.compiledUnit fn' offset)
    (hle : offset ≤ fn.code.length) : IsBoundary a.compiledUnit fn offset :=
  Boundary.restrict lengthAt_nonempty h.whole (h.found hbefore hconstants hkept) hplace hle

end

/-! #### More constants, more functions -/

theorem codeAt_congr (hcode : fn'.code = fn.code) (i : ℕ) : codeAt fn' i = codeAt fn i := by
  rw [codeAt, codeAt, hcode]

theorem keepsLengths_of_code (hcode : fn'.code = fn.code) : KeepsLengths compiledUnit fn fn' :=
  fun _ _ _ _ _ => ⟨codeAt_congr hcode _, fun _ => codeAt_congr hcode _⟩

include h hbefore hconstants in
theorem Shaped.carries_mono (hcode : fn'.code = fn.code) :
    Carries a.compiledUnit fn b.compiledUnit fn' :=
  h.carries hbefore hconstants (keepsLengths_of_code hcode) (by rw [hcode])

include h hbefore hconstants in
/-- Constants and upvalues are added, or functions of the unit are finished. -/
theorem Shaped.mono (hcode : fn'.code = fn.code) (hpool : ∀ c ∈ fn'.constants, b.Holds c)
    (hname : 0 ≤ fn'.nameLength →
      Slice fn'.nameOffset fn'.nameLength b.compiledUnit.strings.arena.length) :
    Shaped b isOpen fn' := by
  have hcarries := h.carries_mono hbefore hconstants hcode
  refine ⟨?_, fun place op hplace hlt hop => ?_, fun operand hoperand => ?_, hpool, hname⟩
  · have hend := hcarries.boundary _ h.whole
    rwa [← hcode] at hend
  · rw [hcode] at hlt
    rw [codeAt_congr hcode] at hop
    have hplace' := h.boundary_of_le hbefore hconstants (keepsLengths_of_code hcode) hplace
      (Nat.le_of_lt hlt)
    exact (h.instruction place op hplace' hlt hop).carry hbefore h.pool hconstants
      (fun i _ => codeAt_congr hcode _) hcarries.boundary id
  · obtain ⟨place, op, rfl, hplace, hlt, hop, hjump⟩ := h.hole operand hoperand
    exact ⟨place, op, rfl, hcarries.boundary place hplace, by rw [hcode]; exact hlt,
      by rw [codeAt_congr hcode, hop], hjump⟩

/-! #### More code -/

/-- Bytes behind the code, all on one line of the source. -/
def CompiledFn.emit (fn : CompiledFn) (line : ℤ) (bytes : Bytes) : CompiledFn :=
  { fn with code := fn.code ++ bytes.map fun byte => ⟨byte, line⟩ }

variable {line : ℤ} {bytes : Bytes}

theorem length_emit : (fn.emit line bytes).code.length = fn.code.length + bytes.length := by
  simp [CompiledFn.emit]

theorem constants_emit : fn.constants <+: (fn.emit line bytes).constants := List.prefix_refl _

theorem codeAt_emit (i : ℕ) :
    codeAt (fn.emit line bytes) (fn.code.length + i) = bytes.getD i 0 := by
  rw [codeAt, CompiledFn.emit, List.getElem?_append_right (Nat.le_add_right _ _),
    Nat.add_sub_cancel_left, List.getElem?_map, List.getD_eq_getElem?_getD]
  cases bytes[i]? <;> rfl

theorem emit_emit (bytes' : Bytes) :
    (fn.emit line bytes).emit line bytes' = fn.emit line (bytes ++ bytes') := by
  simp [CompiledFn.emit]

theorem codeAt_prefixed (hcode : fn.code <+: fn'.code) {i : ℕ} (hi : i < fn.code.length) :
    codeAt fn' i = codeAt fn i := by
  obtain ⟨rest, hrest⟩ := hcode
  rw [codeAt, codeAt, ← hrest, List.getElem?_append_left hi]

theorem keepsLengths_prefixed (hcode : fn.code <+: fn'.code) :
    KeepsLengths compiledUnit fn fn' := by
  intro place op hplace hop hfits
  have hpos := @instructionLength_pos compiledUnit fn place op
  refine ⟨codeAt_prefixed hcode (by omega), fun hclosure => codeAt_prefixed hcode ?_⟩
  rw [instructionLength_eq, hclosure] at hfits
  have : (opInfo .closure).operandBytes = 1 := rfl
  omega

theorem keepsLengths_emit : KeepsLengths compiledUnit fn (fn.emit line bytes) :=
  keepsLengths_prefixed (List.prefix_append _ _)

include h in
theorem Shaped.carries_emit :
    Carries a.compiledUnit fn a.compiledUnit (fn.emit line bytes) :=
  h.carries (.refl a) (List.prefix_refl _) keepsLengths_emit
    (by rw [length_emit]; exact Nat.le_add_right _ _)

include h in
/-- An instruction is appended. It may be a jump that is open. -/
theorem Shaped.append {operands : List UInt8}
    (hlength : instructionLength a.compiledUnit (fn.emit line (op.toByte :: operands))
      fn.code.length op = 1 + operands.length)
    (hok : InstructionOk a isOpen' (fn.emit line (op.toByte :: operands)) fn.code.length op)
    (hopen : ∀ operand, isOpen operand → isOpen' operand)
    (hnew : ∀ operand, isOpen' operand → isOpen operand ∨
      operand = fn.code.length + 1 ∧ op.JumpsForward) :
    Shaped a isOpen' (fn.emit line (op.toByte :: operands)) := by
  have hcarries : Carries a.compiledUnit fn a.compiledUnit (fn.emit line (op.toByte :: operands)) :=
    h.carries_emit
  have hconstants : fn.constants <+: (fn.emit line (op.toByte :: operands)).constants :=
    constants_emit
  have hfound := h.found (.refl a) hconstants keepsLengths_emit
  have hsame : ∀ i < fn.code.length,
      codeAt (fn.emit line (op.toByte :: operands)) i = codeAt fn i :=
    fun i hi => codeAt_prefixed (List.prefix_append _ _) hi
  have hfirst : OpCode.ofByte? (codeAt (fn.emit line (op.toByte :: operands)) fn.code.length) =
      some op := by
    rw [show codeAt (fn.emit line (op.toByte :: operands)) fn.code.length = op.toByte from
      codeAt_emit 0]
    exact OpCode.ofByte?_toByte op
  have hsize : (fn.emit line (op.toByte :: operands)).code.length =
      fn.code.length + (1 + operands.length) := by
    rw [length_emit, List.length_cons, Nat.add_comm 1]
  have hitem := lengthAt_eq_some.mpr ⟨op, hfirst, hlength⟩
  refine ⟨Whole.append h.whole hfound hitem hsize, fun place op' hplace hlt hop => ?_,
    fun operand hoperand => ?_, h.pool, h.name⟩
  · rw [IsBoundary, hsize] at hplace
    rcases Boundary.of_append lengthAt_nonempty lengthAt_nonempty h.whole hfound hitem hplace with
      hold | hend
    · rcases Nat.lt_or_ge place fn.code.length with hlt' | hge
      · rw [hsame place hlt'] at hop
        obtain ⟨op'', hop'', hfits, -⟩ := h.item hold hlt'
        obtain rfl : op' = op'' := Option.some.inj (hop.symm.trans hop'')
        exact (h.instruction place op' hold hlt' hop).carry (.refl a) h.pool (List.prefix_refl _)
          (fun i hi => hsame _ (by omega)) hcarries.boundary (hopen _)
      · obtain rfl : place = fn.code.length := Nat.le_antisymm hold.le hge
        obtain rfl : op = op' := Option.some.inj (hfirst.symm.trans hop)
        exact hok
    · omega
  · rcases hnew operand hoperand with hold | ⟨rfl, hjump⟩
    · obtain ⟨place, op', rfl, hplace, hlt, hop, hjump⟩ := h.hole operand hold
      exact ⟨place, op', rfl, hcarries.boundary place hplace, by omega,
        by rw [hsame place hlt, hop], hjump⟩
    · exact ⟨fn.code.length, op, rfl, hcarries.boundary _ h.whole, by omega, hfirst, hjump⟩

/-! #### Jumps that are patched -/

theorem codeAt_setByte {byte : UInt8} {i : ℕ} (hlt : offset < fn.code.length) :
    codeAt (fn.setByte offset byte) i = if i = offset then byte else codeAt fn i := by
  unfold codeAt CompiledFn.setByte
  rw [List.getElem?_modify]
  by_cases hi : i = offset
  · subst hi
    rw [if_pos rfl, List.getElem?_eq_getElem hlt]
    simp
  · have hne : offset ≠ i := fun heq => hi heq.symm
    rw [if_neg hi]
    simp [hne]

theorem toNat_highByte (n : ℕ) : (highByte n).toNat = n / 256 % 256 := by
  simp only [highByte, UInt8.toNat_ofNat']
  omega

theorem toNat_lowByte (n : ℕ) : (lowByte n).toNat = n % 256 := by
  simp only [lowByte, UInt8.toNat_ofNat']
  omega

/-- What `patchJump` writes. -/
def CompiledFn.patch (fn : CompiledFn) (operand distance : ℕ) : CompiledFn :=
  (fn.setByte operand (highByte distance)).setByte (operand + 1) (lowByte distance)

variable {operand distance : ℕ}

theorem length_patch : (fn.patch operand distance).code.length = fn.code.length := by
  simp [CompiledFn.patch, CompiledFn.setByte]

theorem constants_patch : fn.constants <+: (fn.patch operand distance).constants :=
  List.prefix_refl _

theorem codeAt_patch {i : ℕ} (hlt : operand + 1 < fn.code.length)
    (hi : i ≠ operand) (hi' : i ≠ operand + 1) :
    codeAt (fn.patch operand distance) i = codeAt fn i := by
  have hlt' : operand < fn.code.length := by omega
  rw [CompiledFn.patch, codeAt_setByte (by simpa [CompiledFn.setByte] using hlt), if_neg hi',
    codeAt_setByte hlt', if_neg hi]

theorem shortAt_patch (hlt : operand + 1 < fn.code.length)
    (hdistance : distance ≤ UINT16_MAX) :
    shortAt (fn.patch operand distance) operand = distance := by
  have hlt' : operand < fn.code.length := by omega
  have hset : operand + 1 < (fn.setByte operand (highByte distance)).code.length := by
    simpa [CompiledFn.setByte] using hlt
  have hhigh : codeAt (fn.patch operand distance) operand = highByte distance := by
    rw [CompiledFn.patch, codeAt_setByte hset, if_neg (by omega), codeAt_setByte hlt', if_pos rfl]
  have hlow : codeAt (fn.patch operand distance) (operand + 1) = lowByte distance := by
    rw [CompiledFn.patch, codeAt_setByte hset, if_pos rfl]
  have hmax : distance ≤ 65535 := hdistance
  rw [shortAt, hhigh, hlow, toNat_highByte, toNat_lowByte]
  omega

section Patch

variable {jump place : ℕ} {jumpOp : OpCode} (hjump : IsBoundary a.compiledUnit fn jump)
  (hjumpOp : OpCode.ofByte? (codeAt fn jump) = some jumpOp) (hforward : jumpOp.JumpsForward)

include hjump hjumpOp hforward in
/-- The operand of a jump is in no other instruction. -/
theorem apart_of_ne (hplace : IsBoundary a.compiledUnit fn place)
    (hop : OpCode.ofByte? (codeAt fn place) = some op) (hne : place ≠ jump) :
    place + instructionLength a.compiledUnit fn place op ≤ jump ∨ jump + 3 ≤ place := by
  rcases Nat.lt_or_gt_of_ne hne with hbefore | hbehind
  · obtain ⟨count, hitem, hle⟩ := Boundary.gap lengthAt_nonempty hplace hjump hbefore
    obtain ⟨op', hop', rfl⟩ := lengthAt_eq_some.mp hitem
    obtain rfl := Option.some.inj (hop.symm.trans hop')
    exact .inl hle
  · obtain ⟨count, hitem, hle⟩ := Boundary.gap lengthAt_nonempty hjump hplace hbehind
    obtain ⟨op', hop', rfl⟩ := lengthAt_eq_some.mp hitem
    obtain rfl := Option.some.inj (hjumpOp.symm.trans hop')
    rw [hforward.length] at hle
    exact .inr hle

include hjump hjumpOp hforward in
theorem keepsLengths_patch (hlt : jump + 2 < fn.code.length) :
    KeepsLengths a.compiledUnit fn (fn.patch (jump + 1) distance) := by
  intro place op hplace hop hfits
  have hpos := @instructionLength_pos a.compiledUnit fn place op
  by_cases heq : place = jump
  · subst heq
    obtain rfl : jumpOp = op := Option.some.inj (hjumpOp.symm.trans hop)
    exact ⟨codeAt_patch hlt (by omega) (by omega),
      fun hclosure => absurd hclosure hforward.ne_closure⟩
  · have hcases := apart_of_ne hjump hjumpOp hforward hplace hop heq
    refine ⟨codeAt_patch hlt (by omega) (by omega), fun hclosure => ?_⟩
    rw [instructionLength_eq, hclosure] at hcases
    have : (opInfo .closure).operandBytes = 1 := rfl
    exact codeAt_patch hlt (by omega) (by omega)

include h hjump hjumpOp hforward in
theorem Shaped.jump_fits (hlt : jump < fn.code.length) : jump + 2 < fn.code.length := by
  obtain ⟨op, hop, hfits, -⟩ := h.item hjump hlt
  obtain rfl := Option.some.inj (hjumpOp.symm.trans hop)
  rw [hforward.length] at hfits
  omega

end Patch

include h in
theorem Shaped.carries_patch (hopen : isOpen operand) :
    Carries a.compiledUnit fn a.compiledUnit (fn.patch operand distance) := by
  obtain ⟨jump, jumpOp, rfl, hjump, hlt, hjumpOp, hforward⟩ := h.hole operand hopen
  exact h.carries (.refl a) (List.prefix_refl _)
    (keepsLengths_patch hjump hjumpOp hforward (h.jump_fits hjump hjumpOp hforward hlt))
    (by rw [length_patch])

/-- A forward jump only needs a place to go to. -/
theorem OpCode.JumpsForward.instructionOk (hforward : op.JumpsForward)
    (h : isOpen (offset + 1) ∨
      IsBoundary a.compiledUnit fn (offset + 3 + shortAt fn (offset + 1))) :
    InstructionOk a isOpen fn offset op := by
  refine ⟨fun use huse => ?_, fun _ => h, fun hloop => ?_, fun hupvalue => ?_, fun hcast => ?_,
    fun hclosure => absurd hclosure hforward.ne_closure⟩
  · rcases hforward with rfl | rfl | rfl <;> cases huse
  · rcases hforward with rfl | rfl | rfl <;> cases hloop
  · rcases hforward with rfl | rfl | rfl <;> rcases hupvalue with heq | heq <;> cases heq
  · rcases hforward with rfl | rfl | rfl <;> cases hcast

include h in
/-- An open jump is patched to go to the end of the code. -/
theorem Shaped.patch (hopen : isOpen operand)
    (hdistance : fn.code.length - operand - 2 ≤ UINT16_MAX)
    (hkept : ∀ x, isOpen x → x = operand ∨ isOpen' x) (hold : ∀ x, isOpen' x → isOpen x) :
    Shaped a isOpen' (fn.patch operand (fn.code.length - operand - 2)) := by
  obtain ⟨jump, jumpOp, rfl, hjump, hlt, hjumpOp, hforward⟩ := h.hole operand hopen
  have hfits := h.jump_fits hjump hjumpOp hforward hlt
  generalize hdist : fn.code.length - (jump + 1) - 2 = distance at *
  have hcarries : Carries a.compiledUnit fn a.compiledUnit (fn.patch (jump + 1) distance) :=
    h.carries_patch hopen
  have hsize : (fn.patch (jump + 1) distance).code.length = fn.code.length := length_patch
  have hsame : ∀ i, i ≠ jump + 1 → i ≠ jump + 2 →
      codeAt (fn.patch (jump + 1) distance) i = codeAt fn i :=
    fun i hi hi' => codeAt_patch hfits hi hi'
  refine ⟨?_, fun place op hplace hlt hop => ?_, fun x hx => ?_, h.pool, h.name⟩
  · rw [hsize]
    exact hcarries.boundary _ h.whole
  · rw [hsize] at hlt
    have hplace' := h.boundary_of_le (.refl a) constants_patch
      (keepsLengths_patch hjump hjumpOp hforward hfits) hplace (Nat.le_of_lt hlt)
    rw [hcarries.opcode place hplace' hlt] at hop
    by_cases heq : place = jump
    · subst heq
      obtain rfl := Option.some.inj (hjumpOp.symm.trans hop)
      have htarget : place + 3 + shortAt (fn.patch (place + 1) distance) (place + 1) =
          fn.code.length := by
        rw [shortAt_patch hfits hdistance]
        omega
      refine hforward.instructionOk (.inr ?_)
      rw [htarget]
      exact hcarries.boundary _ h.whole
    · have hcases := apart_of_ne hjump hjumpOp hforward hplace' hop heq
      refine (h.instruction place op hplace' hlt hop).carry (.refl a) h.pool (List.prefix_refl _)
        (fun i hi => hsame _ (by omega) (by omega)) hcarries.boundary fun hx => ?_
      exact (hkept _ hx).resolve_left (by omega)
  · obtain ⟨place, op, rfl, hplace, hlt, hop, hjump'⟩ := h.hole x (hold x hx)
    exact ⟨place, op, rfl, hcarries.boundary place hplace, by rw [hsize]; exact hlt,
      by rw [hcarries.opcode place hplace hlt, hop], hjump'⟩

end Changes

end KirbyLang
