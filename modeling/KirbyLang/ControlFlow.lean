import KirbyLang.CompiledCode

/-!
# Where control goes

From one instruction of a function to the next: behind it, or where a jump leads. In the functions
of a compiled unit control only comes to places where an instruction begins, or to the end of the
code, and there only by a jump forward.

* `CompiledFn.Flows`: how control goes on from a place, whatever stands there;
* `FunctionOk.flows`: from a boundary to a boundary;
* `compiled_control_stays`: all functions of a compiled unit.
-/

namespace KirbyLang

open Boundaries

/-- How control goes on from a place inside the code. A byte that is no opcode is passed over, as
`run` does. -/
inductive CompiledFn.Flows (compiledUnit : CompiledUnit) (fn : CompiledFn) (place : ℕ) : ℕ → Prop
  | next {op : OpCode} (inside : place < fn.code.length)
      (found : OpCode.ofByte? (codeAt fn place) = some op)
      (goesOn : op ≠ .jump ∧ op ≠ .loop ∧ op ≠ .return_) :
      Flows compiledUnit fn place (place + instructionLength compiledUnit fn place op)
  | forward {op : OpCode} (inside : place < fn.code.length)
      (found : OpCode.ofByte? (codeAt fn place) = some op) (jumps : op.JumpsForward) :
      Flows compiledUnit fn place (place + 3 + shortAt fn (place + 1))
  | backward {target : ℕ} (inside : place < fn.code.length)
      (found : OpCode.ofByte? (codeAt fn place) = some .loop)
      (distance : target + shortAt fn (place + 1) = place + 3) : Flows compiledUnit fn place target
  | pass (inside : place < fn.code.length) (found : OpCode.ofByte? (codeAt fn place) = none) :
      Flows compiledUnit fn place (place + 1)

/-- A jump forward leads from one place to another. -/
def CompiledFn.JumpsTo (fn : CompiledFn) (place target : ℕ) : Prop :=
  ∃ op : OpCode, OpCode.ofByte? (codeAt fn place) = some op ∧ op.JumpsForward ∧
    target = place + 3 + shortAt fn (place + 1)

variable {compiledUnit : CompiledUnit} {finished : ℕ → Prop} {fn : CompiledFn} {place next : ℕ}

/-- The last instruction of a function is its return. -/
theorem FunctionOk.last (h : FunctionOk compiledUnit finished fn)
    (hplace : IsBoundary compiledUnit fn place) (hlt : place < fn.code.length) {op : OpCode}
    (hop : OpCode.ofByte? (codeAt fn place) = some op)
    (hend : place + instructionLength compiledUnit fn place op = fn.code.length) :
    op = .return_ := by
  obtain ⟨last, hlast, hreturn, hlength⟩ := h.returns
  rcases Nat.lt_trichotomy place last with hbefore | rfl | hbehind
  · obtain ⟨count, hitem, hle⟩ := Boundary.gap lengthAt_nonempty hplace hlast hbefore
    obtain ⟨op', hop', rfl⟩ := lengthAt_eq_some.mp hitem
    obtain rfl := Option.some.inj (hop.symm.trans hop')
    omega
  · exact Option.some.inj (hop.symm.trans hreturn)
  · omega

/-- Control goes from a boundary to a boundary, and to the end of the code by a jump only. -/
theorem FunctionOk.flows (h : FunctionOk compiledUnit finished fn)
    (hplace : IsBoundary compiledUnit fn place) (hflows : fn.Flows compiledUnit place next) :
    IsBoundary compiledUnit fn next ∧ (next = fn.code.length → fn.JumpsTo place next) := by
  have hshaped := h.shaped
  cases hflows with
  | @next op hlt hop hgoes =>
    obtain ⟨op', hop', -, hnext⟩ := hshaped.item hplace hlt
    obtain rfl := Option.some.inj (hop.symm.trans hop')
    exact ⟨hnext, fun hend => absurd (h.last hplace hlt hop hend) hgoes.2.2⟩
  | @forward op hlt hop hjump =>
    have hok := hshaped.instruction place op hplace hlt hop
    exact ⟨(hok.forward hjump).resolve_left id, fun _ => ⟨op, hop, hjump, rfl⟩⟩
  | backward hlt hop hdistance =>
    have hok := hshaped.instruction place _ hplace hlt hop
    obtain ⟨target, hle, htarget, hdistance'⟩ := hok.backward rfl
    obtain rfl : target = next := by omega
    exact ⟨htarget, fun hend => by omega⟩
  | pass hlt hop =>
    obtain ⟨op, hop', -, -⟩ := hshaped.item hplace hlt
    rw [hop] at hop'
    cases hop'

/-- All places that control comes to from the start of a function. -/
theorem FunctionOk.reaches (h : FunctionOk compiledUnit finished fn)
    (hreach : Relation.ReflTransGen (fn.Flows compiledUnit) 0 place) :
    IsBoundary compiledUnit fn place ∧ (place = fn.code.length →
      ∃ before, Relation.ReflTransGen (fn.Flows compiledUnit) 0 before ∧
        fn.JumpsTo before place) := by
  induction hreach with
  | refl =>
    obtain ⟨last, -, -, hlength⟩ := h.returns
    exact ⟨boundary_start, fun hend => absurd hend (by omega)⟩
  | tail hbefore hflows ih =>
    obtain ⟨hnext, hend⟩ := h.flows ih.1 hflows
    exact ⟨hnext, fun heq => ⟨_, hbefore, hend heq⟩⟩

/-- Wherever control comes to in a function of a compiled unit, a whole instruction stands there
that finds what its operands name, or the code ends there and a jump forward leads to the end. -/
theorem compiled_control_stays {session : CompilerSession} {program : List AstNode} {endLine : ℤ}
    (hcompile : (compile session program endLine).1 = some compiledUnit) {i : ℕ}
    (hi : i < compiledUnit.functions.length)
    (hreach : Relation.ReflTransGen
      ((cuGetFnByIndex compiledUnit i).Flows compiledUnit) 0 place) :
    let fn := cuGetFnByIndex compiledUnit i
    (∃ op, OpCode.ofByte? (codeAt fn place) = some op ∧
        place + instructionLength compiledUnit fn place op ≤ fn.code.length ∧
        InstructionOk ⟨compiledUnit, (· < compiledUnit.functions.length), fn.upvalueCount.toNat⟩
          (fun _ => False) fn place op) ∨
      place = fn.code.length ∧
        ∃ before, Relation.ReflTransGen (fn.Flows compiledUnit) 0 before ∧
          fn.JumpsTo before place := by
  have hok := (compile_wellShaped hcompile).functions i hi
  obtain ⟨hplace, hend⟩ := hok.reaches hreach
  rcases Nat.lt_or_ge place (cuGetFnByIndex compiledUnit i).code.length with hlt | hge
  · obtain ⟨op, hop, hfits, -⟩ := hok.shaped.item hplace hlt
    exact .inl ⟨op, hop, hfits, hok.shaped.instruction place op hplace hlt hop⟩
  · have heq := Nat.le_antisymm hplace.le hge
    exact .inr ⟨heq, hend heq⟩

/-- `if (true) nil;` -/
def ifProgram : List AstNode :=
  [.if_ 1 (.literal 1 (.boolean true)) (.exprStmt 1 (.literal 1 .nil)) none]

def ifUnit : CompiledUnit where
  functions := [{ code := [2, 23, 0, 6, 14, 1, 14, 25, 0, 1, 14, 1, 11].map (⟨·, 1⟩) }]

theorem compiled_control_stays_if :
    ∃ op, OpCode.ofByte? (codeAt (cuGetFnByIndex ifUnit 0) 10) = some op ∧
      10 + instructionLength ifUnit (cuGetFnByIndex ifUnit 0) 10 op ≤ 13 := by
  have hcompile : (compile {} ifProgram 1).1 = some ifUnit := by decide +kernel
  have hfirst : (cuGetFnByIndex ifUnit 0).Flows ifUnit 0 1 :=
    .next (by decide) (show OpCode.ofByte? _ = some .true_ from rfl) (by decide)
  have hsecond : (cuGetFnByIndex ifUnit 0).Flows ifUnit 1 10 :=
    .forward (by decide) (show OpCode.ofByte? _ = some .jumpIfFalse from rfl) (.inr (.inl rfl))
  rcases compiled_control_stays hcompile (show 0 < _ by decide)
      (.tail (.single hfirst) hsecond) with ⟨op, hop, hfits, -⟩ | ⟨hend, -⟩
  · exact ⟨op, hop, hfits⟩
  · exact absurd hend (by decide)

end KirbyLang
