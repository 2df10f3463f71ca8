import KirbyLang.Compiler
import KirbyLang.CompilerBindings

/-!
# Branches and loops

The statements that jump. A jump forward is open until it is patched, and a `break` is open until
its loop is compiled; a jump backward leads to a boundary that is remembered.

* `keepsShape_compileSkippingRight`, `keepsShape_compileOr`, `keepsShape_compileIf`: branches;
* `triple_beginLoop`, `triple_endLoop`: the loop around a body;
* `keepsShape_compileWhile`, `keepsShape_compileFor`, `keepsShape_compileBreak`,
  `keepsShape_compileContinue`.
-/

namespace KirbyLang

open Boundaries StickyErrors

variable {s s' s₀ : Compiler} {closing : ℕ} {pending : Pending} {nesting : Nesting}

/-! ### Branches -/

theorem keepsShape_pop : KeepsShape closing (emitOp .pop) := keepsShape_emitOp (by decide) rfl

theorem keepsShape_nil : KeepsShape closing (emitOp .nil) := keepsShape_emitOp (by decide) rfl

/-- Only which jumps are open matters. -/
theorem Compiler.Good.congr {closing' : ℕ} {pending' : Pending}
    (h : s₀.Good closing pending nesting s) (hclosing : closing ≤ closing')
    (hopen : ∀ operand, s.IsOpen closing' pending' operand ↔ s.IsOpen closing pending operand)
    (hfresh : ∀ operand ∈ pending'.new, s₀.current.fn.code.length ≤ operand) :
    s₀.Good closing' pending' nesting s := by
  have hok := h.ok
  have hloops := List.drop_subset_drop_left s.currentLoop hclosing
  refine ⟨⟨?_, hok.counted, hok.returns, fun l hl => hok.loops l (hloops hl), hok.arity,
    hok.upvalues, hok.indices, hok.known, hok.finished, hok.strings⟩, h.grows, hfresh⟩
  rw [funext fun operand => propext (hopen operand)]
  exact hok.code

/-- The jump before the last one is the next to be patched. -/
theorem Compiler.Good.swap {operand operand' : ℕ}
    (h : s₀.Good closing ((pending.add operand).add operand') nesting s) :
    s₀.Good closing ((pending.add operand').add operand) nesting s := by
  refine h.congr (Nat.le_refl _) (fun x => or_congr ?_ Iff.rfl) fun x hx => h.fresh x ?_
  · simp only [Pending.all, Pending.add, List.cons_append, List.mem_cons]
    exact or_left_comm
  · simp only [Pending.add, List.mem_cons] at hx ⊢
    exact or_left_comm.mp hx

theorem triple_patchEarlier (operand operand' : ℕ) (s₀ : Compiler) (pending : Pending)
    (nesting : Nesting) :
    Triple Compiler.Erred (s₀.Good closing ((pending.add operand).add operand') nesting)
      (patchJump operand) fun _ => s₀.Good closing (pending.add operand') nesting :=
  (triple_patchJump operand s₀ (pending.add operand') nesting).strengthen fun _ h => h.swap

theorem keepsShape_compileSkippingRight {instruction : OpCode} {left right : CompileM Unit}
    (hop : instruction.JumpsForward) (hleft : KeepsShape closing left)
    (hright : KeepsShape closing right) :
    KeepsShape closing (compileSkippingRight instruction left right) := by
  intro s₀ pending nesting
  refine (hleft s₀ pending nesting).bind fun _ => ?_
  refine (triple_emitJump hop s₀ pending nesting).bind fun endJump => ?_
  refine (keepsShape_pop s₀ (pending.add endJump) nesting).bind fun _ => ?_
  refine (hright s₀ (pending.add endJump) nesting).bind fun _ => ?_
  exact triple_patchJump endJump s₀ pending nesting

theorem keepsShape_compileOr {left right : CompileM Unit} (hleft : KeepsShape closing left)
    (hright : KeepsShape closing right) : KeepsShape closing (compileOr left right) := by
  intro s₀ pending nesting
  refine (hleft s₀ pending nesting).bind fun _ => ?_
  refine (triple_emitJump (.inr (.inl rfl)) s₀ pending nesting).bind fun elseJump => ?_
  refine (triple_emitJump (.inl rfl) s₀ (pending.add elseJump) nesting).bind fun endJump => ?_
  refine (triple_patchEarlier elseJump endJump s₀ pending nesting).bind fun _ => ?_
  refine (keepsShape_pop s₀ (pending.add endJump) nesting).bind fun _ => ?_
  refine (hright s₀ (pending.add endJump) nesting).bind fun _ => ?_
  exact triple_patchJump endJump s₀ pending nesting

theorem keepsShape_compileIf {condition thenBranch elseBranch : CompileM Unit}
    (hcondition : KeepsShape closing condition) (hthen : KeepsShape closing thenBranch)
    (helse : KeepsShape closing elseBranch) :
    KeepsShape closing (compileIf condition thenBranch elseBranch) := by
  intro s₀ pending nesting
  refine (hcondition s₀ pending nesting).bind fun _ => ?_
  refine (triple_emitJump (.inr (.inl rfl)) s₀ pending nesting).bind fun thenJump => ?_
  refine (keepsShape_pop s₀ (pending.add thenJump) nesting).bind fun _ => ?_
  refine (hthen s₀ (pending.add thenJump) nesting).bind fun _ => ?_
  refine (triple_emitJump (.inl rfl) s₀ (pending.add thenJump) nesting).bind fun elseJump => ?_
  refine (triple_patchEarlier thenJump elseJump s₀ pending nesting).bind fun _ => ?_
  refine (keepsShape_pop s₀ (pending.add elseJump) nesting).bind fun _ => ?_
  refine (helse s₀ (pending.add elseJump) nesting).bind fun _ => ?_
  exact triple_patchJump elseJump s₀ pending nesting

/-! ### Loops -/

/-- The loops around are changed. -/
theorem Compiler.Good.withLoops {closing' : ℕ} {pending' : Pending} {nesting' : Nesting}
    {loops : List LoopCompiler} (h : s₀.Good closing pending nesting s)
    (hopen : ∀ operand, Compiler.IsOpen { s with currentLoop := loops } closing' pending' operand ↔
      s.IsOpen closing pending operand)
    (htargets : ∀ loop ∈ loops.drop closing',
      IsBoundary s.compilingUnit s.current.fn loop.continueTarget)
    (hcount : loops.length = s₀.currentLoop.length + nesting'.loops)
    (hscopes : nesting'.scopes = nesting.scopes)
    (hjumps : ∀ loop ∈ loops.take nesting'.loops, ∀ operand ∈ loop.breakJumps,
      s₀.current.fn.code.length ≤ operand)
    (hfresh : ∀ operand ∈ pending'.new, s₀.current.fn.code.length ≤ operand) :
    s₀.Good closing' pending' nesting' { s with currentLoop := loops } := by
  have hok := h.ok
  have hgrows := h.grows
  refine ⟨⟨?_, hok.counted, hok.returns, htargets, hok.arity, hok.upvalues, hok.indices,
    hok.known, hok.finished, hok.strings⟩, ⟨hgrows.functions, hgrows.arena, hgrows.outer,
    hgrows.fnIndex, hgrows.enclosingLoop, hgrows.code, hgrows.constants, hgrows.upvalues, hcount,
    ?_, hjumps⟩, hfresh⟩
  · rw [funext fun operand => propext (hopen operand)]
    exact hok.code
  · rw [hscopes]
    exact hgrows.scopeDepth

/-- A boundary stays one. -/
theorem stable_boundary (place : ℕ) :
    Stable fun s => IsBoundary s.compilingUnit s.current.fn place :=
  fun _ _ hstays h => hstays.boundary place h

theorem triple_codeStart (s₀ : Compiler) (pending : Pending) (nesting : Nesting) :
    Triple Compiler.Erred (s₀.Good closing pending nesting) codeCount fun start s =>
      s₀.Good closing pending nesting s ∧ IsBoundary s.compilingUnit s.current.fn start := by
  refine triple_codeCount.weaken (fun _ h => h) ?_
  rintro start s ⟨h, rfl⟩
  exact ⟨h, h.ok.code.whole⟩

theorem triple_beginLoop {loop : LoopCompiler} (hbreaks : loop.breakJumps = []) (s₀ : Compiler)
    (pending : Pending) (nesting : Nesting) :
    Triple Compiler.Erred
      (fun s => s₀.Good 0 pending nesting s ∧
        IsBoundary s.compilingUnit s.current.fn loop.continueTarget)
      (beginLoop loop) fun _ s => s₀.Good 0 pending nesting.inLoop s ∧
        IsBoundary s.compilingUnit s.current.fn loop.continueTarget := by
  refine triple_modify (fun _ h => h) fun s ⟨h, htarget⟩ => ⟨?_, htarget⟩
  refine h.withLoops (fun operand => or_congr Iff.rfl ?_) (fun l hl => ?_) ?_ rfl
    (fun l hl operand hoperand => ?_) h.fresh
  · simp [hbreaks]
  · rcases List.mem_cons.mp hl with rfl | hl
    · exact htarget
    · exact h.ok.loops l hl
  · rw [List.length_cons, h.grows.loopCount]
    rfl
  · rcases List.mem_cons.mp hl with rfl | hl
    · rw [hbreaks] at hoperand
      cases hoperand
    · exact h.grows.newJumps l hl operand hoperand

/-- The `break`s of the innermost loop are to be patched. -/
theorem Compiler.Good.closeLoop {loop : LoopCompiler} {enclosing : List LoopCompiler}
    (h : s₀.Good 0 pending nesting.inLoop s) (hloops : s.currentLoop = loop :: enclosing) :
    s₀.Good 1 { pending with new := loop.breakJumps ++ pending.new } nesting.inLoop s := by
  refine h.congr (Nat.zero_le 1) (fun operand => ?_) fun operand hoperand => ?_
  · unfold Compiler.IsOpen Pending.all
    rw [hloops]
    simp only [List.drop_succ_cons, List.drop_zero, List.mem_append, List.exists_mem_cons_iff]
    tauto
  · rcases List.mem_append.mp hoperand with hbreak | hnew
    · exact h.grows.newJumps loop (by rw [hloops]; exact List.mem_cons_self) operand hbreak
    · exact h.fresh operand hnew

theorem triple_patchAll (jumps : List ℕ) (s₀ : Compiler) (pending : Pending) (nesting : Nesting) :
    Triple Compiler.Erred
      (s₀.Good closing { pending with new := jumps ++ pending.new } nesting)
      (jumps.forM patchJump) fun _ => s₀.Good closing pending nesting := by
  induction jumps with
  | nil => exact triple_pure fun _ h => h
  | cons jump jumps ih =>
    exact (triple_patchJump jump s₀ { pending with new := jumps ++ pending.new } nesting).bind
      fun _ => ih

theorem keepsLoops_forM {β : Type} {xs : List β} {f : β → CompileM Unit}
    (h : ∀ x ∈ xs, KeepsLoops (f x)) : KeepsLoops (xs.forM f) :=
  fun loops => triple_forM fun x hx => h x hx loops

theorem triple_endLoop (s₀ : Compiler) (pending : Pending) (nesting : Nesting) :
    Triple Compiler.Erred (s₀.Good 0 pending nesting.inLoop) endLoop fun _ =>
      s₀.Good 0 pending nesting := by
  refine triple_get fun s => ?_
  split
  · next hloops =>
    refine triple_pure ?_
    rintro _ ⟨rfl, h⟩
    have hcount := h.grows.loopCount
    rw [hloops] at hcount
    exact absurd hcount (Nat.ne_of_lt (Nat.succ_pos _))
  · next loop enclosing hloops =>
    have hpatch := (@triple_patchAll 1 loop.breakJumps s₀ pending nesting.inLoop).always
      ((keepsLoops_forM fun jump _ => keepsLoops_patchJump jump) (loop :: enclosing))
    refine Triple.bind (hpatch.strengthen ?_) fun _ => triple_modify (fun _ h => h) ?_
    · rintro _ ⟨rfl, h⟩
      exact ⟨h.closeLoop hloops, hloops⟩
    · rintro s' ⟨h, hsame⟩
      have hcount := h.grows.loopCount
      have htargets := h.ok.loops
      have hjumps := h.grows.newJumps
      rw [hsame] at hcount htargets hjumps
      refine h.withLoops (fun operand => ?_)
        (fun l hl => htargets l hl) (Nat.succ.inj hcount) rfl
        (fun l hl => hjumps l (List.mem_cons_of_mem _ hl)) h.fresh
      unfold Compiler.IsOpen
      rw [hsame]
      rfl

theorem keepsLoops_emitByte (byte : UInt8) : KeepsLoops (emitByte byte) :=
  keepsLoops_read fun _ => keepsLoops_modifyCurrent _

theorem keepsLoops_emitJump (instruction : OpCode) : KeepsLoops (emitJump instruction) :=
  (keepsLoops_countEmittedCode.bind fun _ => keepsLoops_read fun _ => keepsLoops_pure _).bind
    fun _ => (keepsLoops_emitByte _).bind fun _ =>
      ((keepsLoops_emitByte _).bind fun _ => keepsLoops_emitByte _).bind fun _ =>
        (keepsLoops_read fun _ => keepsLoops_pure _).bind fun _ => keepsLoops_pure _

theorem keepsLoops_emitPopsToDepth (targetDepth : ℕ) : KeepsLoops (emitPopsToDepth targetDepth) :=
  keepsLoops_read fun _ => keepsLoops_forM fun _ _ => keepsLoops_emitByte _

/-- A jump becomes one of the `break`s of the innermost loop. -/
theorem Compiler.Good.addBreak {loop : LoopCompiler} {enclosing : List LoopCompiler} {jump : ℕ}
    (h : s₀.Good 0 (pending.add jump) nesting s) (hloops : s.currentLoop = loop :: enclosing) :
    s₀.Good 0 pending nesting { s with
      currentLoop := { loop with breakJumps := loop.breakJumps ++ [jump] } :: enclosing } := by
  have hcount := h.grows.loopCount
  have htargets := h.ok.loops
  have hjumps := h.grows.newJumps
  rw [hloops] at hcount htargets hjumps
  refine h.withLoops (fun operand => ?_) (fun l hl => ?_) hcount rfl (fun l hl operand hmem => ?_)
    fun operand hmem => h.fresh operand (List.mem_cons_of_mem _ hmem)
  · unfold Compiler.IsOpen Pending.add Pending.all
    rw [hloops]
    rw [List.drop_zero, List.drop_zero, List.exists_mem_cons_iff, List.exists_mem_cons_iff]
    simp only [List.mem_append, List.mem_cons, List.not_mem_nil, or_false]
    tauto
  · rcases List.mem_cons.mp hl with rfl | hl
    · exact htargets loop List.mem_cons_self
    · exact htargets l (List.mem_cons_of_mem _ hl)
  · cases hdepth : nesting.loops with
    | zero => simp [hdepth] at hl
    | succ depth =>
      rw [hdepth, List.take_succ_cons] at hl hjumps
      rcases List.mem_cons.mp hl with rfl | hl
      · rcases List.mem_append.mp hmem with hold | hnew
        · exact hjumps loop List.mem_cons_self operand hold
        · obtain rfl := List.mem_singleton.mp hnew
          exact h.fresh operand List.mem_cons_self
      · exact hjumps l (List.mem_cons_of_mem _ hl) operand hmem

theorem keepsShape_compileBreak (line : ℤ) : KeepsShape 0 (compileBreak line) := by
  intro s₀ pending nesting
  refine triple_get fun s => ?_
  split
  · exact triple_compilerErrorAt _ _ _
  · next loop enclosing hloops =>
    refine .ite (fun _ => triple_compilerErrorAt _ _ _) fun _ => ?_
    have hpops := (@keepsShape_emitPopsToDepth 0 loop.scopeDepth s₀ pending nesting).always
      (keepsLoops_emitPopsToDepth loop.scopeDepth (loop :: enclosing))
    have hjump := (@triple_emitJump 0 _ (.inl rfl) s₀ pending nesting).always
      (keepsLoops_emitJump .jump (loop :: enclosing))
    refine (hpops.strengthen ?_).bind fun _ => hjump.bind fun jump =>
      triple_modify (fun _ h => h) ?_
    · rintro _ ⟨rfl, h⟩
      exact ⟨h, hloops⟩
    · rintro s' ⟨h, hsame⟩
      exact h.addBreak hsame

theorem keepsShape_compileContinue (line : ℤ) : KeepsShape 0 (compileContinue line) := by
  intro s₀ pending nesting
  refine triple_get fun s => ?_
  split
  · exact triple_compilerErrorAt _ _ _
  · next loop enclosing hloops =>
    refine (((keepsShape_emitPopsToDepth loop.continueDepth).carrying
      (stable_boundary loop.continueTarget) s₀ pending nesting).strengthen ?_).bind fun _ =>
        triple_emitLoop loop.continueTarget s₀ pending nesting
    rintro _ ⟨rfl, h⟩
    exact ⟨h, h.ok.loops loop (by rw [hloops]; exact List.mem_cons_self)⟩

theorem keepsShape_keepStackHeight {body : CompileM Unit} (hbody : KeepsShape closing body) :
    KeepsShape closing (keepStackHeight body) :=
  keepsShape_currentStackHeight.bind fun _ => hbody.bind fun _ => keepsShape_resetStackHeight _

/-- What of a loop stands behind its condition: the body, and what ends the loop. -/
theorem triple_loopRest {loop : LoopCompiler} {body rest : CompileM Unit} {nesting' : Nesting}
    (hbreaks : loop.breakJumps = []) (hbody : KeepsShape 0 body) (exitJump : ℕ)
    (hrest : Triple Compiler.Erred (s₀.Good 0 pending nesting.inLoop) rest fun _ =>
      s₀.Good 0 pending nesting') :
    Triple Compiler.Erred
      (fun s => s₀.Good 0 (pending.add exitJump) nesting s ∧
        IsBoundary s.compilingUnit s.current.fn loop.continueTarget)
      (do
        beginLoop loop
        body
        emitLoop loop.continueTarget
        patchJump exitJump
        emitOp .pop
        rest) fun _ => s₀.Good 0 pending nesting' := by
  refine (triple_beginLoop hbreaks s₀ (pending.add exitJump) nesting).bind fun _ => ?_
  refine (hbody.carrying (stable_boundary loop.continueTarget) s₀ (pending.add exitJump)
    nesting.inLoop).bind fun _ => ?_
  refine (triple_emitLoop loop.continueTarget s₀ (pending.add exitJump) nesting.inLoop).bind
    fun _ => ?_
  refine (triple_patchJump exitJump s₀ pending nesting.inLoop).bind fun _ => ?_
  exact (keepsShape_pop s₀ pending nesting.inLoop).bind fun _ => hrest

theorem triple_emitJump_carrying {op : OpCode} (hop : op.JumpsForward) {F : Compiler → Prop}
    (hF : Stable F) (s₀ : Compiler) (pending : Pending) (nesting : Nesting) :
    Triple Compiler.Erred (fun s => s₀.Good closing pending nesting s ∧ F s) (emitJump op)
      fun jump s => s₀.Good closing (pending.add jump) nesting s ∧ F s :=
  (@carrying closing ℕ _ (fun jump pending => pending.add jump) (fun _ => True)
    (fun s₀ pending nesting => (triple_emitJump hop s₀ pending nesting).strengthen fun _ h => h.1)
    F hF s₀ pending nesting).strengthen fun _ h => ⟨h.1, trivial, h.2⟩

theorem keepsShape_compileWhile {condition body : CompileM Unit}
    (hcondition : KeepsShape 0 condition) (hbody : KeepsShape 0 body) :
    KeepsShape 0 (compileWhile condition body) := by
  intro s₀ pending nesting
  refine (triple_codeStart s₀ pending nesting).bind fun loopStart => ?_
  have hstart := stable_boundary loopStart
  refine (hcondition.carrying hstart s₀ pending nesting).bind fun _ => ?_
  refine (triple_emitJump_carrying (.inr (.inl rfl)) hstart s₀ pending nesting).bind
    fun exitJump => ?_
  refine (keepsShape_pop.carrying hstart s₀ (pending.add exitJump) nesting).bind fun _ => ?_
  refine triple_read fun s => ?_
  exact triple_loopRest rfl hbody exitJump (triple_endLoop s₀ pending nesting)

/-- The increment is a boundary to which the body goes back. -/
theorem triple_compileIncrement (loopStart : ℕ) {increment : CompileM Unit}
    (hincrement : KeepsShape closing increment) (s₀ : Compiler) (pending : Pending)
    (nesting : Nesting) :
    Triple Compiler.Erred
      (fun s => s₀.Good closing pending nesting s ∧
        IsBoundary s.compilingUnit s.current.fn loopStart)
      (compileIncrement loopStart increment) fun start s => s₀.Good closing pending nesting s ∧
        IsBoundary s.compilingUnit s.current.fn start := by
  have hloop := stable_boundary loopStart
  refine (triple_emitJump_carrying (.inl rfl) hloop s₀ pending nesting).bind fun bodyJump => ?_
  have hstart : Triple Compiler.Erred
      (fun s => s₀.Good closing (pending.add bodyJump) nesting s ∧
        IsBoundary s.compilingUnit s.current.fn loopStart) codeCount fun start s =>
      s₀.Good closing (pending.add bodyJump) nesting s ∧
        IsBoundary s.compilingUnit s.current.fn loopStart ∧
        IsBoundary s.compilingUnit s.current.fn start := by
    refine triple_codeCount.weaken (fun _ h => h) ?_
    rintro start s ⟨⟨h, hbefore⟩, rfl⟩
    exact ⟨h, hbefore, h.ok.code.whole⟩
  refine hstart.bind fun incrementStart => ?_
  have hboth : Stable fun s => IsBoundary s.compilingUnit s.current.fn loopStart ∧
      IsBoundary s.compilingUnit s.current.fn incrementStart :=
    fun _ _ hstays h => ⟨hstays.boundary _ h.1, hstays.boundary _ h.2⟩
  refine (hincrement.carrying hboth s₀ (pending.add bodyJump) nesting).bind fun _ => ?_
  refine (keepsShape_pop.carrying hboth s₀ (pending.add bodyJump) nesting).bind fun _ => ?_
  have hback := @carrying closing Unit _ (fun _ pending => pending)
    (fun s => IsBoundary s.compilingUnit s.current.fn loopStart)
    (triple_emitLoop loopStart) _ (stable_boundary incrementStart) s₀ (pending.add bodyJump) nesting
  refine hback.bind fun _ => ?_
  exact (triple_patchJump_carrying bodyJump (stable_boundary incrementStart) s₀ pending
    nesting).bind fun _ => triple_pure fun _ h => h

/-- A `for` after its initializer, which has a scope of its own if there is one. -/
theorem triple_forRest {condition body rest : CompileM Unit} {increment : Option (CompileM Unit)}
    {nesting' : Nesting} (outerDepth : ℕ) (hcondition : KeepsShape 0 condition)
    (hincrement : ∀ increment' ∈ increment, KeepsShape 0 increment') (hbody : KeepsShape 0 body)
    (hrest : Triple Compiler.Erred (s₀.Good 0 pending nesting.inLoop) rest fun _ =>
      s₀.Good 0 pending nesting') :
    Triple Compiler.Erred (s₀.Good 0 pending nesting) (do
      let loopStart ← codeCount
      condition
      let exitJump ← emitJump .jumpIfFalse
      emitOp .pop
      let loopStart ← match increment with
        | some increment => compileIncrement loopStart increment
        | none => pure loopStart
      let scopeDepth := (← get).current.scopeDepth
      beginLoop
        { scopeDepth := outerDepth, continueTarget := loopStart, continueDepth := scopeDepth }
      body
      emitLoop loopStart
      patchJump exitJump
      emitOp .pop
      rest) fun _ => s₀.Good 0 pending nesting' := by
  refine (triple_codeStart s₀ pending nesting).bind fun loopStart => ?_
  have hstart := stable_boundary loopStart
  refine (hcondition.carrying hstart s₀ pending nesting).bind fun _ => ?_
  refine (triple_emitJump_carrying (.inr (.inl rfl)) hstart s₀ pending nesting).bind
    fun exitJump => ?_
  refine (keepsShape_pop.carrying hstart s₀ (pending.add exitJump) nesting).bind fun _ => ?_
  have hloop : ∀ target, Triple Compiler.Erred
      (fun s => s₀.Good 0 (pending.add exitJump) nesting s ∧
        IsBoundary s.compilingUnit s.current.fn target) (do
          let scopeDepth := (← get).current.scopeDepth
          beginLoop
            { scopeDepth := outerDepth, continueTarget := target, continueDepth := scopeDepth }
          body
          emitLoop target
          patchJump exitJump
          emitOp .pop
          rest) fun _ => s₀.Good 0 pending nesting' :=
    fun target => triple_read fun s => triple_loopRest rfl hbody exitJump hrest
  cases increment with
  | none => exact hloop loopStart
  | some increment =>
    exact (triple_compileIncrement loopStart (hincrement increment rfl) s₀ (pending.add exitJump)
      nesting).bind hloop

theorem keepsShape_compileFor {init increment : Option (CompileM Unit)}
    {condition body : CompileM Unit} (hinit : ∀ init' ∈ init, KeepsShape 0 init')
    (hcondition : KeepsShape 0 condition)
    (hincrement : ∀ increment' ∈ increment, KeepsShape 0 increment') (hbody : KeepsShape 0 body) :
    KeepsShape 0 (compileFor init condition increment body) := by
  intro s₀ pending nesting
  refine triple_read fun s => ?_
  cases init with
  | none =>
    exact triple_forRest s.current.scopeDepth hcondition hincrement hbody
      (triple_endLoop s₀ pending nesting)
  | some init =>
    refine (triple_beginScope s₀ pending nesting).bind fun _ =>
      (hinit init rfl s₀ pending nesting.inScope).bind fun _ => ?_
    have hend : Triple Compiler.Erred (s₀.Good 0 pending nesting.inScope.inLoop) (do
        endScope
        endLoop) fun _ => s₀.Good 0 pending nesting :=
      (triple_endScope s₀ pending nesting.inLoop).bind fun _ => triple_endLoop s₀ pending nesting
    exact triple_forRest s.current.scopeDepth hcondition hincrement hbody hend

end KirbyLang
