import KirbyLang.CompilerFlow

/-!
# Functions

A function is compiled between `initCompiler` and `endCompiler`, on a state of its own that stands
on the state of the function around. When it ends, its code is well shaped as a whole, and what has
happened to the function around is what a part of its own code may do.

* `Compiler.opened`: the state that a function starts from; `Compiler.ended`: what it leaves;
* `Compiler.Good.ended`: the function around goes on;
* `triple_emitClosure`, `keepsShape_compileFunction`.
-/

namespace KirbyLang

open Boundaries StickyErrors

variable {s s' s₀ : Compiler} {closing : ℕ} {pending : Pending} {nesting : Nesting}

/-! ### A function is begun -/

/-- A function that is begun, over the loops that are left. -/
def Compiler.opened (s : Compiler) (type : FunctionType) (loops : List LoopCompiler) : Compiler :=
  { s with
    current := newFnCompiler s.compilingUnit.functions.length type s.currentLoop
    enclosing := s.current :: s.enclosing
    currentLoop := loops
    compilingUnit := (cuAddFunction s.compilingUnit).2 }

theorem boundary_start {compiledUnit : CompiledUnit} {fn : CompiledFn} :
    IsBoundary compiledUnit fn 0 := .start

/-- A function without code is well shaped. -/
theorem shaped_empty {a : Setting} {isOpen : ℕ → Prop} {fn : CompiledFn} (hcode : fn.code = [])
    (hconstants : fn.constants = []) (hname : fn.nameLength = -1) (hopen : ∀ x, ¬ isOpen x) :
    Shaped a isOpen fn := by
  refine ⟨?_, fun place op _ hlt _ => ?_, fun x hx => absurd hx (hopen x), ?_, fun h => ?_⟩
  · rw [hcode]
    exact boundary_start
  · rw [hcode] at hlt
    exact absurd hlt (Nat.not_lt_zero _)
  · rw [hconstants]
    exact nofun
  · rw [hname] at h
    exact absurd h (by decide)

theorem finished_opened {type : FunctionType} {loops : List LoopCompiler} {i : ℕ}
    (h : (s.opened type loops).Finished i) : s.Finished i := by
  obtain ⟨hlt, hne⟩ := h
  have hi : s.compilingUnit.functions.length ≠ i := hne _ List.mem_cons_self
  have hle : i < s.compilingUnit.functions.length + 1 := by
    simpa [Compiler.opened, cuAddFunction] using hlt
  exact ⟨by omega, fun c hc => hne c (List.mem_cons_of_mem _ hc)⟩

theorem cuGetFnByIndex_cuAddFunction {compiledUnit : CompiledUnit} {i : ℕ}
    (hi : i < compiledUnit.functions.length) :
    cuGetFnByIndex (cuAddFunction compiledUnit).2 i = cuGetFnByIndex compiledUnit i :=
  cuGetFnByIndex_prefixed (List.prefix_append _ _) hi

theorem Compiler.Ok.opened (h : s.Ok closing pending) (type : FunctionType)
    (loops : List LoopCompiler) : (s.opened type loops).Ok loops.length {} := by
  have hopen : ∀ x, ¬ (s.opened type loops).IsOpen loops.length {} x := by
    rintro x (hx | ⟨loop, hloop, -⟩)
    · cases hx
    · rw [show (s.opened type loops).currentLoop = loops from rfl, List.drop_length] at hloop
      cases hloop
  have hzero : (0 : ℤ) ≤ 255 := by decide
  refine ⟨shaped_empty rfl rfl rfl hopen, boundary_start, fun hreturn => ?_, fun loop hloop => ?_,
    ⟨Int.le_refl 0, hzero⟩, ⟨⟨Nat.zero_le _, nofun⟩, h.upvalues⟩, ?_, fun i hi => ?_,
    fun i hi => ?_, h.strings⟩
  · cases hreturn
  · rw [show (s.opened type loops).currentLoop = loops from rfl, List.drop_length] at hloop
    cases hloop
  · refine List.nodup_cons.mpr ⟨fun hmem => ?_, h.indices⟩
    exact absurd (h.known _ hmem) (Nat.lt_irrefl _)
  · show i < (s.compilingUnit.functions ++ [({} : CompiledFn)]).length
    rw [List.length_append]
    rcases List.mem_cons.mp hi with rfl | hmem
    · exact Nat.lt_succ_self _
    · exact Nat.lt_succ_of_lt (h.known i hmem)
  · have hold := finished_opened hi
    show FunctionOk _ _ (cuGetFnByIndex (cuAddFunction s.compilingUnit).2 i)
    rw [cuGetFnByIndex_cuAddFunction hold.1]
    refine (h.finished i hold).mono ⟨fun j hj => ?_, fun j hj => ?_, Nat.le_refl _, Nat.le_refl _⟩
    · refine ⟨Nat.lt_of_lt_of_le hj.1 (List.prefix_append _ _).length_le, fun c hc => ?_⟩
      rcases List.mem_cons.mp hc with rfl | hmem
      · exact Nat.ne_of_gt hj.1
      · exact hj.2 c hmem
    · exact congrArg CompiledFn.upvalueCount (cuGetFnByIndex_cuAddFunction hj.1)

/-! ### A function is ended -/

/-- What `endCompiler` leaves when the code is complete. -/
def Compiler.ended (s : Compiler) : Compiler :=
  { s with
    compilingUnit := { s.compilingUnit with
      functions := s.compilingUnit.functions.set s.current.fnIndex
        { s.current.fn with upvalueCount := s.current.upvalues.length } }
    current := s.enclosing.headD s.current
    enclosing := s.enclosing.tail
    heights := s.heights ++ [(s.current.fnIndex, s.current.tracked)] }

theorem ended_get_self (h : s.current.fnIndex < s.compilingUnit.functions.length) :
    cuGetFnByIndex s.ended.compilingUnit s.current.fnIndex =
      { s.current.fn with upvalueCount := s.current.upvalues.length } := by
  show (s.compilingUnit.functions.set _ _).getD _ _ = _
  rw [List.getD_eq_getElem?_getD, List.getElem?_set_self h, Option.getD_some]

theorem ended_get_ne {i : ℕ} (h : s.current.fnIndex ≠ i) :
    cuGetFnByIndex s.ended.compilingUnit i = cuGetFnByIndex s.compilingUnit i := by
  show (s.compilingUnit.functions.set _ _).getD _ _ = s.compilingUnit.functions.getD _ _
  rw [List.getD_eq_getElem?_getD, List.getD_eq_getElem?_getD, List.getElem?_set_ne h]

theorem ended_length : s.ended.compilingUnit.functions.length = s.compilingUnit.functions.length :=
  List.length_set

/-- The functions that are finished when a function ends. -/
def Compiler.FinishedAtEnd (s : Compiler) (i : ℕ) : Prop :=
  i < s.compilingUnit.functions.length ∧ ∀ c ∈ s.enclosing, c.fnIndex ≠ i

theorem Compiler.Finished.atEnd {i : ℕ} (h : s.Finished i) : s.FinishedAtEnd i :=
  ⟨h.1, fun c hc => h.2 c (List.mem_cons_of_mem _ hc)⟩

/-- When a function ends, it is finished, and so is what was. -/
theorem Compiler.FinishedAtEnd.cases {i : ℕ} (h : s.FinishedAtEnd i) :
    s.current.fnIndex = i ∨ s.Finished i := by
  rcases Decidable.em (s.current.fnIndex = i) with heq | hother
  · exact .inl heq
  · refine .inr ⟨h.1, fun d hd => ?_⟩
    rcases List.mem_cons.mp hd with rfl | hmem
    · exact hother
    · exact h.2 d hmem

/-- The function that ends is finished, and nothing that was finished before is changed. -/
theorem before_ended (s : Compiler) :
    s.setting.Before ⟨s.ended.compilingUnit, s.FinishedAtEnd, s.current.upvalues.length⟩ := by
  refine ⟨fun i hi => Compiler.Finished.atEnd hi, fun i hi => ?_, Nat.le_refl _, Nat.le_refl _⟩
  exact congrArg CompiledFn.upvalueCount (ended_get_ne (hi.2 _ List.mem_cons_self))

/-- The function that ends is well shaped as a whole. -/
theorem Compiler.Ok.functionOk_ended (h : s.Ok closing {})
    (hclosing : s.currentLoop.drop closing = [])
    (hreturns : ReturnsBefore s.compilingUnit s.current.fn s.current.fn.code.length) :
    FunctionOk s.ended.compilingUnit s.FinishedAtEnd
      { s.current.fn with upvalueCount := s.current.upvalues.length } := by
  have hbefore := before_ended s
  have hopen : s.IsOpen closing {} = fun _ => False := by
    funext x
    rw [Compiler.IsOpen, hclosing]
    simp [Pending.all]
  have hcode := h.code
  rw [hopen] at hcode
  refine ⟨hcode.mono hbefore (List.prefix_refl _) rfl
      (fun x hx => hbefore.holds (hcode.pool x hx)) fun hname => hbefore.slice (hcode.name hname),
    ?_, h.arity, ⟨Int.natCast_nonneg _, Int.ofNat_le.mpr (upvaluesOk_bounded h.upvalues)⟩⟩
  exact hreturns.carry (hcode.carries_mono hbefore (List.prefix_refl _) rfl) (Nat.le_refl _)

/-- All that is finished when a function ends is well shaped. -/
theorem Compiler.Ok.finished_ended (h : s.Ok closing {})
    (hclosing : s.currentLoop.drop closing = [])
    (hreturns : ReturnsBefore s.compilingUnit s.current.fn s.current.fn.code.length) (i : ℕ)
    (hi : s.FinishedAtEnd i) :
    FunctionOk s.ended.compilingUnit s.FinishedAtEnd
      (cuGetFnByIndex s.ended.compilingUnit i) := by
  rcases hi.cases with rfl | hold
  · rw [ended_get_self (h.known _ List.mem_cons_self)]
    exact h.functionOk_ended hclosing hreturns
  · rw [ended_get_ne (hold.2 _ List.mem_cons_self)]
    have hbefore := before_ended s
    exact (h.finished i hold).mono
      ⟨hbefore.finished, hbefore.captured, hbefore.arena, Nat.le_refl _⟩

/-- What a closure is made of: a function that is finished, and the variables it captures. -/
structure Compiler.Made (index : ℕ) (upvalues : List Upvalue) (s : Compiler) : Prop where
  finished : s.Finished index
  count : (cuGetFnByIndex s.compilingUnit index).upvalueCount = upvalues.length
  captured : ∀ u ∈ upvalues, u.isLocal = false → u.index.toNat < s.current.upvalues.length

theorem stable_made (index : ℕ) (upvalues : List Upvalue) :
    Stable (Compiler.Made index upvalues) := by
  intro s s' hstays h
  refine ⟨hstays.before.finished _ h.finished, ?_, fun u hu hlocal =>
    Nat.lt_of_lt_of_le (h.captured u hu hlocal) hstays.before.upvalueCount⟩
  exact (hstays.before.captured _ h.finished).trans h.count

theorem prefix_set {α : Type} {xs ys : List α} (h : xs <+: ys) {i : ℕ} (hi : xs.length ≤ i)
    (x : α) : xs <+: ys.set i x := by
  obtain ⟨rest, rfl⟩ := h
  rw [List.set_append_right _ _ hi]
  exact List.prefix_append _ _

theorem finished_ended_iff {c : FnCompiler} {rest : List FnCompiler}
    (henclosing : s.enclosing = c :: rest) : s.ended.Finished = s.FinishedAtEnd := by
  funext i
  have hall : s.ended.current :: s.ended.enclosing = s.enclosing := by
    show s.enclosing.headD s.current :: s.enclosing.tail = s.enclosing
    rw [henclosing]
    rfl
  rw [Compiler.Finished, Compiler.FinishedAtEnd, hall, ended_length]

section Ended

variable {type : FunctionType} {inner : Nesting} {c : FnCompiler} {rest : List FnCompiler}
  (h : s₀.Good closing pending nesting s)
  (hinner : (s.opened type s.currentLoop).Good s.currentLoop.length {} inner s')
  (hloops : s'.currentLoop = s.currentLoop)
  (hreturns : ReturnsBefore s'.compilingUnit s'.current.fn s'.current.fn.code.length)
  (henclosing : s'.enclosing = c :: rest) (hc : s.current.Captures c)
  (hrest : List.Forall₂ FnCompiler.Captures s.enclosing rest)

include hinner in
theorem functions_opened : s.compilingUnit.functions <+: s'.compilingUnit.functions :=
  (List.prefix_append _ _).trans hinner.grows.functions

include hinner henclosing in
/-- The function around relies on what it relied on. -/
theorem before_outer (hc : s.current.Captures c)
    (hrest : List.Forall₂ FnCompiler.Captures s.enclosing rest) :
    s.setting.Before s'.ended.setting := by
  have hfunctions := functions_opened hinner
  have hindex : s'.current.fnIndex = s.compilingUnit.functions.length := hinner.grows.fnIndex
  have hindices : (c :: rest).map FnCompiler.fnIndex =
      (s.current :: s.enclosing).map FnCompiler.fnIndex := by
    rw [List.map_cons, List.map_cons, hc.fnIndex, captures_indices hrest]
  refine ⟨fun i hi => ?_, fun i hi => ?_, hinner.grows.arena.length_le, ?_⟩
  · show s'.ended.Finished i
    rw [finished_ended_iff henclosing]
    have hi' := finished_iff.mp hi
    refine ⟨Nat.lt_of_lt_of_le hi'.1 hfunctions.length_le, fun d hd heq => hi'.2 ?_⟩
    rw [← hindices, ← heq]
    rw [henclosing] at hd
    exact List.mem_map_of_mem hd
  · have hi' : i < s.compilingUnit.functions.length := hi.1
    show (cuGetFnByIndex s'.ended.compilingUnit i).upvalueCount =
      (cuGetFnByIndex s.compilingUnit i).upvalueCount
    rw [ended_get_ne (by omega), cuGetFnByIndex_prefixed hfunctions hi']
  · show s.current.upvalues.length ≤ (s'.enclosing.headD s'.current).upvalues.length
    rw [henclosing]
    exact hc.1.length_le

include h hinner hloops hreturns henclosing hc hrest in
/-- The function around goes on as if a part of its own code had been compiled. -/
theorem Compiler.Good.ended : s₀.Good closing pending nesting s'.ended ∧
    s'.ended.Made s'.current.fnIndex s'.current.upvalues := by
  have hok := h.ok
  have hgrows := h.grows
  have hinnerOk := hinner.ok
  have hcurrent : s'.ended.current = c := by
    show s'.enclosing.headD s'.current = c
    rw [henclosing]
    rfl
  have hrest' : s'.ended.enclosing = rest := by
    show s'.enclosing.tail = rest
    rw [henclosing]
    rfl
  have hfn : s'.ended.current.fn = s.current.fn := by rw [hcurrent, hc.2]
  have hcount : s'.ended.current.toStackCount = s.current.toStackCount := by rw [hcurrent, hc.2]
  have hbefore := before_outer hinner henclosing hc hrest
  have hconstants : s.current.fn.constants <+: s'.ended.current.fn.constants := by rw [hfn]
  have hcode : s'.ended.current.fn.code = s.current.fn.code := by rw [hfn]
  have hcarries := hok.code.carries_mono hbefore hconstants hcode
  have hopen : s'.ended.IsOpen closing pending = s.IsOpen closing pending := by
    funext operand
    rw [Compiler.IsOpen, Compiler.IsOpen, show s'.ended.currentLoop = s.currentLoop from hloops]
  have hclosed : s'.currentLoop.drop s.currentLoop.length = [] := by
    rw [hloops, List.drop_length]
  have hchain := hinnerOk.upvalues
  have hnodup := hinnerOk.indices
  rw [henclosing] at hchain hnodup
  have hfinished := finished_ended_iff henclosing
  refine ⟨⟨⟨?_, ?_, fun hreturn => ?_, fun loop hloop => ?_, ?_, ?_, ?_, fun i hi => ?_, ?_,
    hinnerOk.strings⟩, ⟨?_, hgrows.arena.trans hinner.grows.arena, ?_, ?_, ?_, ?_, ?_, ?_, ?_, ?_,
    ?_⟩, h.fresh⟩, ⟨?_, ?_, fun u hu hlocal => ?_⟩⟩
  · rw [hopen]
    refine hok.code.mono hbefore hconstants hcode (fun x hx => ?_) fun hname => ?_
    · rw [hfn] at hx
      exact hbefore.holds (hok.code.pool x hx)
    · rw [hfn] at hname ⊢
      exact hbefore.slice (hok.code.name hname)
  · rw [hcount]
    exact hcarries.boundary _ hok.counted
  · rw [hcount] at hreturn ⊢
    exact (hok.returns hreturn).carry hcarries hok.counted.le
  · exact hcarries.boundary _ (hok.loops loop (hloops ▸ hloop))
  · rw [hfn]
    exact hok.arity
  · rw [hcurrent, hrest']
    exact hchain.2
  · rw [hcurrent, hrest']
    exact (List.nodup_cons.mp hnodup).2
  · rw [hcurrent, hrest', ← henclosing] at hi
    rw [ended_length]
    exact hinnerOk.known i (List.mem_cons_of_mem _ hi)
  · rw [hfinished]
    exact hinnerOk.finished_ended hclosed hreturns
  · refine hgrows.functions.trans (prefix_set (functions_opened hinner) ?_ _)
    exact Nat.le_of_eq hinner.grows.fnIndex.symm
  · rw [hrest']
    exact captures_trans hgrows.outer hrest
  · rw [hcurrent, hc.fnIndex]
    exact hgrows.fnIndex
  · rw [hcurrent, hc.2]
    exact hgrows.enclosingLoop
  · rw [hfn]
    exact hgrows.code
  · rw [hfn]
    exact hgrows.constants
  · rw [hcurrent]
    exact hgrows.upvalues.trans hc.1
  · rw [show s'.ended.currentLoop = s.currentLoop from hloops]
    exact hgrows.loopCount
  · rw [hcurrent, hc.2]
    exact hgrows.scopeDepth
  · rw [show s'.ended.currentLoop = s.currentLoop from hloops]
    exact hgrows.newJumps
  · rw [hfinished]
    refine ⟨hinnerOk.known _ List.mem_cons_self, fun d hd heq => ?_⟩
    rw [henclosing] at hd
    exact (List.nodup_cons.mp hnodup).1 (heq ▸ List.mem_map_of_mem hd)
  · rw [ended_get_self (hinnerOk.known _ List.mem_cons_self)]
  · rw [hcurrent]
    exact hchain.1.2 u hu hlocal

end Ended

/-! ### Inside a function -/

/-- A function inside another one is being compiled. -/
def Within (s₀ : Compiler) (closing : ℕ) (pending : Pending) (nesting : Nesting)
    (type : FunctionType) (inner : Nesting) (s' : Compiler) : Prop :=
  ∃ s, s₀.Good closing pending nesting s ∧ (s.opened type []).Good 0 {} inner s'

/-- A function is complete but for its return, over the loops around it. What is known refers to the
state in which it was begun. -/
def Ending (known : Compiler → Prop) (start : Compiler → Compiler)
    (loops : Compiler → List LoopCompiler) (inner : Nesting) (s' : Compiler) : Prop :=
  ∃ s, known s ∧ ((start s).Good (loops s).length {} inner s' ∧ s'.currentLoop = loops s)

section Within

variable {type : FunctionType} {inner inner' : Nesting} {α : Type} {p : CompileM α}

theorem triple_within (hp : ∀ base : Compiler,
      Triple Compiler.Erred (base.Good 0 {} inner) p fun _ => base.Good 0 {} inner') :
    Triple Compiler.Erred (Within s₀ closing pending nesting type inner) p fun _ =>
      Within s₀ closing pending nesting type inner' :=
  triple_before fun _ => hp _

theorem KeepsShape.within (hp : KeepsShape 0 p) :
    Triple Compiler.Erred (Within s₀ closing pending nesting type inner) p fun _ =>
      Within s₀ closing pending nesting type inner :=
  triple_within fun base => hp base {} inner

/-- A part of the function is changed that is not its code. -/
theorem Compiler.Good.withFn {fn : CompiledFn} (h : s₀.Good closing pending nesting s)
    (hcode : fn.code = s.current.fn.code) (hconstants : fn.constants = s.current.fn.constants)
    (harity : 0 ≤ fn.arity ∧ fn.arity ≤ 255)
    (hname : 0 ≤ fn.nameLength →
      Slice fn.nameOffset fn.nameLength s.compilingUnit.strings.arena.length) :
    s₀.Good closing pending nesting { s with current := { s.current with fn } } := by
  have hprefix : s.current.fn.constants <+: fn.constants := by rw [hconstants]
  have hedits : s.Edits { s with current := { s.current with fn } } :=
    .ofCode s hprefix fun _ => harity
  have hshaped := h.ok.code
  refine hedits.good h (hshaped.carries_mono hedits.before hprefix hcode) ?_ ?_ rfl rfl h.fresh
  · refine hshaped.mono hedits.before hprefix hcode (fun c hc => ?_) hname
    rw [hconstants] at hc
    exact hedits.before.holds (hshaped.pool c hc)
  · rw [hcode]
    exact h.grows.code

theorem keepsShape_setFnName (chars : Bytes) : KeepsShape closing (setFnName chars) := by
  intro s₀ pending nesting
  have hset : ∀ offset : ℕ, Triple Compiler.Erred (fun s => s₀.Good closing pending nesting s ∧
      Slice offset chars.length s.compilingUnit.strings.arena.length)
      (modifyCurrentFn fun fn => { fn with nameOffset := offset, nameLength := chars.length })
      fun _ => s₀.Good closing pending nesting := by
    refine fun offset => triple_modify (fun _ h => h) ?_
    rintro s ⟨h, hslice⟩
    exact h.withFn rfl rfl h.ok.arity fun _ => hslice
  exact triple_interned hset

theorem triple_initCompiler (type : FunctionType) (nameToken : Option Token) :
    Triple Compiler.Erred (s₀.Good closing pending nesting) (initCompiler type nameToken) fun _ =>
      Within s₀ closing pending nesting type {} := by
  have hopen : Triple Compiler.Erred (s₀.Good closing pending nesting)
      (modify fun s => s.opened type [] : CompileM PUnit) fun _ =>
        Within s₀ closing pending nesting type {} :=
    triple_modify (fun _ h => h) fun s h => ⟨s, h, (h.ok.opened type []).good⟩
  refine hopen.bind fun _ => ?_
  cases nameToken with
  | some nameToken => exact (keepsShape_setFnName nameToken.text).within
  | none =>
    refine .ite (fun _ => ?_) fun _ => triple_pure fun _ h => h
    have hcount : KeepsShape 0 (modify fun s => { s with lambdaCount := s.lambdaCount + 1 }) :=
      keepsShape_modify fun _ => rfl
    exact (hcount.bind fun _ => keepsShape_read fun _ => keepsShape_setFnName _).within

/-! ### The end of a function -/

/-- The loops around are looked at again, and none of their `break`s is in the function. -/
theorem Compiler.Good.overLoops (h : (s.opened type []).Good 0 {} inner s')
    (hinner : inner.loops = 0) :
    (s.opened type s.currentLoop).Good s.currentLoop.length {} inner
      { s' with currentLoop := s'.current.enclosingLoop } := by
  have hok := h.ok
  have hgrows := h.grows
  have hloops : s'.current.enclosingLoop = s.currentLoop := hgrows.enclosingLoop
  have hnone : s'.currentLoop = [] := by
    have hcount := hgrows.loopCount
    rw [hinner] at hcount
    exact List.eq_nil_of_length_eq_zero hcount
  have hdrop : s'.current.enclosingLoop.drop s.currentLoop.length = [] := by
    rw [hloops, List.drop_length]
  refine ⟨⟨?_, hok.counted, hok.returns, fun loop hloop => ?_, hok.arity, hok.upvalues, hok.indices,
    hok.known, hok.finished, hok.strings⟩, ⟨hgrows.functions, hgrows.arena, hgrows.outer,
    hgrows.fnIndex, hgrows.enclosingLoop, hgrows.code, hgrows.constants, hgrows.upvalues, ?_,
    hgrows.scopeDepth, ?_⟩, h.fresh⟩
  · have hopen : Compiler.IsOpen { s' with currentLoop := s'.current.enclosingLoop }
        s.currentLoop.length {} = s'.IsOpen 0 {} := by
      funext operand
      unfold Compiler.IsOpen
      rw [hnone]
      show (_ ∨ ∃ loop ∈ s'.current.enclosingLoop.drop s.currentLoop.length, _) = _
      rw [hdrop]
      rfl
    rw [hopen]
    exact hok.code
  · rw [show List.drop _ _ = [] from hdrop] at hloop
    cases hloop
  · show s'.current.enclosingLoop.length = s.currentLoop.length + inner.loops
    rw [hloops, hinner, Nat.add_zero]
  · rw [hinner]
    exact nofun

/-- The code ends with a return. -/
def Compiler.Complete (s : Compiler) : Prop :=
  ReturnsBefore s.compilingUnit s.current.fn s.current.fn.code.length

theorem triple_emitReturn (s₀ : Compiler) (pending : Pending) (nesting : Nesting) :
    Triple Compiler.Erred (s₀.Good closing pending nesting) (emitOp .return_) fun _ s =>
      s₀.Good closing pending nesting s ∧ s.Complete := by
  refine triple_emitByte fun s h => ⟨h.emittedFree (by decide) rfl, s.current.fn.code.length, ?_,
    ?_, (@length_emit s.current.fn s.currentLine [OpCode.return_.toByte]).symm⟩
  · exact h.ok.code.carries_emit.boundary _ h.ok.code.whole
  · rw [show codeAt (s.emitted [OpCode.return_.toByte]).current.fn s.current.fn.code.length =
      OpCode.return_.toByte from codeAt_emit 0]
    exact OpCode.ofByte?_toByte .return_

theorem triple_countComplete (s₀ : Compiler) (pending : Pending) (nesting : Nesting) :
    Triple Compiler.Erred (fun s => s₀.Good closing pending nesting s ∧ s.Complete)
      countEmittedCode fun _ s => s₀.Good closing pending nesting s ∧ s.Complete := by
  intro s
  refine ⟨(triple_countEmittedCode s₀ closing pending nesting s).1, fun ⟨h, hcomplete⟩ => ?_⟩
  refine ((triple_countEmittedCode s₀ closing pending nesting s).2 h).imp_right fun hcounted =>
    ⟨hcounted.1, ?_⟩
  obtain ⟨count, hrun, -, -⟩ := countEmittedCode_run h.ok
  rw [hrun]
  exact hcomplete

theorem keepsLoops_emitOp (op : OpCode) : KeepsLoops (emitOp op) := keepsLoops_emitByte _

section Ending

variable {known : Compiler → Prop} {start : Compiler → Compiler}
  {loops : Compiler → List LoopCompiler}

theorem triple_ending {q : CompileM α} {before after : Compiler → Prop}
    (hq : ∀ (base : Compiler) closing, Triple Compiler.Erred
      (fun s => base.Good closing {} inner s ∧ before s) q fun _ s =>
        base.Good closing {} inner s ∧ after s)
    (hloops : KeepsLoops q) :
    Triple Compiler.Erred (fun s => Ending known start loops inner s ∧ before s) q fun _ s =>
      Ending known start loops inner s ∧ after s := by
  have hall := @triple_before _ _ Compiler.Erred q
    (fun s s' => ((start s).Good (loops s).length {} inner s' ∧ before s') ∧
      s'.currentLoop = loops s)
    (fun s _ s' => ((start s).Good (loops s).length {} inner s' ∧ after s') ∧
      s'.currentLoop = loops s)
    known fun s => (hq (start s) (loops s).length).always (hloops (loops s))
  refine hall.weaken ?_ ?_
  · rintro s' ⟨⟨s, hknown, h, hsame⟩, hbefore⟩
    exact ⟨s, hknown, ⟨h, hbefore⟩, hsame⟩
  · rintro _ s' ⟨s, hknown, ⟨h, hafter⟩, hsame⟩
    exact ⟨⟨s, hknown, h, hsame⟩, hafter⟩

theorem triple_endCompiler {pre : Compiler → Prop} {post : ℕ × List Upvalue → Compiler → Prop}
    (hstart : ∀ s, pre s →
      Ending known start loops inner { s with currentLoop := s.current.enclosingLoop })
    (hend : ∀ s, Ending known start loops inner s → s.Complete →
      post (s.current.fnIndex, s.current.upvalues) s.ended) :
    Triple Compiler.Erred pre endCompiler post := by
  have hcount : Triple Compiler.Erred (Ending known start loops inner) countEmittedCode fun _ s =>
      Ending known start loops inner s ∧ s.Counted :=
    (triple_ending (fun base closing => (triple_countEmittedCode base closing {} inner).strengthen
      fun _ h => h.1) keepsLoops_countEmittedCode).strengthen fun _ h => ⟨h, trivial⟩
  have hbegin : Triple Compiler.Erred pre
      (modify fun s => { s with currentLoop := s.current.enclosingLoop } : CompileM PUnit) fun _ =>
        Ending known start loops inner := triple_modify (fun _ h => h) hstart
  refine hbegin.bind fun _ => hcount.bind fun _ => triple_get fun s => ?_
  extract_lets rest
  have hrest : ∀ r, Triple Compiler.Erred
      (fun s => Ending known start loops inner s ∧ s.Complete) (rest r) post := fun _ => by
    refine triple_get fun s => Triple.bind (triple_modify (fun _ h => h) ?_) fun _ =>
      triple_pure fun _ h => h
    rintro _ ⟨rfl, hending, hcomplete⟩
    exact hend _ hending hcomplete
  refine .ite (fun _ => ?_) fun hreturn => ?_
  · have hnil : Triple Compiler.Erred (fun s => Ending known start loops inner s ∧ True)
        (emitOp .nil) fun _ s => Ending known start loops inner s ∧ True :=
      triple_ending (fun base closing => (@keepsShape_nil closing base {} inner).weaken
        (fun _ h => h.1) fun _ _ h => ⟨h, trivial⟩) (keepsLoops_emitOp _)
    have hret : Triple Compiler.Erred (fun s => Ending known start loops inner s ∧ True)
        (emitOp .return_) fun _ s => Ending known start loops inner s ∧ s.Complete :=
      triple_ending (fun base closing => (@triple_emitReturn closing base {} inner).strengthen
        fun _ h => h.1) (keepsLoops_emitOp _)
    have hagain : Triple Compiler.Erred (fun s => Ending known start loops inner s ∧ s.Complete)
        countEmittedCode fun _ s => Ending known start loops inner s ∧ s.Complete :=
      triple_ending (fun base closing => @triple_countComplete closing base {} inner)
        keepsLoops_countEmittedCode
    refine Triple.bind ((hnil.bind fun _ => hret).strengthen ?_) fun _ => hagain.bind hrest
    rintro _ ⟨rfl, h, -⟩
    exact ⟨h, trivial⟩
  · refine (hrest ()).strengthen ?_
    rintro s' ⟨rfl, h, hcounted⟩
    have hlast : s'.current.lastOpIsReturn = true := by simpa using hreturn
    refine ⟨h, ?_⟩
    obtain ⟨_, _, hgood, _⟩ := h
    have hreturns := hgood.ok.returns hlast
    rw [hcounted] at hreturns
    exact hreturns

end Ending

/-- A function inside another one is ended. -/
theorem triple_endInner (hinner : inner.loops = 0) :
    Triple Compiler.Erred (Within s₀ closing pending nesting type inner) endCompiler fun r s =>
      s₀.Good closing pending nesting s ∧ s.Made r.1 r.2 := by
  refine @triple_endCompiler inner (s₀.Good closing pending nesting)
    (fun s => s.opened type s.currentLoop) Compiler.currentLoop _ _ ?_ ?_
  · rintro s' ⟨s, hgood, h⟩
    exact ⟨s, hgood, h.overLoops hinner, h.grows.enclosingLoop⟩
  · rintro s' ⟨s, hgood, h, hloops⟩ hcomplete
    obtain ⟨c, rest, hc, hrest, henclosing⟩ := List.forall₂_cons_left_iff.mp h.grows.outer
    exact hgood.ended h hloops hcomplete henclosing hc hrest

end Within

/-! ### Closures -/

/-- The operands behind a closure's constant: two bytes for each variable it captures. -/
def capturedBytes : List Upvalue → Bytes
  | [] => []
  | u :: upvalues => (if u.isLocal then 1 else 0) :: u.index :: capturedBytes upvalues

theorem length_capturedBytes (upvalues : List Upvalue) :
    (capturedBytes upvalues).length = 2 * upvalues.length := by
  induction upvalues with
  | nil => rfl
  | cons u upvalues ih =>
    simp only [capturedBytes, List.length_cons, ih]
    omega

/-- Where the two bytes of a variable are. -/
theorem capturedBytes_getD {upvalues : List Upvalue} {j : ℕ} (hj : j < upvalues.length) :
    ∃ u ∈ upvalues, (capturedBytes upvalues).getD (2 * j) 0 = (if u.isLocal then 1 else 0) ∧
      (capturedBytes upvalues).getD (2 * j + 1) 0 = u.index := by
  induction upvalues generalizing j with
  | nil => exact absurd hj (Nat.not_lt_zero j)
  | cons u upvalues ih =>
    cases j with
    | zero => exact ⟨u, List.mem_cons_self, rfl, rfl⟩
    | succ j =>
      obtain ⟨v, hv, hflag, hindex⟩ := ih (Nat.lt_of_succ_lt_succ hj)
      exact ⟨v, List.mem_cons_of_mem _ hv, hflag, hindex⟩

theorem Compiler.Good.emittedClosure {index : ℕ} {constant : UInt8} {upvalues : List Upvalue}
    (h : s₀.Good closing pending nesting s) (hmade : s.Made index upvalues)
    (hconstant : s.current.fn.constants[constant.toNat]? = some (.function index)) :
    s₀.Good closing pending nesting
      (s.emitted (OpCode.closure.toByte :: constant :: capturedBytes upvalues)) := by
  have hcaptured : capturedAt s.compilingUnit
      (s.emitted (OpCode.closure.toByte :: constant :: capturedBytes upvalues)).current.fn
      s.current.fn.code.length = upvalues.length := by
    rw [capturedAt, codeAt_emitted]
    show ((s.current.fn.constants[constant.toNat]?).map _).getD 0 = _
    rw [hconstant]
    show (cuGetFnByIndex s.compilingUnit index).upvalueCount.toNat = _
    rw [hmade.count, Int.toNat_natCast]
  refine h.emitted ?_ ⟨fun use huse => ?_, fun hjump => absurd hjump (by decide), nofun,
    fun hupvalue => absurd hupvalue (by decide), nofun, fun _ j hj => ?_⟩ (fun _ h => h)
    (fun _ h => .inl h) h.fresh
  · rw [instructionLength_eq, hcaptured, if_pos rfl, List.length_cons, length_capturedBytes]
    show 1 + 1 + _ = _
    omega
  · cases huse
    rw [codeAt_emitted]
    exact ⟨_, hconstant, index, rfl⟩
  · rw [show s.setting.compiledUnit = s.compilingUnit from rfl, hcaptured] at hj
    obtain ⟨u, hu, hflag, hindex⟩ := capturedBytes_getD hj
    have hfirst : codeAt
        (s.emitted (OpCode.closure.toByte :: constant :: capturedBytes upvalues)).current.fn
        (s.current.fn.code.length + (2 + 2 * j)) = if u.isLocal then 1 else 0 := by
      rw [← hflag, Nat.add_comm 2]
      exact codeAt_emit (2 * j + 2)
    have hsecond : codeAt
        (s.emitted (OpCode.closure.toByte :: constant :: capturedBytes upvalues)).current.fn
        (s.current.fn.code.length + (2 + 2 * j + 1)) = u.index := by
      rw [← hindex, Nat.add_comm 2, Nat.add_right_comm]
      exact codeAt_emit (2 * j + 1 + 2)
    rw [Nat.add_assoc, Nat.add_assoc, hfirst, hsecond]
    cases hlocal : u.isLocal with
    | true => exact .inl rfl
    | false => exact .inr ⟨rfl, hmade.captured u hu hlocal⟩

/-- The captured variables are emitted. -/
theorem triple_emitCaptured {pre : Compiler → Prop} (upvalues : List Upvalue) (bytes : Bytes) :
    Triple Compiler.Erred (Started bytes pre)
      (upvalues.forM fun u => do
        emitByte (if u.isLocal then 1 else 0)
        emitByte u.index) fun _ => Started (bytes ++ capturedBytes upvalues) pre := by
  induction upvalues generalizing bytes with
  | nil =>
    rw [capturedBytes, List.append_nil]
    exact triple_pure fun _ h => h
  | cons u upvalues ih =>
    have hrest := ih (bytes ++ [if u.isLocal then 1 else 0, u.index])
    rw [List.append_assoc] at hrest
    refine Triple.bind ?_ fun _ => hrest
    refine (triple_start bytes _).bind fun _ => ?_
    have hsecond := @triple_start pre (bytes ++ [if u.isLocal then 1 else 0]) u.index
    rw [List.append_assoc] at hsecond
    exact hsecond

/-- A function that is made becomes a closure. -/
theorem triple_emitClosure (index : ℕ) (upvalues : List Upvalue) :
    Triple Compiler.Erred (fun s => s₀.Good closing pending nesting s ∧ s.Made index upvalues) (do
      emitBytes OpCode.closure.toByte (← makeConstant (.function index) none)
      upvalues.forM fun u => do
        emitByte (if u.isLocal then 1 else 0)
        emitByte u.index) fun _ => s₀.Good closing pending nesting := by
  have hmake := @triple_makeConstant closing (.function index) none
  have hcarry := carrying (fun s₀ pending nesting =>
    (hmake s₀ pending nesting).weaken (fun _ h => h) fun _ _ h => h.1) (stable_made index upvalues)
  have hready : ∀ s : Compiler, s₀.Good closing pending nesting s ∧ s.Made index upvalues →
      (s₀.Good closing pending nesting s ∧ s.setting.Holds (.function index)) ∧
        s₀.Good closing pending nesting s ∧ s.setting.Holds (.function index) ∧
          s.Made index upvalues := by
    intro s ⟨h, hmade⟩
    have hholds : s.setting.Holds (.function index) := ⟨Int.natCast_nonneg _, hmade.finished⟩
    exact ⟨⟨h, hholds⟩, h, hholds, hmade⟩
  refine (((hmake s₀ pending nesting).both (hcarry s₀ pending nesting)).strengthen hready).bind
    fun constant => ?_
  refine (triple_startBytes _ _).bind fun _ => (triple_emitCaptured upvalues _).weaken
    (fun _ h => h) ?_
  rintro _ _ ⟨s, ⟨⟨h, c, hc, hequal⟩, -, hmade⟩, rfl⟩
  refine h.emittedClosure hmade ?_
  rcases hequal with hequal | rfl
  · cases c <;> cases hequal
  · exact hc

/-! ### Whole functions -/

theorem keepsShape_declareParam (param : Token) : KeepsShape closing (declareParam param) :=
  (keepsShape_declareVariable param true).bind fun _ => keepsShape_markInitialized.bind fun _ =>
    keepsShape_currentStackHeight.bind fun _ => keepsShape_resetStackHeight _

theorem keepsShape_setIsPublic (isPublic : Bool) :
    KeepsShape closing (modifyCurrentFn fun f => { f with isPublic }) :=
  fun _ _ _ => triple_modify (fun _ h => h) fun _ h =>
    h.withFn rfl rfl h.ok.arity h.ok.code.name

theorem keepsShape_setArity {arity : ℕ} (harity : arity ≤ 255) :
    KeepsShape closing (modifyCurrentFn fun f => { f with arity }) :=
  fun _ _ _ => triple_modify (fun _ h => h) fun _ h =>
    h.withFn rfl rfl ⟨Int.natCast_nonneg _, Int.ofNat_le.mpr harity⟩ h.ok.code.name

theorem keepsShape_compileFunction (fn : FunctionInfo) (type : FunctionType) {body : CompileM Unit}
    (hbody : KeepsShape 0 body) : KeepsShape closing (compileFunction fn type body) := by
  intro s₀ pending nesting
  have hscope : Triple Compiler.Erred (Within s₀ closing pending nesting type {}) beginScope
      fun _ => Within s₀ closing pending nesting type (Nesting.inScope {}) :=
    triple_within fun base => triple_beginScope base {} {}
  refine (triple_initCompiler type _).bind fun _ =>
    (keepsShape_setIsPublic fn.isPublic).within.bind fun _ => hscope.bind fun _ => ?_
  have hline : KeepsShape 0 (setLine fn.bodyEndLine) := keepsShape_setLine _
  have hparams : KeepsShape 0 (fn.params.forM declareParam) :=
    keepsShape_forM fun param _ => keepsShape_declareParam param
  have hend : Triple Compiler.Erred (Within s₀ closing pending nesting type (Nesting.inScope {}))
      endCompiler fun r s => s₀.Good closing pending nesting s ∧ s.Made r.1 r.2 :=
    triple_endInner rfl
  by_cases hcount : fn.params.length > 255
  · have hset : Triple Compiler.Erred (Within s₀ closing pending nesting type (Nesting.inScope {}))
        (modifyCurrentFn fun f => { f with arity := fn.params.length }) fun _ _ => True :=
      triple_modify (fun _ h => h) fun _ _ => trivial
    refine hset.bind fun _ => ?_
    rw [if_pos hcount]
    exact (triple_compilerErrorAtToken _ _).bind fun _ => hparams.within.bind fun _ =>
      hbody.within.bind fun _ => hline.within.bind fun _ => hend.bind fun r =>
        triple_emitClosure r.1 r.2
  · refine (keepsShape_setArity (Nat.le_of_not_lt hcount)).within.bind fun _ => ?_
    rw [if_neg hcount]
    exact hparams.within.bind fun _ => hbody.within.bind fun _ => hline.within.bind fun _ =>
      hend.bind fun r => triple_emitClosure r.1 r.2

end KirbyLang
