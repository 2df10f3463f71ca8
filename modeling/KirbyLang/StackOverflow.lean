import KirbyLang.StackBound
import Mathlib.Tactic.Ring

/-!
# A program that goes beyond the value stack

A function whose body is a list in a list, with a call of itself as the last element: every call
leaves the elements before it on the stack.

* `CallsItself`: what the code of such a function is;
* `calls_deeper`: from the beginning of a call to the beginning of the next;
* `recursion_overflows`: before there are too many frames, a push has gone beyond the stack.
-/

namespace KirbyLang.Vm

variable {vm vm' : VM} {gc : GC} {globals : Table Ref Value} {closure name : Ref} {count depth : ℕ}
  {fn : ObjFunction} {top : ℤ}

theorem run_add {host : Host} {rounds : ℕ} (h : run host rounds vm = (.ok none, vm')) (more : ℕ) :
    run host (rounds + more) vm = run host more vm' := by
  induction rounds generalizing vm with
  | zero =>
    cases h
    rw [Nat.zero_add]
  | succ rounds ih =>
    obtain ⟨result, vm₁, hstep, hrest⟩ := Laws.bind_eq_ok h
    rw [Nat.succ_add]
    refine (Laws.bind_ok hstep).trans ?_
    cases result with
    | some result => cases hrest
    | none => exact ih hrest

theorem interpret_add {host : Host} {compiledUnit : CompiledUnit} {rounds : ℕ}
    (h : interpret host compiledUnit rounds vm = (.ok none, vm')) (more : ℕ) :
    interpret host compiledUnit (rounds + more) vm = run host more vm' := by
  obtain ⟨function, vm₁, hload, hrest⟩ := Laws.bind_eq_ok h
  obtain ⟨_, vm₂, henter, hrun⟩ := Laws.bind_eq_ok hrest
  exact (Laws.bind_ok hload).trans ((Laws.bind_ok henter).trans (run_add hrun more))

/-- `true` a number of times, and a call of a global. -/
def recursiveCode (count : ℕ) : Bytes :=
  List.replicate count (OpCode.toByte .true_) ++ [OpCode.toByte .getGlobal, 0, OpCode.toByte .call, 0]

/-- The code of a function that pushes `true` a number of times and calls the global with its own
closure. -/
structure CallsItself (gc : GC) (globals : Table Ref Value) (closure : Ref) (count : ℕ)
    (fn : ObjFunction) (name : Ref) : Prop where
  function : (gc.closure? closure).bind (fun c => gc.function? c.function) = some fn
  arity : fn.arity = 0
  code : (fn.chunk.code.take (count + 4)).map CodeByte.byte = recursiveCode count
  constant : fn.chunk.constants.values[0]? = some (.obj name)
  string : (gc.string? name).isSome
  global : tableGet gc.hash globals name = some (some (.obj closure))

/-- The machine is in a call of the closure, with a number of frames. -/
structure VM.Calls (gc : GC) (globals : Table Ref Value) (closure : Ref) (ip depth : ℕ) (top : ℤ)
    (vm : VM) : Prop where
  gc : vm.gc = gc
  globals : vm.globals = globals
  frames : ∃ slots frames, vm.frames = ⟨closure, ip, slots⟩ :: frames ∧ frames.length + 1 = depth
  stackTop : vm.stackTop = top

theorem CallsItself.byte (h : CallsItself gc globals closure count fn name) {i : ℕ} {byte : UInt8}
    (hbyte : (recursiveCode count)[i]? = some byte) :
    ∃ code, fn.chunk.code[i]? = some code ∧ code.byte = byte := by
  rw [← h.code, List.getElem?_map] at hbyte
  obtain ⟨code, hcode, rfl⟩ := Option.map_eq_some_iff.mp hbyte
  rw [List.getElem?_take] at hcode
  split at hcode
  · exact ⟨code, hcode, rfl⟩
  · cases hcode

theorem byte_afterElements (i : ℕ) : (recursiveCode count)[count + i]? =
    [OpCode.toByte .getGlobal, 0, OpCode.toByte .call, 0][i]? := by
  unfold recursiveCode
  rw [List.getElem?_append_right (by simp)]
  simp

theorem functionOfClosure_eq
    (h : (vm.gc.closure? closure).bind (fun c => vm.gc.function? c.function) = some fn) :
    functionOfClosure closure vm = (.ok fn, vm) := by
  obtain ⟨c, hclosure, hfunction⟩ := Option.bind_eq_some_iff.mp h
  have hread : closureAt closure vm = (.ok c, vm) := by
    show orFault (vm.gc.closure? closure) vm = _
    rw [hclosure]
    rfl
  refine (Laws.bind_ok hread).trans ?_
  show orFault (vm.gc.function? c.function) vm = _
  rw [hfunction]
  rfl

theorem VM.Calls.logged {ip : ℕ} (h : vm.Calls gc globals closure ip depth top) (e : Event) :
    (vm.logged e).Calls gc globals closure ip depth top := ⟨h.gc, h.globals, h.frames, h.stackTop⟩

theorem VM.Calls.pushed {ip : ℕ} (h : vm.Calls gc globals closure ip depth top) (value : Value) :
    ({ vm with toMemory := vm.toMemory.pushed value } : VM).Calls gc globals closure ip depth
      (top + 1) :=
  ⟨h.gc, h.globals, h.frames, congrArg (· + 1) h.stackTop⟩

section Instructions

variable {ip : ℕ} (hcode : CallsItself gc globals closure count fn name)
include hcode

theorem functionOfClosure_calls (h : vm.Calls gc globals closure ip depth top) :
    functionOfClosure closure vm = (.ok fn, vm) :=
  functionOfClosure_eq (by rw [h.gc]; exact hcode.function)

theorem readByte_calls (h : vm.Calls gc globals closure ip depth top) {byte : UInt8}
    (hbyte : (recursiveCode count)[ip]? = some byte) :
    ∃ vm', readByte vm = (.ok byte, vm') ∧ vm'.Calls gc globals closure (ip + 1) depth top ∧
      vm'.stack = vm.stack ∧ vm'.trace = vm.trace := by
  obtain ⟨slots, frames, hframes, hdepth⟩ := h.frames
  obtain ⟨code, hread, rfl⟩ := hcode.byte hbyte
  have hframe : currentFrame vm = (.ok ⟨closure, ip, slots⟩, vm) := by
    show orFault vm.frames.head? vm = _
    rw [hframes]
    rfl
  refine ⟨{ vm with frames := ⟨closure, (ip + 1 : ℕ), slots⟩ :: frames },
    (Laws.bind_ok hframe).trans ((Laws.bind_ok (functionOfClosure_calls hcode h)).trans ?_),
    ⟨h.gc, h.globals, ⟨slots, frames, rfl, hdepth⟩, h.stackTop⟩, rfl, rfl⟩
  rw [if_neg (by simp), Int.toNat_natCast, hread]
  have hset : setIp (ip + 1) vm =
      (.ok (), { vm with frames := ⟨closure, (ip + 1 : ℕ), slots⟩ :: frames }) := by
    rcases vm with ⟨⟨_, _, _, _, _, _, _⟩, _⟩
    cases hframes
    rfl
  exact (Laws.bind_ok (rfl : orFault (some code) vm = (.ok code, vm))).trans (Laws.bind_ok hset)

variable (host : Host)

theorem step_calls (h : vm.Calls gc globals closure ip depth top) {op : OpCode}
    (hop : OpCode.ofByte? op.toByte = some op)
    (hbyte : (recursiveCode count)[ip]? = some op.toByte) :
    ∃ vm', step host vm = execute host op vm' ∧ vm'.Calls gc globals closure (ip + 1) depth top ∧
      vm'.stack = vm.stack ∧ vm'.trace = .instruction op :: vm.trace := by
  obtain ⟨vm', hread, h', hstack, htrace⟩ := readByte_calls hcode h hbyte
  refine ⟨vm'.logged (.instruction op), (Laws.bind_ok hread).trans ?_, h'.logged _, hstack,
    congrArg (_ :: ·) htrace⟩
  rw [hop]
  rfl

/-- The instructions that push the elements. -/
theorem run_elements (i : ℕ) (h : vm.Calls gc globals closure ip depth top) (hi : ip + i ≤ count) :
    ∃ vm', run host i vm = (.ok none, vm') ∧
      vm'.Calls gc globals closure (ip + i) depth (top + i) := by
  induction i generalizing vm ip top with
  | zero => exact ⟨vm, rfl, by simpa using h⟩
  | succ i ih =>
    have hbyte : (recursiveCode count)[ip]? = some (OpCode.toByte .true_) := by
      unfold recursiveCode
      rw [List.getElem?_append_left (by simp; omega), List.getElem?_replicate, if_pos (by omega)]
    obtain ⟨vm₁, hstep, h₁, -, -⟩ := step_calls hcode host h (by decide) hbyte
    obtain ⟨vm', hrun, h'⟩ := ih (h₁.pushed (.boolean true)) (by omega)
    refine ⟨vm', (Laws.bind_ok (hstep.trans rfl)).trans hrun, ?_⟩
    rwa [show ip + (i + 1) = ip + 1 + i by omega,
      show top + ((i + 1 : ℕ) : ℤ) = top + 1 + i by push_cast; omega]

theorem readString_calls (h : vm.Calls gc globals closure (count + 1) depth top) :
    ∃ vm', readString vm = (.ok name, vm') ∧ vm'.Calls gc globals closure (count + 2) depth top := by
  obtain ⟨vm', hindex, h', -, -⟩ := readByte_calls hcode h (byte_afterElements 1)
  obtain ⟨slots, frames, hframes, -⟩ := h'.frames
  have hframe : currentFrame vm' = (.ok ⟨closure, (count + 1 + 1 : ℕ), slots⟩, vm') := by
    show orFault vm'.frames.head? vm' = _
    rw [hframes]
    rfl
  have hconstant : readConstant vm = (.ok (.obj name), vm') := by
    refine (Laws.bind_ok hindex).trans ((Laws.bind_ok hframe).trans
      ((Laws.bind_ok (functionOfClosure_calls hcode h')).trans ?_))
    rw [show (0 : UInt8).toNat = 0 from rfl, hcode.constant]
    rfl
  obtain ⟨string, hstring⟩ := Option.isSome_iff_exists.mp hcode.string
  have hread : stringAt name vm' = (.ok string, vm') := by
    show orFault (vm'.gc.string? name) vm' = _
    rw [h'.gc, hstring]
    rfl
  exact ⟨vm', (Laws.bind_ok hconstant).trans (Laws.bind_ok hread), h'⟩

theorem lookup_calls (h : vm.Calls gc globals closure ip depth top) :
    lookup vm.globals name vm = (.ok (some (.obj closure)), vm) := by
  show orFault (tableGet vm.gc.hash vm.globals name) vm = _
  rw [h.gc, h.globals, hcode.global]
  rfl

/-- The instruction that pushes the closure. -/
theorem step_getGlobal (h : vm.Calls gc globals closure count depth top) :
    ∃ vm', step host vm = (.ok none, vm') ∧ vm'.Calls gc globals closure (count + 2) depth (top + 1) ∧
      vm'.stack top = .obj closure ∧ Event.push (top + 1) ∈ vm'.trace := by
  obtain ⟨vm₁, hstep, h₁, -, -⟩ := step_calls hcode host h (by decide) (byte_afterElements 0)
  obtain ⟨vm₂, hname, h₂⟩ := readString_calls hcode h₁
  have hget : (get : M VM) vm₂ = (.ok vm₂, vm₂) := rfl
  have hrun := hstep.trans ((Laws.bind_ok hname).trans ((Laws.bind_ok hget).trans
    (Laws.bind_ok (lookup_calls hcode h₂))))
  refine ⟨_, hrun.trans rfl, h₂.pushed (.obj closure), ?_, ?_⟩
  · rw [← h₂.stackTop]
    exact Function.update_self ..
  · rw [← h₂.stackTop]
    exact List.mem_cons_self

/-- The closure is called when there are not too many frames. -/
theorem callValue_calls (h : vm.Calls gc globals closure ip depth top) (hdepth : depth < framesMax) :
    ∃ vm', callValue host (.obj closure) 0 vm = (.ok true, vm') ∧
      vm'.Calls gc globals closure 0 (depth + 1) top ∧ vm'.trace = vm.trace := by
  obtain ⟨slots, frames, hframes, hlength⟩ := h.frames
  obtain ⟨c, hclosure, -⟩ := Option.bind_eq_some_iff.mp hcode.function
  have hobject : objectOf (.obj closure) vm = (.ok (some (closure, .closure c)), vm) := by
    have hderef : deref closure vm = (.ok (.closure c), vm) := by
      show orFault (vm.gc.heap closure) vm = _
      rw [h.gc, closure?_eq_some hclosure]
      rfl
    exact (Laws.bind_ok hderef).trans rfl
  have hframesLength : vm.frames.length = depth := by
    rw [hframes]
    exact hlength
  refine ⟨{ vm with frames := ⟨closure, 0, vm.stackTop - (0 : ℕ) - 1⟩ :: vm.frames },
    (Laws.bind_ok hobject).trans ((Laws.bind_ok (functionOfClosure_calls hcode h)).trans ?_),
    ⟨h.gc, h.globals, ⟨_, _, rfl, congrArg (· + 1) hframesLength⟩, h.stackTop⟩, rfl⟩
  rw [if_neg (by simp [hcode.arity])]
  have hget : (get : M VM) vm = (.ok vm, vm) := rfl
  refine (Laws.bind_ok hget).trans ?_
  rw [if_neg (by omega)]
  rfl

/-- The instruction that calls it. -/
theorem step_call (h : vm.Calls gc globals closure (count + 2) depth (top + 1))
    (hcallee : vm.stack top = .obj closure) (hdepth : depth < framesMax) :
    ∃ vm', step host vm = (.ok none, vm') ∧ vm'.Calls gc globals closure 0 (depth + 1) (top + 1) ∧
      vm'.trace = .instruction .call :: vm.trace := by
  obtain ⟨vm₁, hstep, h₁, hstack₁, htrace₁⟩ :=
    step_calls hcode host h (by decide) (byte_afterElements 2)
  obtain ⟨vm₂, hargCount, h₂, hstack₂, htrace₂⟩ := readByte_calls hcode h₁ (byte_afterElements 3)
  obtain ⟨vm', hcall, h', htrace⟩ := callValue_calls hcode host h₂ hdepth
  have hpeek : peekStack (0 : UInt8).toNat vm₂ = (.ok (.obj closure), vm₂) := by
    have htop : vm₂.stackTop - 1 - (0 : UInt8).toNat = top := by
      rw [h₂.stackTop]
      simp
    show (Except.ok (vm₂.stack _), vm₂) = _
    rw [htop, hstack₂, hstack₁, hcallee]
  refine ⟨vm', hstep.trans ((Laws.bind_ok hargCount).trans ((Laws.bind_ok hpeek).trans
    ((Laws.bind_ok hcall).trans rfl))), h', ?_⟩
  rw [htrace, htrace₂, htrace₁]

/-- From the beginning of a call to the beginning of the next. -/
theorem calls_deeper (h : vm.Calls gc globals closure 0 depth top) (hdepth : depth < framesMax) :
    ∃ vm', run host (count + 2) vm = (.ok none, vm') ∧
      vm'.Calls gc globals closure 0 (depth + 1) (top + count + 1) ∧
      Event.push (top + count + 1) ∈ vm'.trace := by
  obtain ⟨vm₁, helements, h₁⟩ := run_elements hcode host count h (by omega)
  rw [Nat.zero_add] at h₁
  obtain ⟨vm₂, hpush, h₂, hcallee, hpushed⟩ := step_getGlobal hcode host h₁
  obtain ⟨vm₃, hcall, h₃, htrace⟩ := step_call hcode host h₂ hcallee hdepth
  refine ⟨vm₃, ?_, h₃, htrace ▸ List.mem_cons_of_mem _ hpushed⟩
  rw [run_add helements]
  exact (Laws.bind_ok hpush).trans ((Laws.bind_ok hcall).trans rfl)

/-- A number of calls, of which the last has pushed its closure. -/
theorem calls_run (calls : ℕ) (h : vm.Calls gc globals closure 0 depth top)
    (hdepth : depth + calls < framesMax) :
    ∃ vm', run host ((count + 2) * (calls + 1)) vm = (.ok none, vm') ∧
      Event.push (top + (count + 1) * (calls + 1)) ∈ vm'.trace := by
  induction calls generalizing vm depth top with
  | zero =>
    obtain ⟨vm', hrun, -, hpushed⟩ := calls_deeper hcode host h hdepth
    refine ⟨vm', by simpa using hrun, ?_⟩
    convert hpushed using 2
    push_cast
    ring
  | succ calls ih =>
    obtain ⟨vm₁, hrun₁, h₁, -⟩ := calls_deeper hcode host h (by omega)
    obtain ⟨vm', hrun, hpushed⟩ := ih h₁ (by omega)
    refine ⟨vm', ?_, ?_⟩
    · rw [show (count + 2) * (calls + 1 + 1) = count + 2 + (count + 2) * (calls + 1) by ring,
        run_add hrun₁]
      exact hrun
    · convert hpushed using 2
      push_cast
      ring

end Instructions

/-! ### The program -/

/-- `[true, …, true, last][0]`, with a number of elements before the last. -/
def listBefore (count : ℕ) (last : AstNode) : AstNode :=
  .indexGet 1 (.array 1 (List.replicate count (.literal 1 (.boolean true)) ++ [last]) false)
    (numberNode 0) (tokenFromCString "]")

/-- `fun f(): bool = [true, …, true, [true, …, true, f()][0]][0]; f();` -/
def recursiveProgram (outer inner : ℕ) : List AstNode :=
  let f := tokenFromCString "f"
  let fn : FunctionInfo :=
    { name := f
      params := []
      paramTypes := []
      returnType := some (.named 1 (tokenFromCString "bool") [])
      bodyEndLine := 1 }
  let callSelf := callNode (.variable_ 1 f) []
  [.function 1 fn [] none (some (listBefore outer (listBefore inner callSelf))),
    .exprStmt 1 callSelf]

/-- Whether the machine is at the beginning of a call of such a function. -/
def atRecursion (count : ℕ) (vm : VM) : Bool :=
  match vm.frames with
  | [⟨closure, 0, _⟩, _] =>
    match (vm.gc.closure? closure).bind fun c => vm.gc.function? c.function with
    | some fn =>
      match (fn.chunk.constants.values[0]? : Option Value) with
      | some (.obj name) =>
        fn.arity = 0 && (fn.chunk.code.take (count + 4)).map CodeByte.byte = recursiveCode count &&
          (vm.gc.string? name).isSome &&
          tableGet vm.gc.hash vm.globals name = some (some (.obj closure))
      | _ => false
    | none => false
  | _ => false

theorem atRecursion_calls (h : atRecursion count vm = true) :
    ∃ closure fn name, CallsItself vm.gc vm.globals closure count fn name ∧
      vm.Calls vm.gc vm.globals closure 0 2 vm.stackTop := by
  unfold atRecursion at h
  split at h
  next closure slots script hframes =>
    split at h
    next fn hfunction =>
      split at h
      next name hconstant =>
        simp only [Bool.and_eq_true, decide_eq_true_eq] at h
        obtain ⟨⟨⟨harity, hcode⟩, hstring⟩, hglobal⟩ := h
        exact ⟨closure, fn, name, ⟨hfunction, harity, hcode, hconstant, hstring, hglobal⟩,
          rfl, rfl, ⟨slots, _, hframes, rfl⟩, rfl⟩
      next => cases h
    next => cases h
  next => cases h

/-- No push that a trace has kept goes beyond the stack. -/
def pushesFit (trace : List Event) : Bool :=
  trace.all fun e =>
    match e with
    | .push top => decide (top ≤ stackMax)
    | _ => true

/-- With fewer than `FRAMES_MAX` frames, and nothing reported, a push has gone beyond the stack. -/
theorem recursion_overflows : ∃ compiledUnit vm rounds,
    compiled (recursiveProgram 254 20) = some compiledUnit ∧ Session plainHost vm ∧
      (interpret plainHost compiledUnit rounds vm).1 = .ok none ∧
      ¬ vm.PushesUpTo stackMax (interpret plainHost compiledUnit rounds vm).2 := by
  have hrun : ((compiled (recursiveProgram 254 20)).bind fun compiledUnit =>
      (initVM plainHost thresholdPolicy {}).map (compiledUnit, ·)).any fun run =>
        pushesFit run.2.trace && (finished (interpret plainHost run.1 4 run.2)).any fun ended =>
          decide (ended.1 = none) && (atRecursion 274 ended.2 && decide (0 ≤ ended.2.stackTop)) := by
    decide +kernel
  obtain ⟨⟨compiledUnit, vm⟩, hstart, hrun⟩ := exists_of_any hrun
  obtain ⟨_, hcompiled, hstart⟩ := Option.bind_eq_some_iff.mp hstart
  obtain ⟨_, hinit, heq⟩ := Option.map_eq_some_iff.mp hstart
  cases heq
  obtain ⟨hfit, hrun⟩ := Bool.and_eq_true_iff.mp hrun
  obtain ⟨⟨result, reached⟩, hended, hrun⟩ := exists_of_any hrun
  obtain ⟨hnone, hrun⟩ := Bool.and_eq_true_iff.mp hrun
  obtain rfl : result = none := of_decide_eq_true hnone
  have hreached := eq_of_finished hended
  obtain ⟨hat, htop⟩ := Bool.and_eq_true_iff.mp hrun
  obtain ⟨closure, fn, name, hcode, hcalls⟩ := atRecursion_calls hat
  obtain ⟨after, hafter, hpushed⟩ := calls_run hcode plainHost 60 hcalls (by decide)
  have hinterpret := interpret_add hreached ((274 + 2) * (60 + 1))
  rw [hafter] at hinterpret
  refine ⟨compiledUnit, vm, _, hcompiled, .start hinit, congrArg Prod.fst hinterpret, ?_⟩
  rw [hinterpret]
  rintro ⟨events, htrace, hevents⟩
  have hbeyond : (stackMax : ℤ) < reached.stackTop + (274 + 1) * (60 + 1) := by
    have hzero : 0 ≤ reached.stackTop := of_decide_eq_true htop
    have hmax : stackMax = 16384 := rfl
    omega
  rw [show after.trace = events ++ vm.trace from htrace] at hpushed
  rcases List.mem_append.mp hpushed with he | he
  · exact absurd (hevents _ he) (not_le.mpr hbeyond)
  · exact absurd (of_decide_eq_true (List.all_eq_true.mp hfit _ he)) (not_le.mpr hbeyond)

end KirbyLang.Vm
