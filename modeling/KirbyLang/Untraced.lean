import KirbyLang.Interpreter
import KirbyLang.Lib.Twins

/-!
# The trace

Nothing reads the trace of a run: states that differ in it only go on alike.

* `Memory.Alike`, `VM.Alike`: such states;
* `blind_prog`: a native does the same from both; `blind_callValue`: so does any other callee.
-/

namespace KirbyLang.Vm

open Laws Twins

/-- Memories that differ in the trace only. -/
def Memory.Alike (memory memory' : Memory) : Prop := ∃ trace, memory' = { memory with trace }

def VM.Alike (vm vm' : VM) : Prop := ∃ trace, vm' = { vm with trace }

variable {memory memory' : Memory} {vm vm' : VM}

theorem Memory.Alike.gc (h : memory.Alike memory') : memory'.gc = memory.gc := by
  obtain ⟨trace, rfl⟩ := h
  rfl

theorem Memory.Alike.setGc (h : memory.Alike memory') (gc : GC) :
    Memory.Alike { memory with gc } { memory' with gc } := by
  obtain ⟨trace, rfl⟩ := h
  exact ⟨trace, rfl⟩

theorem VM.Alike.toMemory (h : vm.Alike vm') : vm.toMemory.Alike vm'.toMemory := by
  obtain ⟨trace, rfl⟩ := h
  exact ⟨trace, rfl⟩

theorem VM.Alike.setMemory (h : vm.Alike vm') (hmemory : memory.Alike memory') :
    VM.Alike { vm with toMemory := memory } { vm' with toMemory := memory' } := by
  obtain ⟨trace, rfl⟩ := h
  obtain ⟨trace', rfl⟩ := hmemory
  exact ⟨trace', rfl⟩

theorem VM.Alike.gc (h : vm.Alike vm') : vm'.gc = vm.gc := h.toMemory.gc

namespace Mem

/-- Programs over the memory that do not look at the trace. -/
abbrev Blind {α : Type} (p : Mem α) : Prop := RespectsOrSticks Memory.Alike p

variable {α β : Type}

theorem blind_readMemory {f : Memory → Option α}
    (hf : ∀ memory memory', memory.Alike memory' → f memory' = f memory) : (readMemory f).Blind :=
  respectsOrSticks_read f hf

/-- The collector's state is changed, by what it is itself. -/
theorem blind_gc (f : GC → Option (α × GC)) :
    Blind (fun memory => (f memory.gc).map fun (a, gc) => (a, { memory with gc })) := by
  intro memory memory' h
  cases hf : f memory.gc with
  | none => exact .inl ⟨by simp [hf], by simp [h.gc, hf]⟩
  | some result =>
    exact .inr ⟨result.1, _, _, by simp [hf], by simp [h.gc, hf], h.setGc result.2⟩

theorem blind_push (value : Value) : (pushOnStack value).Blind := by
  rintro memory _ ⟨trace, rfl⟩
  exact .inr ⟨(), _, _, rfl, rfl, .push (memory.stackTop + 1) :: trace, rfl⟩

theorem blind_pop : popFromStack.Blind := by
  rintro memory _ ⟨trace, rfl⟩
  exact .inr ⟨_, _, _, rfl, rfl, .pop (memory.stackTop - 1) :: trace, rfl⟩

theorem blind_popN (count : ℤ) : (popNFromStack count).Blind := by
  rintro memory _ ⟨trace, rfl⟩
  exact .inr ⟨(), _, _, rfl, rfl, .pop (memory.stackTop - count) :: trace, rfl⟩

/-! ### The collector -/

theorem collectGarbage_alike (h : memory.Alike memory') :
    (collectGarbage memory = none ∧ collectGarbage memory' = none) ∨
      ∃ gc, collectGarbage memory = some { memory with gc } ∧
        collectGarbage memory' = some { memory' with gc } := by
  obtain ⟨trace, rfl⟩ := h
  have hroots : markVMRoots { memory with trace } = markVMRoots memory := rfl
  unfold collectGarbage
  rw [hroots]
  cases hroots : markVMRoots memory with
  | none => exact .inl ⟨rfl, rfl⟩
  | some gc₁ =>
    cases htrace : traceReferences gc₁.objects.length gc₁ with
    | none => exact .inl ⟨by simp [htrace], by simp [htrace]⟩
    | some gc₂ =>
      cases hstrings : tableRemoveWhite gc₂.hash gc₂.isMarked gc₂.strings with
      | none => exact .inl ⟨by simp [htrace, hstrings], by simp [htrace, hstrings]⟩
      | some strings =>
        cases hsweep : sweep { gc₂ with strings } with
        | none =>
          exact .inl ⟨by simp [htrace, hstrings, hsweep], by simp [htrace, hstrings, hsweep]⟩
        | some gc₃ =>
          exact .inr ⟨_, by simp [htrace, hstrings, hsweep]; rfl,
            by simp [htrace, hstrings, hsweep]⟩

theorem blind_reallocate (oldSize newSize : ℕ) : (reallocate oldSize newSize).Blind := by
  intro memory memory' h
  unfold reallocate
  simp only [h.gc]
  by_cases hgrow : oldSize < newSize
  · simp only [hgrow, if_true]
    split
    next hpolicy =>
      rcases collectGarbage_alike (h.setGc _) with ⟨hs, hs'⟩ | ⟨gc, hs, hs'⟩
      · exact .inl ⟨by rw [hs]; rfl, by rw [hs']; rfl⟩
      · exact .inr ⟨(), _, _, by rw [hs]; rfl, by rw [hs']; rfl, h.setGc gc⟩
    next => exact .inr ⟨(), _, _, rfl, rfl, h.setGc _⟩
  · simp only [hgrow, if_false]
    exact .inr ⟨(), _, _, rfl, rfl, h.setGc _⟩

theorem blind_allocateObject (o : Obj) : (allocateObject o).Blind :=
  (blind_reallocate 0 o.sizeof).bind fun _ => blind_gc fun gc => some (gc.nextRef, gc.link o)

theorem blind_writeObj (r : Ref) (o : Obj) : (writeObj r o).Blind :=
  blind_gc fun gc => some ((), { gc with heap := Function.update gc.heap r (some o) })

/-! ### Strings -/

theorem blind_tableSet_strings (key : Ref) (value : Value) : (tableSet .strings key value).Blind := by
  refine (respectsOrSticks_read _ fun _ _ h => congrArg (fun gc => some gc.strings) h.gc).bind
    fun table => ?_
  have hput : Blind fun memory : Memory => do
      let table ← TablePlace.read memory .strings
      let result ← table.put memory.gc.hash key value
      let memory ← TablePlace.write memory result.1 .strings
      return (result.2, memory) := by
    refine fun memory memory' h => ?_
    have hgc := blind_gc (fun gc => (gc.strings.put gc.hash key value).map fun result =>
      (result.2, { gc with strings := result.1 })) memory memory' h
    simp only [TablePlace.read, TablePlace.write]
    cases hput : memory.gc.strings.put memory.gc.hash key value with
    | none => exact .inl ⟨by simp [hput], by simp [h.gc, hput]⟩
    | some _ => simpa [h.gc, hput] using hgc
  by_cases hgrowth : table.needsGrowth
  · simp only [hgrowth, if_true]
    refine (blind_reallocate _ _).bind fun _ => RespectsOrSticks.bind ?_ fun _ =>
      (blind_reallocate _ _).bind fun _ => hput
    refine fun memory memory' h => ?_
    have hgc := blind_gc (fun gc =>
      (gc.strings.adjustCapacity gc.hash (growCapacity table.capacity)).map fun table =>
        ((), { gc with strings := table })) memory memory' h
    simp only [TablePlace.read, TablePlace.write]
    cases hadjust : memory.gc.strings.adjustCapacity memory.gc.hash
        (growCapacity table.capacity) with
    | none => exact .inl ⟨by simp [hadjust], by simp [h.gc, hadjust]⟩
    | some _ => simpa [h.gc, hadjust] using hgc
  · simp only [hgrowth]
    exact hput

theorem blind_findString (chars : Bytes) : (findString chars).Blind := by
  intro memory memory' h
  unfold findString
  cases hfind : tableFindString memory.gc.strings (memory.gc.hasText chars (hashBytes chars))
      (hashBytes chars).toNat with
  | none => exact .inl ⟨by simp [hfind], by simp [h.gc, hfind]⟩
  | some found => exact .inr ⟨found, _, _, by simp [hfind], by simp [h.gc, hfind], h⟩

theorem blind_allocateString (chars : Bytes) (hash : UInt32) : (allocateString chars hash).Blind :=
  (blind_allocateObject _).bind fun string => (blind_push _).bind fun _ =>
    (blind_tableSet_strings string .nil).bind fun _ => blind_pop.bind fun _ =>
    respectsOrSticks_pure string

theorem blind_takeString (chars : Bytes) : (takeString chars).Blind := by
  refine (blind_findString chars).bind fun found => ?_
  cases found with
  | some interned => exact (blind_reallocate _ _).bind fun _ => respectsOrSticks_pure interned
  | none => exact blind_allocateString chars _

theorem blind_copyString (chars : Bytes) : (copyString chars).Blind := by
  refine (blind_findString chars).bind fun found => ?_
  cases found with
  | some interned => exact respectsOrSticks_pure interned
  | none => exact (blind_reallocate _ _).bind fun _ => blind_allocateString chars _

/-! ### Lists and arrays -/

theorem blind_newArray (count : ℕ) : (newArray count).Blind := by
  unfold newArray
  by_cases hcount : 0 < count
  · simp only [hcount, if_true]
    exact (blind_reallocate _ _).bind fun _ => blind_allocateObject _
  · simp only [hcount, if_false]
    exact (respectsOrSticks_pure _).bind fun _ => blind_allocateObject _

theorem blind_list (list : Ref) : (readMemory fun memory => memory.gc.list? list).Blind :=
  blind_readMemory fun _ _ h => by rw [h.gc]

theorem blind_writeValueToListObj (list : Ref) (value : Value) :
    (writeValueToListObj list value).Blind := by
  have hend : Blind (do
      let o ← readMemory fun memory => memory.gc.list? list
      writeObj list (.list { o with values := o.values ++ [value] })) :=
    (blind_list list).bind fun o => blind_writeObj _ _
  refine (blind_list list).bind fun o => ?_
  by_cases hfull : o.capacity < o.values.length + 1
  · simp only [hfull, if_true]
    exact (blind_writeObj _ _).bind fun _ => (blind_reallocate _ _).bind fun _ => hend
  · simp only [hfull, if_false]
    exact hend

theorem blind_setListValues (list : Ref) (values : List Value) : (setListValues list values).Blind :=
  (blind_list list).bind fun _ => blind_writeObj _ _

theorem blind_setArrayValues (array : Ref) (values : List Value) :
    (setArrayValues array values).Blind :=
  (blind_readMemory fun _ _ h => by rw [h.gc]).bind fun _ => blind_writeObj _ _

end Mem

/-! ### Programs of the machine -/

/-- Programs of the machine that do not look at the trace. -/
abbrev Blind {α : Type} (p : M α) : Prop := Respects VM.Alike p

variable {α β : Type}

theorem blind_liftMem {p : Mem α} (hp : p.Blind) : Blind (liftMem p) := by
  intro vm vm' h
  unfold liftMem
  rcases hp vm.toMemory vm'.toMemory h.toMemory with ⟨hs, hs'⟩ | ⟨a, t, t', hs, hs', ht⟩
  · rw [hs, hs']
    exact ⟨rfl, h⟩
  · rw [hs, hs']
    exact ⟨rfl, h.setMemory ht⟩

theorem blind_fault : Blind (fault : M α) := respects_throw _

theorem respects_orFault {R : VM → VM → Prop} (value : Option α) : Respects R (orFault value) := by
  cases value with
  | none => exact respects_throw _
  | some a => exact respects_pure a

/-- An object is read. -/
theorem blind_object (read : GC → Option α) : Blind (do orFault (read (← get).gc)) :=
  respects_get (fun _ _ h => by rw [h.gc]) fun _ => respects_orFault _

theorem blind_deref (r : Ref) : Blind (deref r) := blind_object fun gc => gc.heap r

theorem blind_functionOfClosure (r : Ref) : Blind (functionOfClosure r) :=
  (blind_object fun gc => gc.closure? r).bind fun closure =>
    blind_object fun gc => gc.function? closure.function

theorem blind_objectOf (value : Value) : Blind (objectOf value) := by
  cases value with
  | obj r => exact (blind_deref r).bind fun o => respects_pure (some (r, o))
  | nil => exact respects_pure none
  | boolean _ => exact respects_pure none
  | number _ _ => exact respects_pure none

theorem blind_runtimeError (message : Bytes) : Blind (runtimeError message) := by
  refine respects_modify ?_
  rintro vm _ ⟨trace, rfl⟩
  exact ⟨.report message :: trace, rfl⟩

theorem blind_refuse (message : Bytes) : Blind (refuse message) :=
  (blind_runtimeError message).bind fun _ => respects_pure false

theorem blind_die (message : Bytes) : Blind (die message : M α) :=
  (blind_runtimeError message).bind fun _ => respects_throw _

theorem blind_printedText (libc : Libc) (toErr : Bool) (value : Value) :
    Blind (printedText libc toErr value) :=
  respects_get (fun _ _ h => by rw [h.gc]) fun _ => respects_orFault _

theorem blind_prog (libc : Libc) {goesOn : Bool} (p : Prog goesOn α) : Blind (p.run libc) := by
  induction p with
  | pure a => exact respects_pure a
  | bind p f ih ih' => exact Respects.bind ih ih'
  | load object => exact blind_deref object
  | takeString chars => exact blind_liftMem (Mem.blind_takeString chars)
  | copyString chars => exact blind_liftMem (Mem.blind_copyString chars)
  | reallocate oldSize newSize => exact blind_liftMem (Mem.blind_reallocate oldSize newSize)
  | newList => exact blind_liftMem (Mem.blind_allocateObject _)
  | newArray count => exact blind_liftMem (Mem.blind_newArray count)
  | writeValueToListObj list value => exact blind_liftMem (Mem.blind_writeValueToListObj list value)
  | setListValues list values => exact blind_liftMem (Mem.blind_setListValues list values)
  | setArrayValues array values => exact blind_liftMem (Mem.blind_setArrayValues array values)
  | holding value p ih =>
    exact (blind_liftMem (Mem.blind_push value)).bind fun _ => Respects.bind ih fun result =>
      (blind_liftMem Mem.blind_pop).bind fun _ => respects_pure result
  | printed toErr value => exact blind_printedText libc toErr value
  | typeName value => exact blind_object fun gc => valueTypeToString gc value
  | outside f =>
    refine respects_modifyGet ?_
    rintro vm _ ⟨trace, rfl⟩
    exact ⟨rfl, trace, rfl⟩
  | exit code => exact respects_throw _
  | fail message => exact blind_die message
  | report h message => exact blind_runtimeError message
  | fault => exact blind_fault

/-! ### Calls -/

theorem blind_call (closure : Ref) (argCount : ℕ) : Blind (call closure argCount) := by
  refine (blind_functionOfClosure closure).bind fun function => ?_
  by_cases harity : (argCount : ℤ) = function.arity
  · rw [if_neg (not_not_intro harity)]
    refine respects_get ?_ fun vm => ?_
    · rintro vm _ ⟨trace, rfl⟩
      rfl
    · by_cases hfull : vm.frames.length = framesMax
      · rw [if_pos hfull]
        exact blind_refuse _
      · rw [if_neg hfull]
        refine (respects_modify ?_).bind fun _ => respects_pure true
        rintro vm _ ⟨trace, rfl⟩
        exact ⟨trace, rfl⟩
  · rw [if_pos harity]
    exact blind_refuse _

theorem blind_native (libc : Libc) (native : Native) (argCount : ℕ) (args : ℕ → Value) :
    Blind (native.run libc argCount args) := by
  cases native with
  | stops fn => exact blind_prog libc _
  | goesOn fn => exact blind_prog libc _

theorem blind_callNative (host : Host) (native : ObjNative) (argCount : ℕ) :
    Blind (callNative host native argCount) := by
  refine respects_get ?_ fun vm => ?_
  · rintro vm _ ⟨trace, rfl⟩
    rfl
  · cases findNative host native.function with
    | none => exact blind_fault
    | some native =>
      exact (blind_native host.libc native argCount _).bind fun result =>
        (blind_liftMem (Mem.blind_popN _)).bind fun _ =>
          (blind_liftMem (Mem.blind_push result)).bind fun _ => respects_pure true

theorem blind_setSlot (slot : ℤ) (value : Value) : Blind (setSlot slot value) := by
  refine respects_modify ?_
  rintro vm _ ⟨trace, rfl⟩
  exact ⟨trace, rfl⟩

/-- Whatever is called, it does the same whatever the trace is. -/
theorem blind_callValue (host : Host) (callee : Value) (argCount : ℕ) :
    Blind (callValue host callee argCount) := by
  refine (blind_objectOf callee).bind fun called => ?_
  match called with
  | some (_, .boundMethod bound) =>
    refine respects_get ?_ fun vm => (blind_setSlot _ _).bind fun _ => blind_call _ _
    rintro vm _ ⟨trace, rfl⟩
    rfl
  | some (closure, .closure _) => exact blind_call closure argCount
  | some (_, .native native) => exact blind_callNative host native argCount
  | none => exact blind_refuse _
  | some (_, .struct_ _) => exact blind_refuse _
  | some (_, .instance_ _) => exact blind_refuse _
  | some (_, .upvalue _) => exact blind_refuse _
  | some (_, .function _) => exact blind_refuse _
  | some (_, .string _) => exact blind_refuse _
  | some (_, .list _) => exact blind_refuse _
  | some (_, .array _) => exact blind_refuse _

end KirbyLang.Vm
