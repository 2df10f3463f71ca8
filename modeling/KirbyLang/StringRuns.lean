import KirbyLang.Evolution
import KirbyLang.Interning

/-!
# What programs do to strings

A program over the memory makes strings by `copyString` and `takeString` and in no other way, so that
what it does is a run of the steps that interning speaks about.

* `Memory.NoUnderflow`: no pop has gone below the stack;
* `Memory.Interns`: such a run, between two memories;
* `Mem.Interning`: the programs, with one lemma for each of them, and for the loader.
-/

namespace KirbyLang.Vm

open Preorders

/-- The stack pointer has never been lowered to below the stack. -/
def Memory.NoUnderflow (memory : Memory) : Prop := ∀ top, .pop top ∈ memory.trace → 0 ≤ top

/-- A run of string steps, if no pop goes below the stack. -/
structure Memory.Interns (memory memory' : Memory) : Prop where
  trace : memory.trace <:+ memory'.trace
  run : memory'.NoUnderflow → 0 ≤ memory.stackTop →
    0 ≤ memory'.stackTop ∧ StringRun memory memory'

section Relation

variable {memory memory' memory'' : Memory} {r : Ref} {o o' : Obj}

theorem Memory.NoUnderflow.of_suffix (h : memory'.NoUnderflow)
    (htrace : memory.trace <:+ memory'.trace) : memory.NoUnderflow :=
  fun top htop => h top (htrace.subset htop)

namespace Memory.Interns

theorem refl (memory : Memory) : memory.Interns memory :=
  ⟨List.suffix_refl _, fun _ hbase => ⟨hbase, .refl⟩⟩

theorem trans (h : memory.Interns memory') (h' : memory'.Interns memory'') :
    memory.Interns memory'' := by
  refine ⟨h.trace.trans h'.trace, fun hpops hbase => ?_⟩
  obtain ⟨hbase', hrun⟩ := h.run (hpops.of_suffix h'.trace) hbase
  obtain ⟨hbase'', hrun'⟩ := h'.run hpops hbase'
  exact ⟨hbase'', hrun.trans hrun'⟩

theorem ofStep (hstep : StringStep memory memory') (htrace : memory'.trace = memory.trace)
    (htop : memory'.stackTop = memory.stackTop) : memory.Interns memory' := by
  refine ⟨htrace ▸ List.suffix_refl _, fun _ hbase => ⟨?_, .single hstep⟩⟩
  rw [htop]
  exact hbase

/-- A change of all else but the strings and the stack pointer. -/
theorem ofMutate (htrace : memory'.trace = memory.trace) (htop : memory'.stackTop = memory.stackTop)
    (hstrings : memory'.gc.strings = memory.gc.strings)
    (hobjects : memory.gc.Tidy → memory'.gc.Tidy ∧ ∀ r s,
      memory'.gc.heap r = some (.string s) ↔ memory.gc.heap r = some (.string s)) :
    memory.Interns memory' := by
  refine ⟨htrace ▸ List.suffix_refl _, fun _ hbase => ?_⟩
  have hbase' : 0 ≤ memory'.stackTop := htop ▸ hbase
  exact ⟨hbase', .single (.mutate hbase' hstrings hobjects)⟩

/-- A change that the objects do not see. -/
theorem ofSame (htrace : memory.trace <:+ memory'.trace)
    (htop : memory'.NoUnderflow → 0 ≤ memory.stackTop → 0 ≤ memory'.stackTop)
    (hgc : memory'.gc = memory.gc) : memory.Interns memory' := by
  refine ⟨htrace, fun hpops hbase => ?_⟩
  have hbase' := htop hpops hbase
  refine ⟨hbase', .single (.mutate hbase' (hgc ▸ rfl) fun tidy => ?_)⟩
  rw [hgc]
  exact ⟨tidy, fun _ _ => Iff.rfl⟩

theorem pushed (memory : Memory) (value : Value) : memory.Interns (memory.pushed value) := by
  refine ofSame (List.suffix_cons _ _) (fun _ hbase => ?_) rfl
  show 0 ≤ memory.stackTop + 1
  omega

theorem popped (memory : Memory) (count : ℤ) : memory.Interns (memory.popped count) :=
  ofSame (List.suffix_cons _ _) (fun hpops _ => hpops _ List.mem_cons_self) rfl

/-- An object is written over. -/
theorem setObj (hr : memory.gc.heap r = some o) (ho : o.NoString) (ho' : o'.NoString) :
    memory.Interns (memory.setObj r o') := by
  refine ofMutate rfl rfl rfl fun tidy => ⟨tidy.setObj (by rw [hr]; simp) o', fun r' s => ?_⟩
  by_cases heq : r' = r
  · subst heq
    have hself : (memory.setObj r' o').gc.heap r' = some o' := Function.update_self ..
    rw [hself, hr]
    simp [ho s, ho' s]
  · rw [show (memory.setObj r o').gc.heap r' = memory.gc.heap r' from Function.update_of_ne heq _ _]

/-- A new object. -/
theorem link (memory : Memory) (ho : o.NoString) :
    memory.Interns { memory with gc := memory.gc.link o } := by
  -- Nothing was at the new address, so no string is lost there.
  refine ofMutate rfl rfl rfl fun tidy => ⟨tidy.link o, fun r s => ?_⟩
  by_cases heq : r = memory.gc.nextRef
  · subst heq
    have hself : (memory.gc.link o).heap memory.gc.nextRef = some o := Function.update_self ..
    rw [hself, tidy.fresh (Nat.le_refl _)]
    simp [ho s]
  · rw [show (memory.gc.link o).heap r = memory.gc.heap r from Function.update_of_ne heq _ _]

end Memory.Interns

instance : IsPreorder Memory Memory.Interns where
  refl := .refl
  trans := fun _ _ _ => .trans

end Relation

/-! ### Programs -/

namespace Mem

variable {α β : Type}

/-- A program that makes strings in the two ways alone. -/
def Interning (p : Mem α) : Prop := Stays Memory.Interns p

theorem Interning.bind {p : Mem α} {f : α → Mem β} (hp : p.Interning)
    (hf : ∀ a, (f a).Interning) : (p >>= f).Interning := Stays.bind hp hf

theorem interning_push (value : Value) : (pushOnStack value).Interning := by
  intro memory a memory' h
  cases h
  exact .pushed memory value

theorem interning_pop : popFromStack.Interning := by
  intro memory a memory' h
  cases h
  exact .popped memory 1

theorem interning_popN (count : ℤ) : (popNFromStack count).Interning := by
  intro memory a memory' h
  cases h
  exact .popped memory count

theorem interning_reallocate (oldSize newSize : ℕ) : (reallocate oldSize newSize).Interning := by
  intro memory a memory' h
  have hcounted : ∀ bytesAllocated allocations,
      memory.Interns { memory with gc := { memory.gc with bytesAllocated, allocations } } :=
    fun _ _ => .ofMutate rfl rfl rfl fun tidy =>
      ⟨tidy.congr rfl (fun _ => Iff.rfl) rfl, fun _ _ => Iff.rfl⟩
  obtain ⟨bytesAllocated, allocations, rfl | ⟨-, hcollect⟩⟩ := reallocate_cases h
  · exact hcounted _ _
  · have hrest := collectGarbage_rest hcollect
    refine (hcounted bytesAllocated allocations).trans (.ofStep (.collectGarbage hcollect) ?_ ?_)
    · rw [hrest]
    · rw [hrest]

instance : MemRule Memory.Interns where
  reallocate := interning_reallocate
  link := fun memory _ _ hstring => .link memory hstring
  setObj := fun _ _ _ _ hr hkept hstring => .setObj hr (hkept.noString hstring) hstring

theorem interning_copyString (chars : Bytes) : (copyString chars).Interning := by
  intro memory r memory' h
  -- One step of the run, whatever it pushes and pops on the way.
  have hevolves := evolving_copyString chars memory r memory' h
  obtain ⟨events, htrace, -⟩ := hevolves.trace
  refine ⟨⟨events, htrace.symm⟩, fun _ hbase => ⟨?_, .single (.copyString h)⟩⟩
  rw [hevolves.stackTop]
  exact hbase

theorem interning_takeString (chars : Bytes) : (takeString chars).Interning := by
  intro memory r memory' h
  have hevolves := evolving_takeString chars memory r memory' h
  obtain ⟨events, htrace, -⟩ := hevolves.trace
  refine ⟨⟨events, htrace.symm⟩, fun _ hbase => ⟨?_, .single (.takeString h)⟩⟩
  rw [hevolves.stackTop]
  exact hbase

/-- All tables but the intern table itself. -/
theorem interning_tableSet {place : TablePlace} (hplace : place ≠ .strings) (key : Ref)
    (value : Value) : (tableSet place key value).Interning := by
  refine stays_tableSet (fun memory memory' table h => ?_) key value
  cases place with
  | strings => exact absurd rfl hplace
  | globals =>
    cases h
    exact .ofMutate rfl rfl rfl fun tidy => ⟨tidy, fun _ _ => Iff.rfl⟩
  | methods struct_ => exact write_struct (.inl rfl) h
  | fields struct_ => exact write_struct (.inr rfl) h

theorem interning_newInstance (struct_ : Ref) : (newInstance struct_).Interning := by
  have hmake : (allocateObject (.instance_ { struct_ })).Interning :=
    stays_allocateObject rfl (by simp [Obj.NoString])
  refine hmake.bind fun instance_ => ?_
  refine (interning_push _).bind fun _ => Interning.bind (stays_read _) fun o => ?_
  have hend : Interning (do
      let _ ← popFromStack
      return instance_) := interning_pop.bind fun _ => stays_pure _
  dsimp only
  split
  · refine (interning_reallocate _ _).bind fun _ memory => ?_
    refine StaysFrom.read fun i hi => ?_
    refine StaysFrom.bind (fun a memory' h => ?_) fun _ memory' _ => hend memory'
    cases h
    exact Memory.Interns.setObj (instance?_eq_some hi) (by simp [Obj.NoString])
      (by simp [Obj.NoString])
  · exact hend

/-! ### The loader -/

theorem interning_allocateFunction (compiledUnit : CompiledUnit) (compiledFn : CompiledFn) :
    (allocateFunction compiledUnit compiledFn).Interning := by
  refine Interning.bind stays_newFunction fun function => (interning_push _).bind fun _ memory => ?_
  refine StaysFrom.read fun o ho => StaysFrom.bind (fun a memory' h => ?_) fun _ memory' _ =>
    stays_nameAndCode interning_copyString compiledUnit compiledFn function memory'
  cases h
  exact Memory.Interns.setObj (function?_eq_some ho) (by simp [Obj.NoString])
    (by simp [Obj.NoString])

theorem interning_resolveConst (compiledUnit : CompiledUnit) (byIndex : List Ref) (function : Ref)
    (constant : CompiledConst) : (resolveConst compiledUnit byIndex function constant).Interning :=
  Interning.bind (stays_resolveConstToValue interning_copyString compiledUnit byIndex constant)
    fun resolvedValue => (interning_push _).bind fun _ =>
    Interning.bind (stays_writeConstant function resolvedValue) fun _ =>
    interning_pop.bind fun _ => stays_pure _

theorem interning_cleanup (n : ℕ) : (cleanupFromAllocatingFunctions n).Interning := by
  induction n with
  | zero => exact stays_pure ()
  | succ n ih => exact interning_pop.bind fun _ => ih

theorem interning_loadUnit (compiledUnit : CompiledUnit) : (loadUnit compiledUnit).Interning :=
  Interning.bind (Stays.mapM fun compiledFn => interning_allocateFunction compiledUnit compiledFn)
    fun byIndex => Interning.bind (Stays.forM fun _ => Stays.forM fun constant =>
      interning_resolveConst compiledUnit byIndex _ constant) fun _ =>
      (interning_cleanup _).bind fun _ => stays_functionOf byIndex 0

end Mem

end KirbyLang.Vm
