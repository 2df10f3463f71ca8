import KirbyLang.Construction
import KirbyLang.Lib.Preorders

/-!
# Programs over the memory

The programs that make objects and write over them, but for strings and upvalues, are put together
from three things: an allocation, a new object, and a write over an object that keeps what is read
elsewhere. A preorder on memories that these stay within is one that the programs stay within.

* `Obj.Kept`: how an object may be written over;
* `MemRule`: such a preorder;
* `stays_tableSet` and the lemmas after it: one for each program.
-/

namespace KirbyLang.Vm

open Preorders

/-- How an object may be written over: the fields of a struct, the arity of a function and the location
of an upvalue stay what they are, and an instance is not written over. -/
inductive Obj.Kept : Obj → Obj → Prop
  | refl (o : Obj) : Obj.Kept o o
  | struct_ {s s' : ObjStruct} (name : s'.name = s.name) (fieldCount : s'.fieldCount = s.fieldCount)
      (fieldPublic : s'.fieldPublic = s.fieldPublic) (fieldMutable : s'.fieldMutable = s.fieldMutable) :
      Obj.Kept (.struct_ s) (.struct_ s')
  | function {f f' : ObjFunction} (arity : f'.arity = f.arity) : Obj.Kept (.function f) (.function f')
  | list (l l' : ObjList) : Obj.Kept (.list l) (.list l')
  | array (a a' : ObjArray) : Obj.Kept (.array a) (.array a')
  | closure (c c' : ObjClosure) : Obj.Kept (.closure c) (.closure c')
  | upvalue {u u' : ObjUpvalue} (location : u'.location = u.location) :
      Obj.Kept (.upvalue u) (.upvalue u')

theorem Obj.Kept.trans {o o' o'' : Obj} (h : o.Kept o') (h' : o'.Kept o'') : o.Kept o'' := by
  cases h with
  | refl => exact h'
  | struct_ hname hcount hpublic hmutable =>
    cases h' with
    | refl => exact .struct_ hname hcount hpublic hmutable
    | struct_ hname' hcount' hpublic' hmutable' =>
      exact .struct_ (hname'.trans hname) (hcount'.trans hcount) (hpublic'.trans hpublic)
        (hmutable'.trans hmutable)
  | function harity =>
    cases h' with
    | refl => exact .function harity
    | function harity' => exact .function (harity'.trans harity)
  | list l l' =>
    cases h' with
    | refl => exact .list l l'
    | list _ l'' => exact .list l l''
  | array a a' =>
    cases h' with
    | refl => exact .array a a'
    | array _ a'' => exact .array a a''
  | closure c c' =>
    cases h' with
    | refl => exact .closure c c'
    | closure _ c'' => exact .closure c c''
  | upvalue hlocation =>
    cases h' with
    | refl => exact .upvalue hlocation
    | upvalue hlocation' => exact .upvalue (hlocation'.trans hlocation)

/-- What becomes an upvalue is one. -/
theorem Obj.Kept.of_upvalue {o : Obj} {u' : ObjUpvalue} (h : o.Kept (.upvalue u')) :
    ∃ u, o = .upvalue u ∧ u'.location = u.location := by
  cases h with
  | refl => exact ⟨u', rfl, rfl⟩
  | upvalue hlocation => exact ⟨_, rfl, hlocation⟩

/-- An object without fields of its own, and no upvalue. -/
def Obj.IsNew : Obj → Prop
  | .instance_ i => i.fields = none
  | .upvalue _ => False
  | _ => True

/-- An object that is not a string. -/
def Obj.NoString (o : Obj) : Prop := ∀ s, o ≠ .string s

theorem Obj.Kept.noString {o o' : Obj} (h : o.Kept o') (h' : o'.NoString) : o.NoString := by
  cases h with
  | refl => exact h'
  | _ => simp [Obj.NoString]

/-- A preorder that the parts of programs over the memory stay within. -/
class MemRule (R : Memory → Memory → Prop) : Prop extends IsPreorder Memory R where
  reallocate : ∀ oldSize newSize, Stays R (reallocate oldSize newSize)
  link : ∀ memory o, o.IsNew → o.NoString → R memory { memory with gc := memory.gc.link o }
  setObj : ∀ memory r o o', memory.gc.heap r = some o → o.Kept o' → o'.NoString →
    R memory (memory.setObj r o')

namespace Mem

theorem instance?_eq_some {gc : GC} {r : Ref} {o : ObjInstance} (h : gc.instance? r = some o) :
    gc.heap r = some (.instance_ o) := by
  obtain ⟨o', ho', h⟩ := Option.bind_eq_some_iff.mp h
  cases o' <;> cases h
  exact ho'

theorem list?_eq_some {gc : GC} {r : Ref} {o : ObjList} (h : gc.list? r = some o) :
    gc.heap r = some (.list o) := by
  obtain ⟨o', ho', h⟩ := Option.bind_eq_some_iff.mp h
  cases o' <;> cases h
  exact ho'

theorem array?_eq_some {gc : GC} {r : Ref} {o : ObjArray} (h : gc.array? r = some o) :
    gc.heap r = some (.array o) := by
  obtain ⟨o', ho', h⟩ := Option.bind_eq_some_iff.mp h
  cases o' <;> cases h
  exact ho'

theorem function?_eq_some {gc : GC} {r : Ref} {o : ObjFunction} (h : gc.function? r = some o) :
    gc.heap r = some (.function o) := by
  obtain ⟨o', ho', h⟩ := Option.bind_eq_some_iff.mp h
  cases o' <;> cases h
  exact ho'

theorem stays_copySlice {R : Memory → Memory → Prop} (hcopy : ∀ chars, Stays R (copyString chars))
    (compiledUnit : CompiledUnit) (offset length : ℤ) :
    Stays R (copySlice compiledUnit offset length) := by
  unfold copySlice
  split
  · exact hcopy _
  · intro memory a memory' h
    cases h

section Rules

variable {R : Memory → Memory → Prop} [MemRule R] {memory : Memory}

theorem stays_reallocate (oldSize newSize : ℕ) : Stays R (reallocate oldSize newSize) :=
  MemRule.reallocate oldSize newSize

theorem stays_allocateObject {o : Obj} (hnew : o.IsNew) (hstring : o.NoString) :
    Stays R (allocateObject o) := by
  refine (stays_reallocate 0 o.sizeof).bind fun _ => ?_
  intro memory a memory' h
  cases h
  exact MemRule.link memory o hnew hstring

theorem staysFrom_writeObj {r : Ref} {o o' : Obj} (ho : memory.gc.heap r = some o)
    (hkept : o.Kept o') (hstring : o'.NoString) : StaysFrom R (writeObj r o') memory := by
  intro a memory' h
  cases h
  exact MemRule.setObj memory r o o' ho hkept hstring

/-! ### Tables -/

/-- A table may be any whose new state may be written. -/
theorem stays_tableSet {place : TablePlace} (hwrite : ∀ memory memory' table,
      place.write memory table = some memory' → R memory memory') (key : Ref) (value : Value) :
    Stays R (tableSet place key value) := by
  have hput : Stays R (fun memory => do
      let table ← place.read memory
      let result ← table.put memory.gc.hash key value
      let memory ← place.write memory result.1
      return (result.2, memory) : Mem Bool) := by
    intro memory a memory' h
    obtain ⟨table, -, h⟩ := Option.bind_eq_some_iff.mp h
    obtain ⟨⟨table', isNewKey⟩, -, h⟩ := Option.bind_eq_some_iff.mp h
    obtain ⟨written, hwritten, h⟩ := Option.bind_eq_some_iff.mp h
    cases h
    exact hwrite _ _ _ hwritten
  refine (stays_read fun memory => place.read memory).bind fun table => ?_
  -- The table grows between two allocations, or there is room.
  split
  · refine (stays_reallocate _ _).bind fun _ => ?_
    refine Stays.bind (p := fun memory => do
        let table ← place.read memory
        let grown ← table.adjustCapacity memory.gc.hash (growCapacity _)
        let memory ← place.write memory grown
        return ((), memory)) ?_ fun _ => (stays_reallocate _ _).bind fun _ => hput
    intro memory a memory' h
    obtain ⟨table, -, h⟩ := Option.bind_eq_some_iff.mp h
    obtain ⟨grown, -, h⟩ := Option.bind_eq_some_iff.mp h
    obtain ⟨written, hwritten, h⟩ := Option.bind_eq_some_iff.mp h
    cases h
    exact hwrite _ _ _ hwritten
  · exact hput

/-- The tables of structs. -/
theorem write_struct {memory' : Memory} {struct_ : Ref} {table : Table Ref Value}
    {place : TablePlace} (hplace : place = .methods struct_ ∨ place = .fields struct_)
    (h : place.write memory table = some memory') : R memory memory' := by
  rcases hplace with rfl | rfl
  · obtain ⟨o, ho, h⟩ := Option.bind_eq_some_iff.mp h
    cases h
    exact MemRule.setObj memory struct_ _ _ (GC.struct?_eq_some.mp ho) (.struct_ rfl rfl rfl rfl)
      (by simp [Obj.NoString])
  · obtain ⟨o, ho, h⟩ := Option.bind_eq_some_iff.mp h
    cases h
    exact MemRule.setObj memory struct_ _ _ (GC.struct?_eq_some.mp ho) (.struct_ rfl rfl rfl rfl)
      (by simp [Obj.NoString])

/-! ### Constructors -/

theorem stays_newBoundMethod (receiver : Value) (method : Ref) :
    Stays R (newBoundMethod receiver method) :=
  stays_allocateObject trivial (by simp [Obj.NoString])

theorem stays_newStruct (name : Ref) : Stays R (newStruct name) :=
  stays_allocateObject trivial (by simp [Obj.NoString])

theorem stays_newClosure (function : Ref) : Stays R (newClosure function) :=
  (stays_read _).bind fun _ => (stays_reallocate _ _).bind fun _ =>
    stays_allocateObject trivial (by simp [Obj.NoString])

theorem stays_newFunction : Stays R newFunction :=
  stays_allocateObject trivial (by simp [Obj.NoString])

theorem stays_newNative (function : Bytes) : Stays R (newNative function) :=
  stays_allocateObject trivial (by simp [Obj.NoString])

theorem stays_newList : Stays R newList := stays_allocateObject trivial (by simp [Obj.NoString])

theorem stays_newArray (count : ℕ) : Stays R (newArray count) := by
  have hmake : Stays R (allocateObject (.array { values := List.replicate count .nil })) :=
    stays_allocateObject trivial (by simp [Obj.NoString])
  unfold newArray
  split
  · exact (stays_reallocate _ _).bind fun _ => hmake
  · exact hmake

/-! ### Growing arrays -/

theorem staysFrom_writeList {list : Ref} {o : ObjList} (ho : memory.gc.list? list = some o)
    (o' : ObjList) : StaysFrom R (writeObj list (.list o')) memory :=
  staysFrom_writeObj (list?_eq_some ho) (.list o o') (by simp [Obj.NoString])

theorem staysFrom_writeFunction {function : Ref} {o o' : ObjFunction}
    (ho : memory.gc.function? function = some o) (harity : o'.arity = o.arity) :
    StaysFrom R (writeObj function (.function o')) memory :=
  staysFrom_writeObj (function?_eq_some ho) (.function harity) (by simp [Obj.NoString])

theorem stays_setListValues (list : Ref) (values : List Value) :
    Stays R (setListValues list values) :=
  fun _ => .read fun _ ho => staysFrom_writeList ho _

theorem stays_setArrayValues (array : Ref) (values : List Value) :
    Stays R (setArrayValues array values) := fun _ => .read fun _ ho =>
  staysFrom_writeObj (array?_eq_some ho) (.array _ _) (by simp [Obj.NoString])

theorem stays_writeValueToListObj (list : Ref) (value : Value) :
    Stays R (writeValueToListObj list value) := by
  have hwrite : Stays R (do
      let o ← readMemory fun memory => memory.gc.list? list
      writeObj list (.list { o with values := o.values ++ [value] })) :=
    fun _ => .read fun _ ho => staysFrom_writeList ho _
  intro memory
  refine .read fun o ho => ?_
  split
  · refine (staysFrom_writeList ho _).bind fun _ _ _ => ?_
    exact (stays_reallocate _ _ _).bind fun _ _ _ => hwrite _
  · exact hwrite _

theorem stays_writeChunk (function : Ref) (byte : CodeByte) :
    Stays R (writeChunk function byte) := by
  have hwrite : Stays R (do
      let o ← functionAt function
      writeObj function
        (.function { o with chunk := { o.chunk with code := o.chunk.code ++ [byte] } })) :=
    fun _ => .read fun _ ho => staysFrom_writeFunction ho rfl
  intro memory
  refine .read fun o ho => ?_
  split
  · refine (staysFrom_writeFunction ho (by rfl)).bind fun _ _ _ => ?_
    refine (stays_reallocate _ _ _).bind fun _ _ _ => ?_
    exact (stays_reallocate _ _ _).bind fun _ _ _ => hwrite _
  · exact hwrite _

theorem stays_writeConstant (function : Ref) (value : Value) :
    Stays R (writeConstant function value) := by
  have hwrite : Stays R (do
      let o ← functionAt function
      let array := o.chunk.constants
      writeObj function (.function { o with
        chunk := { o.chunk with constants := { array with values := array.values ++ [value] } } })) :=
    fun _ => .read fun _ ho => staysFrom_writeFunction ho rfl
  intro memory
  refine .read fun o ho => ?_
  dsimp only
  split
  · refine (staysFrom_writeFunction ho (by rfl)).bind fun _ _ _ => ?_
    exact (stays_reallocate _ _ _).bind fun _ _ _ => hwrite _
  · exact hwrite _

/-! ### The loader -/

theorem stays_functionOf (byIndex : List Ref) (functionIndex : ℤ) :
    Stays R (functionOf byIndex functionIndex) := by
  intro memory a memory' h
  unfold functionOf at h
  split at h
  · cases h
  · obtain ⟨_, -, heq⟩ := Option.map_eq_some_iff.mp h
    cases heq
    exact Std.Refl.refl _

section Loader

variable (hcopy : ∀ chars, Stays R (copyString chars)) (compiledUnit : CompiledUnit)
include hcopy

/-- The part of `allocateFunction` that comes after the first write. -/
theorem stays_nameAndCode (compiledFn : CompiledFn) (function : Ref) : Stays R (do
      if compiledFn.nameLength ≥ 0 then
        let name ← copySlice compiledUnit compiledFn.nameOffset compiledFn.nameLength
        let o ← functionAt function
        writeObj function (.function { o with name })
      compiledFn.code.forM (writeChunk function)
      return function) := by
  have hcode : Stays R (do
      compiledFn.code.forM (writeChunk function)
      return function) :=
    (Stays.forM fun byte => stays_writeChunk function byte).bind fun _ => stays_pure _
  intro memory
  dsimp only
  split
  · refine (stays_copySlice hcopy compiledUnit _ _ _).bind fun name memory₂ _ => ?_
    refine .read fun o ho => ?_
    exact (staysFrom_writeFunction ho (by rfl)).bind fun _ _ _ => hcode _
  · exact hcode _

theorem stays_resolveConstToValue (byIndex : List Ref) (constant : CompiledConst) :
    Stays R (resolveConstToValue compiledUnit byIndex constant) := by
  cases constant with
  | number kind payload => exact stays_pure _
  | boolean value => exact stays_pure _
  | nil => exact stays_pure _
  | string offset length =>
    exact (stays_copySlice hcopy compiledUnit _ _).bind fun _ => stays_pure _
  | function functionIndex => exact (stays_functionOf _ _).bind fun _ => stays_pure _

end Loader

end Rules

end Mem

end KirbyLang.Vm
