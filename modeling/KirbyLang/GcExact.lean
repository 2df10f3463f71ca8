import KirbyLang.Gc
import KirbyLang.HashTableSound
import KirbyLang.Lib.Tracing

/-!
# The collector is exact

`Reachable` says what the roots lead to, field by field. In a well formed memory a collection frees
exactly the objects that are not reachable, reads none it has freed, and leaves a well formed
memory.

* `Marking`: what marking keeps, an instance of the invariant of tracing;
* `Sweeping`: what the sweep keeps;
* `collectGarbage_exact`: the two together.
-/

namespace KirbyLang.Vm

open Tracing

/-! ### Reachability -/

/-- The references in the fields of an object. -/
inductive Obj.Refers : Obj → Ref → Prop
  | structName {o : ObjStruct} : Refers (.struct_ o) o.name
  | methodName {o : ObjStruct} {key : Ref} {value : Value} :
      o.methods.Maps key value → Refers (.struct_ o) key
  | method {o : ObjStruct} {key r : Ref} : o.methods.Maps key (.obj r) → Refers (.struct_ o) r
  | fieldName {o : ObjStruct} {key : Ref} {value : Value} :
      o.fields.Maps key value → Refers (.struct_ o) key
  | fieldSlot {o : ObjStruct} {key r : Ref} : o.fields.Maps key (.obj r) → Refers (.struct_ o) r
  | instanceStruct {o : ObjInstance} : Refers (.instance_ o) o.struct_
  | instanceField {o : ObjInstance} {fields : List Value} {r : Ref} :
      o.fields = some fields → .obj r ∈ fields → Refers (.instance_ o) r
  | receiver {o : ObjBoundMethod} {r : Ref} : o.receiver = .obj r → Refers (.boundMethod o) r
  | boundMethod {o : ObjBoundMethod} : Refers (.boundMethod o) o.method
  | closed {o : ObjUpvalue} {r : Ref} : o.closed = .obj r → Refers (.upvalue o) r
  | closureFunction {o : ObjClosure} : Refers (.closure o) o.function
  | owner {o : ObjClosure} : Refers (.closure o) o.owner
  | upvalue {o : ObjClosure} {r : Ref} : r ∈ o.upvalues → Refers (.closure o) r
  | functionName {o : ObjFunction} : Refers (.function o) o.name
  | constant {o : ObjFunction} {r : Ref} :
      .obj r ∈ o.chunk.constants.values → Refers (.function o) r
  | listElement {o : ObjList} {r : Ref} : .obj r ∈ o.values → Refers (.list o) r
  | arrayElement {o : ObjArray} {r : Ref} : .obj r ∈ o.values → Refers (.array o) r

namespace Memory

/-- The open upvalue `o` refers to what its stack slot holds. -/
def LocationRefers (memory : Memory) (o : Obj) (r : Ref) : Prop :=
  ∃ upvalue slot, o = .upvalue upvalue ∧ upvalue.location = .stack slot ∧
    memory.stack slot = .obj r

/-- The object at `r` refers to the one at `r'`, through a field or through the stack slot of an
open upvalue. -/
def Edge (memory : Memory) (r r' : Ref) : Prop :=
  r' ≠ null ∧ ∃ o, memory.gc.heap r = some o ∧ (o.Refers r' ∨ memory.LocationRefers o r')

/-- The edges the collector follows: it leaves the stack slots to the roots. -/
def FieldEdge (memory : Memory) (r r' : Ref) : Prop :=
  r' ≠ null ∧ ∃ o, memory.gc.heap r = some o ∧ o.Refers r'

/-- The live slots of the stack, the closures of the frames, the open upvalues, the globals. -/
inductive RootRef (memory : Memory) : Ref → Prop
  | slot {i : ℤ} {r : Ref} : 0 ≤ i → i < memory.stackTop → memory.stack i = .obj r →
      RootRef memory r
  | frame {frame : CallFrame} : frame ∈ memory.frames → RootRef memory frame.closure
  | openUpvalue {r : Ref} : r ∈ memory.openUpvalues → RootRef memory r
  | globalName {key : Ref} {value : Value} : memory.globals.Maps key value → RootRef memory key
  | globalValue {key r : Ref} : memory.globals.Maps key (.obj r) → RootRef memory r

def Root (memory : Memory) (r : Ref) : Prop := r ≠ null ∧ memory.RootRef r

/-- What the roots lead to. -/
def Reachable (memory : Memory) : Ref → Prop := Reaches memory.Root memory.Edge

/-- What the roots lead to through fields. -/
def FieldReachable (memory : Memory) : Ref → Prop := Reaches memory.Root memory.FieldEdge

/-- The object of each address that is not `NULL` is there. -/
def Alive (gc : GC) (r : Ref) : Prop := r ≠ null → gc.heap r ≠ none

/-- A memory between two collections. -/
structure WellFormed (memory : Memory) : Prop where
  /-- The newest object comes first. -/
  objects_sorted : memory.gc.objects.Pairwise (· > ·)
  mem_objects : ∀ r, r ∈ memory.gc.objects ↔ memory.gc.heap r ≠ none
  objects_lt : ∀ r ∈ memory.gc.objects, r < memory.gc.nextRef
  nextRef_pos : null < memory.gc.nextRef
  null_free : memory.gc.heap null = none
  unmarked : ∀ r, memory.gc.isMarked r = false
  no_gray : memory.gc.grayStack = []
  /-- No field of an object refers to an object that is gone. -/
  fields_alive : ∀ r o r', memory.gc.heap r = some o → o.Refers r' → Alive memory.gc r'
  roots_alive : ∀ r, memory.RootRef r → Alive memory.gc r
  /-- An instance is newer than its struct and has a value for each of its fields. -/
  instances : ∀ r o, memory.gc.heap r = some (.instance_ o) → o.struct_ < r ∧
    ∃ struct_, memory.gc.heap o.struct_ = some (.struct_ struct_) ∧
      ∀ fields, o.fields = some fields → fields.length = struct_.fieldCount
  strings_valid : memory.gc.strings.Valid memory.gc.hash
  strings_alive : ∀ r, memory.gc.strings.HasKey r → ∃ s, memory.gc.heap r = some (.string s)

/-- The open upvalues point into the live part of the stack. -/
def OpenUpvaluesLive (memory : Memory) : Prop :=
  ∀ r upvalue slot, memory.gc.heap r = some (.upvalue upvalue) →
    upvalue.location = .stack slot → 0 ≤ slot ∧ slot < memory.stackTop

end Memory

/-! ### Marking is the marking of a list of references -/

/-- The reference in a value. -/
def Value.refs : Value → List Ref
  | .obj r => [r]
  | _ => []

@[simp] theorem Value.mem_refs {r : Ref} {value : Value} : r ∈ value.refs ↔ value = .obj r := by
  cases value <;> simp [Value.refs, eq_comm]

/-- The references in an entry of a table. -/
def entryRefs : Entry Ref Value → List Ref
  | .full key value => key :: value.refs
  | _ => []

/-- The references in a table, in the order of its entries. -/
def tableRefs (table : Table Ref Value) : List Ref :=
  (List.range table.capacity).flatMap fun i => entryRefs (table.entries i)

theorem mem_tableRefs {table : Table Ref Value} {r : Ref} :
    r ∈ tableRefs table ↔ table.HasKey r ∨ ∃ key, table.Maps key (.obj r) := by
  unfold tableRefs
  rw [List.mem_flatMap]
  constructor
  · rintro ⟨i, hi, hr⟩
    rw [List.mem_range] at hi
    cases hentry : table.entries i with
    | empty => simp [hentry, entryRefs] at hr
    | tombstone => simp [hentry, entryRefs] at hr
    | full key value =>
      rw [hentry] at hr
      rcases List.mem_cons.mp hr with rfl | hr
      · exact .inl ⟨value, i, hi, hentry⟩
      · rw [Value.mem_refs] at hr
        exact .inr ⟨key, i, hi, by rw [hentry, hr]⟩
  · rintro (⟨value, i, hi, hentry⟩ | ⟨key, i, hi, hentry⟩)
    · exact ⟨i, List.mem_range.mpr hi, by simp [hentry, entryRefs]⟩
    · exact ⟨i, List.mem_range.mpr hi, by simp [hentry, entryRefs]⟩

/-- The references in the fields of an object, in the order they are marked in. -/
def Obj.children : Obj → List Ref
  | .struct_ o => o.name :: (tableRefs o.methods ++ tableRefs o.fields)
  | .instance_ o => o.struct_ :: (o.fields.getD []).flatMap Value.refs
  | .boundMethod o => o.receiver.refs ++ [o.method]
  | .upvalue o => o.closed.refs
  | .closure o => o.function :: o.owner :: o.upvalues
  | .function o => o.name :: o.chunk.constants.values.flatMap Value.refs
  | .list o => o.values.flatMap Value.refs
  | .array o => o.values.flatMap Value.refs
  | .native _ => []
  | .string _ => []

theorem mem_flatMap_refs {values : List Value} {r : Ref} :
    r ∈ values.flatMap Value.refs ↔ .obj r ∈ values := by
  simp

/-- Every reference field is among the children. -/
theorem Obj.refers_iff {o : Obj} {r : Ref} : o.Refers r ↔ r ∈ o.children := by
  constructor
  · intro h
    cases h with
    | structName => simp [children]
    | methodName h =>
      simp only [children, List.mem_cons, List.mem_append, mem_tableRefs]
      exact .inr (.inl (.inl ⟨_, h⟩))
    | method h =>
      simp only [children, List.mem_cons, List.mem_append, mem_tableRefs]
      exact .inr (.inl (.inr ⟨_, h⟩))
    | fieldName h =>
      simp only [children, List.mem_cons, List.mem_append, mem_tableRefs]
      exact .inr (.inr (.inl ⟨_, h⟩))
    | fieldSlot h =>
      simp only [children, List.mem_cons, List.mem_append, mem_tableRefs]
      exact .inr (.inr (.inr ⟨_, h⟩))
    | instanceStruct => simp [children]
    | instanceField hf h => simp [children, hf, h]
    | receiver h => simp [children, h]
    | boundMethod => simp [children]
    | closed h => simp [children, h]
    | closureFunction => simp [children]
    | owner => simp [children]
    | upvalue h => simp [children, h]
    | functionName => simp [children]
    | constant h => simp [children, h]
    | listElement h => simpa [children] using h
    | arrayElement h => simpa [children] using h
  · intro h
    cases o with
    | struct_ o =>
      simp only [children, List.mem_cons, List.mem_append, mem_tableRefs] at h
      rcases h with rfl | (⟨v, h⟩ | ⟨k, h⟩) | (⟨v, h⟩ | ⟨k, h⟩)
      · exact .structName
      · exact .methodName h
      · exact .method h
      · exact .fieldName h
      · exact .fieldSlot h
    | instance_ o =>
      simp only [children, List.mem_cons] at h
      rcases h with rfl | h
      · exact .instanceStruct
      · rw [mem_flatMap_refs] at h
        cases hf : o.fields with
        | none => simp [hf] at h
        | some fields => exact .instanceField hf (by simpa [hf] using h)
    | boundMethod o =>
      simp only [children, List.mem_append, Value.mem_refs, List.mem_singleton] at h
      rcases h with h | rfl
      · exact .receiver h
      · exact .boundMethod
    | closure o =>
      simp only [children, List.mem_cons] at h
      rcases h with rfl | rfl | h
      · exact .closureFunction
      · exact .owner
      · exact .upvalue h
    | function o =>
      simp only [children, List.mem_cons] at h
      rcases h with rfl | h
      · exact .functionName
      · exact .constant (mem_flatMap_refs.mp h)
    | native o => simp [children] at h
    | string o => simp [children] at h
    | upvalue o => exact .closed (by simpa [children] using h)
    | list o => exact .listElement (mem_flatMap_refs.mp h)
    | array o => exact .arrayElement (mem_flatMap_refs.mp h)

/-- Mark the references of a list. -/
def markAll (gc : GC) (refs : List Ref) : Option GC := refs.foldlM markObject gc

@[simp] theorem markAll_nil (gc : GC) : markAll gc [] = some gc := rfl

theorem markAll_cons (gc : GC) (r : Ref) (refs : List Ref) :
    markAll gc (r :: refs) = (markObject gc r).bind fun gc => markAll gc refs := rfl

theorem markAll_append (gc : GC) (refs refs' : List Ref) :
    markAll gc (refs ++ refs') = (markAll gc refs).bind fun gc => markAll gc refs' := by
  unfold markAll
  rw [List.foldlM_append]
  rfl

theorem markValue_eq (gc : GC) (value : Value) : markValue gc value = markAll gc value.refs := by
  cases value with
  | obj r =>
    show markObject gc r = (markObject gc r).bind some
    cases markObject gc r <;> rfl
  | boolean b => rfl
  | nil => rfl
  | number k p => rfl

/-- A loop that marks the references of each of its elements. -/
theorem foldlM_eq_markAll {β : Type} {f : GC → β → Option GC} {refs : β → List Ref}
    (h : ∀ gc x, f gc x = markAll gc (refs x)) (gc : GC) (xs : List β) :
    xs.foldlM f gc = markAll gc (xs.flatMap refs) := by
  induction xs generalizing gc with
  | nil => rfl
  | cons x xs ih =>
    rw [List.foldlM_cons, List.flatMap_cons, markAll_append, h]
    show Option.bind _ _ = _
    congr 1
    funext gc'
    exact ih gc'

theorem markArray_eq (gc : GC) (values : List Value) :
    markArray gc values = markAll gc (values.flatMap Value.refs) :=
  foldlM_eq_markAll markValue_eq gc values

theorem markTable_eq (gc : GC) (table : Table Ref Value) :
    markTable gc table = markAll gc (tableRefs table) := by
  refine foldlM_eq_markAll (fun gc i => ?_) gc _
  unfold markEntry
  cases table.entries i with
  | empty => rfl
  | tombstone => rfl
  | full key value =>
    show (markObject gc key).bind _ = _
    rw [entryRefs, markAll_cons]
    congr 1
    funext gc'
    exact markValue_eq gc' value

/-- The references of the roots, in the order they are marked in. -/
def Memory.rootRefs (memory : Memory) : List Ref :=
  ((List.range memory.stackTop.toNat).map fun slot : ℕ => memory.stack slot).flatMap Value.refs ++
    (memory.frames.reverse.map CallFrame.closure ++
      (memory.openUpvalues ++ tableRefs memory.globals))

theorem markVMRoots_eq (memory : Memory) :
    markVMRoots memory = markAll memory.gc memory.rootRefs := by
  unfold markVMRoots Memory.rootRefs
  rw [markAll_append, markArray_eq]
  show Option.bind _ _ = _
  congr 1
  funext gc
  rw [markAll_append]
  show Option.bind _ _ = _
  congr 1
  funext gc
  rw [markAll_append]
  show Option.bind _ _ = _
  congr 1
  funext gc
  exact markTable_eq gc memory.globals

theorem Memory.mem_rootRefs {memory : Memory} {r : Ref} :
    r ∈ memory.rootRefs ↔ memory.RootRef r := by
  simp only [rootRefs, List.mem_append, mem_flatMap_refs, List.mem_map, List.mem_range,
    List.mem_reverse, mem_tableRefs]
  constructor
  · rintro (⟨i, hi, hr⟩ | ⟨frame, hframe, rfl⟩ | hr | ⟨value, hr⟩ | ⟨key, hr⟩)
    · exact .slot (by omega) (by omega) hr
    · exact .frame hframe
    · exact .openUpvalue hr
    · exact .globalName hr
    · exact .globalValue hr
  · intro h
    cases h with
    | @slot i _ h0 hlt hr =>
      refine .inl ⟨i.toNat, by omega, ?_⟩
      rwa [Int.toNat_of_nonneg h0]
    | frame h => exact .inr (.inl ⟨_, h, rfl⟩)
    | openUpvalue h => exact .inr (.inr (.inl h))
    | globalName h => exact .inr (.inr (.inr (.inl ⟨_, h⟩)))
    | globalValue h => exact .inr (.inr (.inr (.inr ⟨_, h⟩)))

/-- What marking changes. -/
structure SameButMarks (gc gc' : GC) : Prop where
  heap : gc'.heap = gc.heap
  objects : gc'.objects = gc.objects
  strings : gc'.strings = gc.strings
  nextRef : gc'.nextRef = gc.nextRef
  policy : gc'.policy = gc.policy
  allocations : gc'.allocations = gc.allocations
  bytesAllocated : gc'.bytesAllocated = gc.bytesAllocated

theorem SameButMarks.refl (gc : GC) : SameButMarks gc gc := ⟨rfl, rfl, rfl, rfl, rfl, rfl, rfl⟩

theorem SameButMarks.trans {gc gc' gc'' : GC} (h : SameButMarks gc gc')
    (h' : SameButMarks gc' gc'') : SameButMarks gc gc'' :=
  ⟨h'.heap.trans h.heap, h'.objects.trans h.objects, h'.strings.trans h.strings,
    h'.nextRef.trans h.nextRef, h'.policy.trans h.policy, h'.allocations.trans h.allocations,
    h'.bytesAllocated.trans h.bytesAllocated⟩

theorem markObject_same {gc gc' : GC} {r : Ref} (h : markObject gc r = some gc') :
    SameButMarks gc gc' := by
  unfold markObject at h
  by_cases hnull : r = null
  · rw [if_pos hnull] at h
    cases h
    exact .refl gc
  · rw [if_neg hnull] at h
    cases hheap : gc.heap r with
    | none =>
      rw [hheap] at h
      cases h
    | some o =>
      rw [hheap] at h
      by_cases hmarked : gc.isMarked r = true
      · simp only [hmarked, if_true] at h
        cases h
        exact .refl gc
      · simp only [hmarked] at h
        cases h
        exact ⟨rfl, rfl, rfl, rfl, rfl, rfl, rfl⟩

/-- An object is blackened by marking its children. -/
theorem blackenObject_eq {gc : GC} {r : Ref} {o : Obj} (hheap : gc.heap r = some o)
    (hinstance : ∀ instance_ fields, o = .instance_ instance_ → instance_.fields = some fields →
      ∃ struct_, gc.heap instance_.struct_ = some (.struct_ struct_) ∧
        fields.length = struct_.fieldCount) :
    blackenObject gc r = markAll gc o.children := by
  unfold blackenObject
  rw [hheap]
  show Option.bind (some o) _ = _
  rw [Option.bind_some]
  cases o with
  | struct_ o =>
    rw [Obj.children, markAll_cons]
    show Option.bind _ _ = _
    congr 1
    funext gc'
    rw [markAll_append, ← markTable_eq]
    show Option.bind _ _ = _
    congr 1
    funext gc''
    exact markTable_eq gc'' o.fields
  | instance_ o =>
    rw [Obj.children, markAll_cons]
    show Option.bind _ _ = _
    refine Option.bind_congr fun gc' hgc' => ?_
    cases hfields : o.fields with
    | none => rfl
    | some fields =>
      obtain ⟨struct_, hstruct, hlength⟩ := hinstance o fields rfl hfields
      have hstruct' : gc'.struct? o.struct_ = some struct_ := by
        rw [GC.struct?_eq_some, (markObject_same hgc').heap, hstruct]
      show (gc'.struct? o.struct_).bind _ = _
      rw [hstruct', Option.bind_some, if_pos (Nat.le_of_eq hlength.symm), markArray_eq,
        List.take_of_length_le (Nat.le_of_eq hlength)]
      rfl
  | boundMethod o =>
    rw [Obj.children, markAll_append, ← markValue_eq]
    show Option.bind _ _ = _
    congr 1
    funext gc'
    exact markValue_eq gc' (.obj o.method)
  | closure o => rfl
  | function o =>
    rw [Obj.children, markAll_cons]
    show Option.bind _ _ = _
    congr 1
    funext gc'
    exact markArray_eq gc' _
  | native o => rfl
  | string o => rfl
  | upvalue o => exact markValue_eq gc o.closed
  | list o => exact markArray_eq gc o.values
  | array o => exact markArray_eq gc o.values

/-! ### Marking -/

section Marking

variable {memory : Memory} {gc : GC} {r : Ref} {refs waiting extra : List Ref}

/-- What marking keeps; `waiting` is the gray stack, together with an object that is being
blackened. -/
structure Marking (memory : Memory) (waiting : List Ref) (gc : GC) : Prop where
  same : SameButMarks memory.gc gc
  colours : TriColour memory.Root memory.FieldEdge (fun r => gc.isMarked r = true) waiting

/-- The unmarked objects and the gray ones, whose number bounds the rounds that are left. -/
def GC.work (gc : GC) : ℕ :=
  gc.grayStack.length + (gc.objects.toFinset.filter fun r => gc.isMarked r = false).card

namespace Memory

theorem WellFormed.alive (wf : memory.WellFormed) (h : memory.FieldReachable r) :
    r ≠ null ∧ memory.gc.heap r ≠ none := by
  cases h with
  | root h => exact ⟨h.1, wf.roots_alive r h.2 h.1⟩
  | next _ h =>
    obtain ⟨hnull, o, ho, href⟩ := h
    exact ⟨hnull, wf.fields_alive _ o r ho href hnull⟩

/-- What a live slot holds is a root, so the slots of open upvalues lead to nothing new. -/
theorem reachable_iff (open_ : memory.OpenUpvaluesLive) :
    memory.Reachable r ↔ memory.FieldReachable r := by
  constructor
  · intro h
    induction h with
    | root h => exact .root h
    | next _ h ih =>
      obtain ⟨hnull, o, ho, href | ⟨upvalue, slot, rfl, hslot, href⟩⟩ := h
      · exact .next ih ⟨hnull, o, ho, href⟩
      · obtain ⟨h0, hlt⟩ := open_ _ upvalue slot ho hslot
        exact .root ⟨hnull, .slot h0 hlt href⟩
  · intro h
    induction h with
    | root h => exact .root h
    | next _ h ih =>
      obtain ⟨hnull, o, ho, href⟩ := h
      exact .next ih ⟨hnull, o, ho, .inl href⟩

theorem WellFormed.nodup (wf : memory.WellFormed) : memory.gc.objects.Nodup :=
  wf.objects_sorted.imp fun h => Nat.ne_of_gt h

end Memory

/-- Marking a reachable object, or `NULL`. -/
theorem Marking.markObject (wf : memory.WellFormed)
    (h : Marking memory (extra ++ gc.grayStack) gc) (hr : r ≠ null → memory.FieldReachable r) :
    ∃ gc', markObject gc r = some gc' ∧ Marking memory (extra ++ gc'.grayStack) gc' ∧
      (r ≠ null → gc'.isMarked r = true) ∧
      (∀ x, gc.isMarked x = true → gc'.isMarked x = true) ∧ gc'.work = gc.work := by
  unfold KirbyLang.Vm.markObject
  by_cases hnull : r = null
  · exact ⟨gc, by rw [if_pos hnull], h, fun hne => absurd hnull hne, fun _ hx => hx, rfl⟩
  · have halive := (wf.alive (hr hnull)).2
    rw [← h.same.heap] at halive
    obtain ⟨o, ho⟩ := Option.ne_none_iff_exists'.mp halive
    rw [if_neg hnull, ho]
    by_cases hmarked : gc.isMarked r = true
    · exact ⟨gc, by simp [hmarked], h, fun _ => hmarked, fun _ hx => hx, rfl⟩
    · refine ⟨{ gc with
          isMarked := Function.update gc.isMarked r true
          grayStack := r :: gc.grayStack }, by simp [hmarked], ⟨?_, ?_⟩, by simp, ?_, ?_⟩
      · exact h.same.trans ⟨rfl, rfl, rfl, rfl, rfl, rfl, rfl⟩
      · have hupdate : ∀ x, Function.update gc.isMarked r true x = true ↔
            x = r ∨ gc.isMarked x = true := by
          intro x
          by_cases hx : x = r
          · subst hx
            simp
          · simp [hx]
        refine (h.colours.mark (hr hnull) hupdate).congr_gray fun x => ?_
        simp only [List.mem_cons, List.mem_append]
        tauto
      · intro x hx
        by_cases hxr : x = r
        · subst hxr
          simp
        · simpa [hxr] using hx
      · -- The object leaves the unmarked ones and joins the gray ones.
        have hmem : r ∈ gc.objects := by
          rw [h.same.objects, wf.mem_objects, ← h.same.heap]
          exact halive
        have herase : (gc.objects.toFinset.filter fun x =>
            Function.update gc.isMarked r true x = false) =
            (gc.objects.toFinset.filter fun x => gc.isMarked x = false).erase r := by
          ext x
          by_cases hxr : x = r
          · subst hxr
            simp
          · simp [hxr]
        have hin : r ∈ gc.objects.toFinset.filter fun x => gc.isMarked x = false := by
          simp [hmem, hmarked]
        have hpos := Finset.card_pos.mpr ⟨r, hin⟩
        unfold GC.work
        rw [herase, Finset.card_erase_of_mem hin]
        simp only [List.length_cons]
        omega

theorem Marking.markAll (wf : memory.WellFormed)
    (h : Marking memory (extra ++ gc.grayStack) gc)
    (hrefs : ∀ r ∈ refs, r ≠ null → memory.FieldReachable r) :
    ∃ gc', markAll gc refs = some gc' ∧ Marking memory (extra ++ gc'.grayStack) gc' ∧
      (∀ r ∈ refs, r ≠ null → gc'.isMarked r = true) ∧
      (∀ x, gc.isMarked x = true → gc'.isMarked x = true) ∧ gc'.work = gc.work := by
  induction refs generalizing gc with
  | nil => exact ⟨gc, rfl, h, by simp, fun _ hx => hx, rfl⟩
  | cons r refs ih =>
    obtain ⟨gc₁, hgc₁, h₁, hr, hkeep₁, hwork₁⟩ :=
      h.markObject wf (hrefs r List.mem_cons_self)
    obtain ⟨gc₂, hgc₂, h₂, hrest, hkeep₂, hwork₂⟩ :=
      ih h₁ fun x hx => hrefs x (List.mem_cons_of_mem r hx)
    refine ⟨gc₂, by rw [markAll_cons, hgc₁, Option.bind_some, hgc₂], h₂, ?_,
      fun x hx => hkeep₂ x (hkeep₁ x hx), hwork₂.trans hwork₁⟩
    intro x hx hnull
    rcases List.mem_cons.mp hx with rfl | hx
    · exact hkeep₂ x (hr hnull)
    · exact hrest x hx hnull

/-- One round of `traceReferences`: an object leaves the gray stack and becomes black. -/
theorem Marking.blackenObject (wf : memory.WellFormed)
    {rest : List Ref} (h : Marking memory gc.grayStack gc) (hgray : gc.grayStack = r :: rest) :
    ∃ gc', blackenObject { gc with grayStack := rest } r = some gc' ∧
      Marking memory gc'.grayStack gc' ∧ gc'.work + 1 = gc.work ∧
      (∀ x, gc.isMarked x = true → gc'.isMarked x = true) := by
  have hmarked : gc.isMarked r = true := h.colours.gray_marked r (by simp [hgray])
  have hreach : memory.FieldReachable r := h.colours.sound r hmarked
  obtain ⟨o, ho⟩ := Option.ne_none_iff_exists'.mp (wf.alive hreach).2
  have hedge : ∀ x, x ≠ null → o.Refers x → memory.FieldEdge r x := fun x hnull href =>
    ⟨hnull, o, ho, href⟩
  let popped : GC := { gc with grayStack := rest }
  have hstart : Marking memory ([r] ++ popped.grayStack) popped := by
    refine ⟨h.same.trans ⟨rfl, rfl, rfl, rfl, rfl, rfl, rfl⟩, ?_⟩
    have hcolours := h.colours
    rw [hgray] at hcolours
    exact hcolours
  have hrefs : ∀ x ∈ o.children, x ≠ null → memory.FieldReachable x := fun x hx hnull =>
    .next hreach (hedge x hnull (Obj.refers_iff.mpr hx))
  obtain ⟨gc', hgc', h', hchildren, hkeep, hwork⟩ := hstart.markAll wf hrefs
  refine ⟨gc', ?_, ⟨h'.same, ?_⟩, ?_, hkeep⟩
  · rw [blackenObject_eq (o := o), hgc']
    · show gc.heap r = some o
      rw [h.same.heap, ho]
    · rintro instance_ fields rfl hfields
      obtain ⟨-, struct_, hstruct, hlength⟩ := wf.instances r instance_ ho
      refine ⟨struct_, ?_, hlength fields hfields⟩
      show gc.heap instance_.struct_ = _
      rw [h.same.heap, hstruct]
  · refine TriColour.blacken h'.colours fun x hx => ?_
    obtain ⟨hnull, o', ho', href⟩ := hx
    rw [ho] at ho'
    cases ho'
    exact hchildren x (Obj.refers_iff.mp href) hnull
  · rw [hwork]
    unfold GC.work
    rw [hgray]
    simp only [List.length_cons, popped]
    omega

/-- `traceReferences` ends, and leaves exactly the reachable objects marked. -/
theorem Marking.traceReferences (wf : memory.WellFormed) {rounds : ℕ}
    (h : Marking memory gc.grayStack gc)
    (hroots : ∀ x, memory.Root x → gc.isMarked x = true) (hwork : gc.work ≤ rounds) :
    ∃ gc', traceReferences rounds gc = some gc' ∧ SameButMarks memory.gc gc' ∧
      gc'.grayStack = [] ∧ ∀ x, gc'.isMarked x = true ↔ memory.FieldReachable x := by
  induction rounds generalizing gc with
  | zero =>
    have hgray : gc.grayStack = [] := by
      unfold GC.work at hwork
      exact List.eq_nil_of_length_eq_zero (by omega)
    refine ⟨gc, by simp [KirbyLang.Vm.traceReferences, hgray], h.same, hgray, ?_⟩
    have hcolours := h.colours
    rw [hgray] at hcolours
    exact hcolours.exact hroots
  | succ rounds ih =>
    unfold KirbyLang.Vm.traceReferences
    cases hgray : gc.grayStack with
    | nil =>
      refine ⟨gc, rfl, h.same, hgray, ?_⟩
      have hcolours := h.colours
      rw [hgray] at hcolours
      exact hcolours.exact hroots
    | cons r rest =>
      obtain ⟨gc₁, hgc₁, h₁, hwork₁, hkeep⟩ := h.blackenObject wf hgray
      obtain ⟨gc₂, hgc₂, hsame, hempty, hexact⟩ :=
        ih h₁ (fun x hx => hkeep x (hroots x hx)) (by omega)
      exact ⟨gc₂, by simp [hgc₁, hgc₂], hsame, hempty, hexact⟩

/-- The whole mark phase. -/
theorem mark_exact (wf : memory.WellFormed) :
    ∃ gc₁ gc₂, markVMRoots memory = some gc₁ ∧
      traceReferences gc₁.objects.length gc₁ = some gc₂ ∧ SameButMarks memory.gc gc₂ ∧
      gc₂.grayStack = [] ∧ ∀ x, gc₂.isMarked x = true ↔ memory.FieldReachable x := by
  have hstart : Marking memory ([] ++ memory.gc.grayStack) memory.gc := by
    refine ⟨.refl _, ?_⟩
    rw [wf.no_gray]
    exact TriColour.start fun x => by simp [wf.unmarked x]
  have hrefs : ∀ r ∈ memory.rootRefs, r ≠ null → memory.FieldReachable r := fun r hr hnull =>
    .root ⟨hnull, Memory.mem_rootRefs.mp hr⟩
  obtain ⟨gc₁, hgc₁, h₁, hmarked, -, hwork⟩ := hstart.markAll wf hrefs
  have hroots : ∀ x, memory.Root x → gc₁.isMarked x = true := fun x hx =>
    hmarked x (Memory.mem_rootRefs.mpr hx.2) hx.1
  have hbound : gc₁.work ≤ gc₁.objects.length := by
    rw [hwork, h₁.same.objects]
    unfold GC.work
    rw [wf.no_gray, List.length_nil, Nat.zero_add, ← List.toFinset_card_of_nodup wf.nodup]
    exact Finset.card_filter_le _ _
  obtain ⟨gc₂, hgc₂, hsame, hempty, hexact⟩ := h₁.traceReferences wf hroots hbound
  exact ⟨gc₁, gc₂, by rw [markVMRoots_eq, hgc₁], hgc₂, hsame, hempty, hexact⟩

end Marking

/-! ### Sweeping -/

/-- What sweeping leaves as it was. -/
structure SameButObjects (gc gc' : GC) : Prop where
  strings : gc'.strings = gc.strings
  nextRef : gc'.nextRef = gc.nextRef
  grayStack : gc'.grayStack = gc.grayStack
  policy : gc'.policy = gc.policy
  allocations : gc'.allocations = gc.allocations

/-- An instance can be freed while its struct is there. -/
def Freeable (gc : GC) (r : Ref) : Prop :=
  ∀ instance_, gc.heap r = some (.instance_ instance_) →
    instance_.struct_ < r ∧ ∃ struct_, gc.heap instance_.struct_ = some (.struct_ struct_)

theorem freeObject_spec {gc : GC} {r : Ref} (halive : gc.heap r ≠ none) (hfree : Freeable gc r) :
    ∃ gc', freeObject gc r = some gc' ∧ gc'.heap = Function.update gc.heap r none ∧
      gc'.isMarked = gc.isMarked ∧ SameButObjects gc gc' := by
  obtain ⟨o, ho⟩ := Option.ne_none_iff_exists'.mp halive
  have howned : ∃ owned, gc.ownedSize o = some owned := by
    cases o with
    | instance_ instance_ =>
      obtain ⟨-, struct_, hstruct⟩ := hfree instance_ ho
      rw [← GC.struct?_eq_some] at hstruct
      exact ⟨_, by rw [GC.ownedSize, hstruct]; rfl⟩
    | _ => exact ⟨_, rfl⟩
  obtain ⟨owned, howned⟩ := howned
  refine ⟨{ gc.account (owned + o.sizeof) 0 with heap := Function.update gc.heap r none }, ?_,
    rfl, rfl, ⟨rfl, rfl, rfl, rfl, rfl⟩⟩
  unfold freeObject
  simp only [ho, howned, Option.bind_eq_bind, Option.bind_some]
  rfl

/-- The loop of `sweep`. The newest object comes first, so the struct of an instance that is freed
is still to come, or marked. -/
theorem sweepLoop_spec {rest : List Ref} (kept : List Ref) {gc : GC} (hsorted : rest.Pairwise (· > ·))
    (halive : ∀ r ∈ rest, gc.heap r ≠ none) (hfree : ∀ r ∈ rest, Freeable gc r) :
    ∃ gc', sweepLoop kept rest gc = some gc' ∧
      gc'.objects = kept.reverse ++ rest.filter (fun r => gc.isMarked r) ∧
      (∀ r, gc'.heap r = if r ∈ rest ∧ gc.isMarked r = false then none else gc.heap r) ∧
      (∀ r, gc'.isMarked r = if r ∈ rest then false else gc.isMarked r) ∧
      SameButObjects gc gc' := by
  induction rest generalizing kept gc with
  | nil => exact ⟨_, rfl, by simp, by simp, by simp, ⟨rfl, rfl, rfl, rfl, rfl⟩⟩
  | cons x rest ih =>
    obtain ⟨hx, hsorted⟩ := List.pairwise_cons.mp hsorted
    have hxrest : x ∉ rest := fun hmem => Nat.lt_irrefl x (hx x hmem)
    obtain ⟨o, ho⟩ := Option.ne_none_iff_exists'.mp (halive x List.mem_cons_self)
    unfold sweepLoop
    by_cases hmarked : gc.isMarked x = true
    · let gc₁ : GC := { gc with isMarked := Function.update gc.isMarked x false }
      have hmark : ∀ r ∈ rest, gc₁.isMarked r = gc.isMarked r := fun r hr => by
        have hne : r ≠ x := fun heq => hxrest (heq ▸ hr)
        simp [gc₁, hne]
      have halive₁ : ∀ r ∈ rest, gc₁.heap r ≠ none := fun r hr =>
        halive r (List.mem_cons_of_mem x hr)
      have hfree₁ : ∀ r ∈ rest, Freeable gc₁ r := fun r hr =>
        hfree r (List.mem_cons_of_mem x hr)
      obtain ⟨gc', hgc', hobjects, hheap, hmarks, hsame⟩ := ih (x :: kept) hsorted halive₁ hfree₁
      refine ⟨gc', by simp [ho, hmarked, hgc', gc₁], ?_, fun r => ?_, fun r => ?_,
        ⟨hsame.strings, hsame.nextRef, hsame.grayStack, hsame.policy, hsame.allocations⟩⟩
      · rw [hobjects, List.filter_congr hmark]
        simp [hmarked]
      · rw [hheap]
        by_cases hrx : r = x
        · subst hrx
          simp [hxrest, hmarked, gc₁]
        · simp [hrx, gc₁]
      · rw [hmarks]
        by_cases hrx : r = x
        · subst hrx
          simp [gc₁]
        · simp [hrx, gc₁]
    · have hwhite : gc.isMarked x = false := by simpa using hmarked
      obtain ⟨gc₁, hgc₁, hheap₁, hmarks₁, hsame₁⟩ :=
        freeObject_spec (halive x List.mem_cons_self) (hfree x List.mem_cons_self)
      have hother : ∀ r, r ≠ x → gc₁.heap r = gc.heap r := fun r hr => by simp [hheap₁, hr]
      have halive₁ : ∀ r ∈ rest, gc₁.heap r ≠ none := fun r hr => by
        rw [hother r fun heq => hxrest (heq ▸ hr)]
        exact halive r (List.mem_cons_of_mem x hr)
      have hfree₁ : ∀ r ∈ rest, Freeable gc₁ r := by
        intro r hr instance_ hinstance
        rw [hother r fun heq => hxrest (heq ▸ hr)] at hinstance
        obtain ⟨hlt, struct_, hstruct⟩ := hfree r (List.mem_cons_of_mem x hr) instance_ hinstance
        refine ⟨hlt, struct_, ?_⟩
        have hxr : r < x := hx r hr
        rw [hother _ (Nat.ne_of_lt (Nat.lt_trans hlt hxr)), hstruct]
      obtain ⟨gc', hgc', hobjects, hheap, hmarks, hsame⟩ := ih kept hsorted halive₁ hfree₁
      refine ⟨gc', by simp [ho, hwhite, hgc₁, hgc'], ?_, fun r => ?_, fun r => ?_,
        ⟨hsame.strings.trans hsame₁.strings, hsame.nextRef.trans hsame₁.nextRef,
          hsame.grayStack.trans hsame₁.grayStack, hsame.policy.trans hsame₁.policy,
          hsame.allocations.trans hsame₁.allocations⟩⟩
      · rw [hobjects, hmarks₁, List.filter_cons_of_neg (by simp [hwhite])]
      · rw [hheap, hmarks₁]
        by_cases hrx : r = x
        · subst hrx
          simp [hxrest, hwhite, hheap₁]
        · simp [hrx, hother r hrx]
      · rw [hmarks, hmarks₁]
        by_cases hrx : r = x
        · subst hrx
          simp [hwhite]
        · simp [hrx]

/-! ### A collection -/

/-- What a collection does when `keeps` are the objects that stay. -/
structure Collected (keeps : Ref → Prop) (memory memory' : Memory) : Prop where
  /-- Nothing but the collector's own state changes. -/
  rest : memory' = { memory with gc := memory'.gc }
  kept : ∀ r, keeps r → memory'.gc.heap r = memory.gc.heap r
  freed : ∀ r, ¬ keeps r → memory'.gc.heap r = none
  objects : ∀ r, r ∈ memory'.gc.objects ↔ r ∈ memory.gc.objects ∧ keeps r
  unmarked : ∀ r, memory'.gc.isMarked r = false
  /-- A string stays interned, under the same key, when it is kept. -/
  strings : ∀ r value, memory'.gc.strings.Maps r value ↔
    memory.gc.strings.Maps r value ∧ keeps r
  strings_count : memory'.gc.strings.count = memory.gc.strings.count
  strings_capacity : memory'.gc.strings.capacity = memory.gc.strings.capacity
  nextRef : memory'.gc.nextRef = memory.gc.nextRef
  policy : memory'.gc.policy = memory.gc.policy

theorem Collected.hasKey_iff {keeps : Ref → Prop} {memory memory' : Memory} {r : Ref}
    (h : Collected keeps memory memory') :
    memory'.gc.strings.HasKey r ↔ memory.gc.strings.HasKey r ∧ keeps r := by
  constructor
  · rintro ⟨value, hmaps⟩
    obtain ⟨hmaps, hkeep⟩ := (h.strings r value).mp hmaps
    exact ⟨⟨value, hmaps⟩, hkeep⟩
  · rintro ⟨⟨value, hmaps⟩, hkeep⟩
    exact ⟨value, (h.strings r value).mpr ⟨hmaps, hkeep⟩⟩

/-- A collection in a well formed memory. It keeps what the roots lead to through fields, and the
intern table stays valid. -/
theorem collectGarbage_fields {memory : Memory} (wf : memory.WellFormed) :
    ∃ memory', collectGarbage memory = some memory' ∧
      Collected memory.FieldReachable memory memory' ∧ memory'.gc.grayStack = [] ∧
      memory'.gc.objects.Sublist memory.gc.objects ∧
      memory'.gc.strings.Valid memory.gc.hash := by
  obtain ⟨gc₁, gc₂, hroots, htrace, hsame, hgray, hexact⟩ := mark_exact wf
  have hhash : gc₂.hash = memory.gc.hash := by
    funext r
    unfold GC.hash GC.string?
    rw [hsame.heap]
  have hvalid : gc₂.strings.Valid gc₂.hash := by
    rw [hsame.strings, hhash]
    exact wf.strings_valid
  obtain ⟨hremove, hwhitened⟩ := hvalid.tableRemoveWhite gc₂.isMarked
  let gc₃ : GC := { gc₂ with strings := gc₂.strings.whiten gc₂.isMarked }
  have hheap₃ : gc₃.heap = memory.gc.heap := hsame.heap
  have hobjects₃ : gc₃.objects = memory.gc.objects := hsame.objects
  have hsorted : gc₃.objects.Pairwise (· > ·) := by
    rw [hobjects₃]
    exact wf.objects_sorted
  have halive : ∀ r ∈ gc₃.objects, gc₃.heap r ≠ none := by
    intro r hr
    rw [hheap₃, ← wf.mem_objects, ← hobjects₃]
    exact hr
  have hfree : ∀ r ∈ gc₃.objects, Freeable gc₃ r := by
    intro r _ instance_ hinstance
    rw [hheap₃] at hinstance ⊢
    obtain ⟨hlt, struct_, hstruct, -⟩ := wf.instances r instance_ hinstance
    exact ⟨hlt, struct_, hstruct⟩
  obtain ⟨gc₄, hsweep, hobjects, hheap, hmarks, hrest⟩ := sweepLoop_spec [] hsorted halive hfree
  refine ⟨{ memory with gc := { gc₄ with nextGC := gc₄.bytesAllocated * 2 } }, ?_,
    ⟨rfl, fun r hr => ?_, fun r hr => ?_, fun r => ?_, fun r => ?_, fun r value => ?_, ?_, ?_, ?_,
      ?_⟩, ?_, ?_, ?_⟩
  · unfold collectGarbage
    have hsweep' : sweep gc₃ = some gc₄ := hsweep
    simp only [hroots, htrace, hremove, hsweep', gc₃, Option.bind_eq_bind, Option.bind_some] at *
    rfl
  · show gc₄.heap r = memory.gc.heap r
    rw [hheap, if_neg, hheap₃]
    rintro ⟨-, hwhite⟩
    have hmarked : gc₂.isMarked r = true := (hexact r).mpr hr
    exact absurd hmarked (by rw [show gc₂.isMarked r = false from hwhite]; simp)
  · show gc₄.heap r = none
    rw [hheap]
    have hwhite : gc₃.isMarked r = false := by
      rw [Bool.eq_false_iff]
      exact fun hmarked => hr ((hexact r).mp hmarked)
    by_cases hmem : r ∈ gc₃.objects
    · rw [if_pos ⟨hmem, hwhite⟩]
    · rw [if_neg fun h => hmem h.1, hheap₃]
      by_contra halive'
      exact hmem (hobjects₃ ▸ (wf.mem_objects r).mpr halive')
  · show r ∈ gc₄.objects ↔ _
    rw [hobjects, List.reverse_nil, List.nil_append, List.mem_filter, hobjects₃]
    exact and_congr_right fun _ => hexact r
  · show gc₄.isMarked r = false
    rw [hmarks]
    split
    · rfl
    · rename_i hmem
      rw [Bool.eq_false_iff]
      intro hmarked
      have hreach := (hexact r).mp hmarked
      exact hmem (hobjects₃ ▸ (wf.mem_objects r).mpr (wf.alive hreach).2)
  · show gc₄.strings.Maps r value ↔ _
    rw [hrest.strings]
    show (gc₂.strings.whiten gc₂.isMarked).Maps r value ↔ _
    rw [Table.maps_whiten, hsame.strings]
    exact and_congr_right fun _ => hexact r
  · show gc₄.strings.count = _
    rw [hrest.strings, ← hsame.strings]
    rfl
  · show gc₄.strings.capacity = _
    rw [hrest.strings, ← hsame.strings]
    rfl
  · exact hrest.nextRef.trans hsame.nextRef
  · exact hrest.policy.trans hsame.policy
  · exact hrest.grayStack.trans hgray
  · show gc₄.objects.Sublist _
    rw [hobjects, hobjects₃]
    exact List.filter_sublist
  · show gc₄.strings.Valid _
    rw [hrest.strings, ← hhash]
    exact hwhitened

/-- A well formed memory is well formed after a collection. -/
theorem Memory.WellFormed.collectGarbage {memory memory' : Memory} (wf : memory.WellFormed)
    (h : Vm.collectGarbage memory = some memory') : memory'.WellFormed := by
  obtain ⟨collected, hcollect, hspec, hgray, hsub, hvalid⟩ := collectGarbage_fields wf
  rw [h] at hcollect
  cases hcollect
  have hback : ∀ r o, memory'.gc.heap r = some o →
      memory.gc.heap r = some o ∧ memory.FieldReachable r := by
    intro r o ho
    by_cases hreach : memory.FieldReachable r
    · rw [hspec.kept r hreach] at ho
      exact ⟨ho, hreach⟩
    · rw [hspec.freed r hreach] at ho
      cases ho
  have hroot : ∀ r, memory'.RootRef r → memory.RootRef r := by
    intro r hr
    rw [hspec.rest] at hr
    cases hr with
    | slot h0 hlt hr => exact .slot h0 hlt hr
    | frame hr => exact .frame hr
    | openUpvalue hr => exact .openUpvalue hr
    | globalName hr => exact .globalName hr
    | globalValue hr => exact .globalValue hr
  have hkeeps : ∀ r, memory.FieldReachable r → memory'.gc.heap r ≠ none := by
    intro r hr
    rw [hspec.kept r hr]
    exact (wf.alive hr).2
  constructor
  · exact wf.objects_sorted.sublist hsub
  · intro r
    rw [hspec.objects, wf.mem_objects]
    constructor
    · rintro ⟨-, hr⟩
      exact hkeeps r hr
    · intro hr
      obtain ⟨o, ho⟩ := Option.ne_none_iff_exists'.mp hr
      obtain ⟨ho', hreach⟩ := hback r o ho
      exact ⟨by rw [ho']; simp, hreach⟩
  · intro r hr
    rw [hspec.nextRef]
    exact wf.objects_lt r ((hspec.objects r).mp hr).1
  · rw [hspec.nextRef]
    exact wf.nextRef_pos
  · by_contra hnull
    obtain ⟨o, ho⟩ := Option.ne_none_iff_exists'.mp hnull
    have := (hback null o ho).1
    rw [wf.null_free] at this
    cases this
  · exact hspec.unmarked
  · exact hgray
  · intro r o r' ho href hnull
    obtain ⟨ho', hreach⟩ := hback r o ho
    exact hkeeps r' (.next hreach ⟨hnull, o, ho', href⟩)
  · intro r hr hnull
    exact hkeeps r (.root ⟨hnull, hroot r hr⟩)
  · intro r o ho
    obtain ⟨ho', hreach⟩ := hback r _ ho
    obtain ⟨hlt, struct_, hstruct, hfields⟩ := wf.instances r o ho'
    refine ⟨hlt, struct_, ?_, hfields⟩
    rw [hspec.kept, hstruct]
    refine .next hreach ⟨?_, _, ho', .instanceStruct⟩
    intro hnull
    rw [hnull, wf.null_free] at hstruct
    cases hstruct
  · refine hvalid.congr fun r hr => ?_
    unfold GC.hash GC.string?
    rw [hspec.kept r (hspec.hasKey_iff.mp hr).2]
  · intro r hr
    obtain ⟨hkey, hreach⟩ := hspec.hasKey_iff.mp hr
    obtain ⟨s, hs⟩ := wf.strings_alive r hkey
    exact ⟨s, by rw [hspec.kept r hreach, hs]⟩

/-- The collector is exact: it ends without reading a freed object, keeps exactly the objects the
roots lead to, and leaves in the intern table exactly the strings that survive; a string that is
being made while the collection runs is not in the table before. -/
theorem collectGarbage_exact {memory : Memory} (wf : memory.WellFormed)
    (open_ : memory.OpenUpvaluesLive) :
    ∃ memory', collectGarbage memory = some memory' ∧
      Collected memory.Reachable memory memory' ∧ memory'.WellFormed ∧
      (∀ r, memory'.gc.strings.HasKey r ↔
        memory.gc.strings.HasKey r ∧ ∃ s, memory'.gc.heap r = some (.string s)) ∧
      ((∀ r s, memory.gc.heap r = some (.string s) → memory.gc.strings.HasKey r) →
        ∀ r, memory'.gc.strings.HasKey r ↔ ∃ s, memory'.gc.heap r = some (.string s)) := by
  obtain ⟨memory', hcollect, hspec, -⟩ := collectGarbage_fields wf
  have hreach : memory.FieldReachable = memory.Reachable := by
    funext r
    exact propext (Memory.reachable_iff open_).symm
  have wf' := wf.collectGarbage hcollect
  rw [hreach] at hspec
  have hback : ∀ r s, memory'.gc.heap r = some (.string s) →
      memory.gc.heap r = some (.string s) ∧ memory.Reachable r := by
    intro r s hs
    by_cases hr : memory.Reachable r
    · rw [hspec.kept r hr] at hs
      exact ⟨hs, hr⟩
    · rw [hspec.freed r hr] at hs
      cases hs
  refine ⟨memory', hcollect, hspec, wf', fun r => ⟨fun hkey => ?_, ?_⟩, fun interned r => ⟨?_, ?_⟩⟩
  · exact ⟨(hspec.hasKey_iff.mp hkey).1, wf'.strings_alive r hkey⟩
  · rintro ⟨hkey, s, hs⟩
    exact hspec.hasKey_iff.mpr ⟨hkey, (hback r s hs).2⟩
  · exact wf'.strings_alive r
  · rintro ⟨s, hs⟩
    obtain ⟨hs', hr⟩ := hback r s hs
    exact hspec.hasKey_iff.mpr ⟨interned r s hs', hr⟩

/-- A memory is well formed when the references of its objects and its roots, looked at one by one,
lead to objects, and its instances to their structs. -/
theorem Memory.wellFormed_of_all {memory : Memory}
    (hsorted : memory.gc.objects.Pairwise (· > ·))
    (hlisted : ∀ r o, memory.gc.heap r = some o → r ∈ memory.gc.objects)
    (hthere : ∀ r ∈ memory.gc.objects, (memory.gc.heap r).isSome)
    (hlt : ∀ r ∈ memory.gc.objects, r < memory.gc.nextRef) (hpos : null < memory.gc.nextRef)
    (hnull : memory.gc.heap null = none) (hmarked : ∀ r, memory.gc.isMarked r = false)
    (hgray : memory.gc.grayStack = [])
    (hfields : ∀ r ∈ memory.gc.objects, (memory.gc.heap r).all fun o =>
      o.children.all fun r' => r' == null || (memory.gc.heap r').isSome)
    (hroots : ∀ r ∈ memory.rootRefs, r == null || (memory.gc.heap r).isSome)
    (hinstances : ∀ r ∈ memory.gc.objects, (memory.gc.heap r).all fun o =>
      o.instance?.all fun i => decide (i.struct_ < r) && (memory.gc.struct? i.struct_).any fun s =>
        i.fields.all fun fields => fields.length == s.fieldCount)
    (hvalid : memory.gc.strings.Valid memory.gc.hash)
    (hstrings : ∀ r, memory.gc.strings.HasKey r → ∃ s, memory.gc.heap r = some (.string s)) :
    memory.WellFormed := by
  have halive : ∀ r, (r == null || (memory.gc.heap r).isSome) = true → Alive memory.gc r := by
    intro r h hne
    rcases Bool.or_eq_true_iff.mp h with hzero | hsome
    · exact absurd (beq_iff_eq.mp hzero) hne
    · exact Option.ne_none_iff_isSome.mpr hsome
  refine ⟨hsorted, fun r => ⟨fun hr => ?_, fun hr => ?_⟩, hlt, hpos, hnull, hmarked, hgray,
    fun r o r' ho hrefers => ?_, fun r hr => ?_, fun r i hi => ?_, hvalid, hstrings⟩
  · exact Option.ne_none_iff_isSome.mpr (hthere r hr)
  · obtain ⟨o, ho⟩ := Option.ne_none_iff_exists'.mp hr
    exact hlisted r o ho
  · have hall := hfields r (hlisted r o ho)
    rw [ho] at hall
    exact halive r' (List.all_eq_true.mp hall r' (Obj.refers_iff.mp hrefers))
  · exact halive r (hroots r (mem_rootRefs.mpr hr))
  · have hall := hinstances r (hlisted r _ hi)
    rw [hi] at hall
    obtain ⟨hlt, hstruct⟩ := Bool.and_eq_true_iff.mp hall
    obtain ⟨s, hs, hcount⟩ := (Option.any_eq_true _ _).mp hstruct
    refine ⟨of_decide_eq_true hlt, s, GC.struct?_eq_some.mp hs, fun fields hfields => ?_⟩
    rw [hfields] at hcount
    exact beq_iff_eq.mp hcount

/-- The names of a struct and of its field, the struct, an instance that holds itself, and a string
that nothing refers to. -/
def nodeObjects : List Obj :=
  [.string { chars := [0x50, 0x6f, 0x69, 0x6e, 0x74], hash := 3936939825 },
    .string { chars := [0x79], hash := 4228665076 },
    .struct_ { name := 1
               fields := { count := 1, capacity := 8
                           entries := fun i => if i = 4 then .full 2 (.number .f64 0) else .empty }
               fieldCount := 1 },
    .instance_ { struct_ := 3, fields := some [.obj 4] },
    .string { chars := [0x6f, 0x6c, 0x64], hash := 3173751766 }]

/-- All three strings are interned, and only the instance is on the stack. -/
def nodeMemory : Memory where
  gc :=
    { heap := fun r => if r = 0 then none else nodeObjects[r - 1]?
      objects := [5, 4, 3, 2, 1]
      nextRef := 6
      strings := { count := 3, capacity := 8
                   entries := fun i =>
                     if i = 1 then .full 1 .nil else if i = 4 then .full 2 .nil
                     else if i = 6 then .full 5 .nil else .empty }
      policy := thresholdPolicy }
  stack := fun _ => .obj 4
  stackTop := 1

theorem nodeMemory_listed {r : Ref} {o : Obj} (h : nodeMemory.gc.heap r = some o) :
    r ∈ nodeMemory.gc.objects := by
  have h' : (if r = 0 then none else nodeObjects[r - 1]?) = some o := h
  by_cases hr : r = 0
  · rw [if_pos hr] at h'
    cases h'
  · rw [if_neg hr] at h'
    obtain ⟨hlt, -⟩ := List.getElem?_eq_some_iff.mp h'
    have hall : ∀ i < 5, i + 1 ∈ nodeMemory.gc.objects := by decide
    exact Nat.sub_one_add_one hr ▸ hall (r - 1) hlt

theorem nodeMemory_hasKey {r : Ref} : nodeMemory.gc.strings.HasKey r ↔ r ∈ [1, 2, 5] := by
  constructor
  · rintro ⟨value, p, hp, hentry⟩
    have hall : ∀ p < 8, ∀ r' ∈ entryRefs (nodeMemory.gc.strings.entries p), r' ∈ [1, 2, 5] := by
      decide
    exact hall p hp r (by rw [hentry]; exact List.mem_cons_self)
  · intro hr
    simp only [List.mem_cons, List.not_mem_nil, or_false] at hr
    rcases hr with rfl | rfl | rfl
    · exact ⟨.nil, 1, by decide, rfl⟩
    · exact ⟨.nil, 4, by decide, rfl⟩
    · exact ⟨.nil, 6, by decide, rfl⟩

theorem nodeMemory_wellFormed : nodeMemory.WellFormed := by
  refine Memory.wellFormed_of_all (by decide) (fun _ _ => nodeMemory_listed) (by decide)
    (by decide) (by decide) rfl (fun _ => rfl) rfl (by decide) (by decide) (by decide) ?_ ?_
  · refine Table.valid_of_home (fun p hp key value hentry => ?_) (by decide) (by decide)
    have hall : ∀ p < 8, ∀ r ∈ entryRefs (nodeMemory.gc.strings.entries p),
        nodeMemory.gc.hash r % 8 = p := by decide
    exact hall p hp key (by rw [hentry]; exact List.mem_cons_self)
  · intro r hr
    have hall : ∀ r ∈ [1, 2, 5], (nodeMemory.gc.string? r).isSome := by decide
    obtain ⟨s, hs⟩ := Option.isSome_iff_exists.mp (hall r (nodeMemory_hasKey.mp hr))
    exact ⟨s, GC.string?_eq_some.mp hs⟩

/-- From the instance its struct is reached, and from this both names. -/
theorem nodeMemory_reachable {r : Ref} : nodeMemory.Reachable r ↔ r ∈ [1, 2, 3, 4] := by
  constructor
  · intro hr
    induction hr with
    | root h =>
      have hroots : ∀ r ∈ nodeMemory.rootRefs, r ∈ [1, 2, 3, 4] := by decide
      exact hroots _ (Memory.mem_rootRefs.mpr h.2)
    | next _ h ih =>
      obtain ⟨hne, o, ho, hrefers | ⟨upvalue, slot, rfl, -⟩⟩ := h
      · have hchildren : ∀ r ∈ [1, 2, 3, 4], (nodeMemory.gc.heap r).all fun o =>
            o.children.all fun r' => r' == null || [1, 2, 3, 4].contains r' := by decide
        have hall := hchildren _ ih
        rw [ho] at hall
        have hr' := List.all_eq_true.mp hall _ (Obj.refers_iff.mp hrefers)
        rcases Bool.or_eq_true_iff.mp hr' with hzero | hmem
        · exact absurd (beq_iff_eq.mp hzero) hne
        · exact List.contains_iff_mem.mp hmem
      · have hnone : ∀ r ∈ nodeMemory.gc.objects, (nodeMemory.gc.upvalue? r).isNone := by decide
        have hupvalue := hnone _ (nodeMemory_listed ho)
        rw [GC.upvalue?, ho] at hupvalue
        cases hupvalue
  · have hinstance : nodeMemory.Reachable 4 :=
      .root ⟨by decide, .slot (i := 0) (by decide) (by decide) rfl⟩
    have hstruct : nodeMemory.Reachable 3 :=
      .next hinstance ⟨by decide, _, rfl, .inl .instanceStruct⟩
    intro hr
    simp only [List.mem_cons, List.not_mem_nil, or_false] at hr
    rcases hr with rfl | rfl | rfl | rfl
    · exact .next hstruct ⟨by decide, _, rfl, .inl .structName⟩
    · exact .next hstruct ⟨by decide, _, rfl, .inl (.fieldName ⟨4, by decide, rfl⟩)⟩
    · exact hstruct
    · exact hinstance

/-- The instance stays with its struct and their names, and the other string is freed and not
interned any more. -/
theorem collectGarbage_exact_instance : ∃ memory', collectGarbage nodeMemory = some memory' ∧
    (∀ r ∈ [1, 2, 3, 4], memory'.gc.heap r = nodeMemory.gc.heap r) ∧
    memory'.gc.heap 5 = none ∧ ∀ r, memory'.gc.strings.HasKey r ↔ r ∈ [1, 2] := by
  have hopen : nodeMemory.OpenUpvaluesLive := by
    intro r upvalue slot hr
    have hnone : ∀ r ∈ nodeMemory.gc.objects, (nodeMemory.gc.upvalue? r).isNone := by decide
    have hupvalue := hnone r (nodeMemory_listed hr)
    rw [GC.upvalue?, hr] at hupvalue
    cases hupvalue
  obtain ⟨memory', hcollect, hspec, -, hkeys, -⟩ :=
    collectGarbage_exact nodeMemory_wellFormed hopen
  have hkept : ∀ r ∈ [1, 2, 3, 4], memory'.gc.heap r = nodeMemory.gc.heap r :=
    fun r hr => hspec.kept r (nodeMemory_reachable.mpr hr)
  have hfreed : memory'.gc.heap 5 = none :=
    hspec.freed 5 fun h => absurd (nodeMemory_reachable.mp h) (by decide)
  refine ⟨memory', hcollect, hkept, hfreed, fun r => ?_⟩
  rw [hkeys, nodeMemory_hasKey]
  constructor
  · rintro ⟨hr, s, hs⟩
    simp only [List.mem_cons, List.not_mem_nil, or_false] at hr ⊢
    rcases hr with rfl | rfl | rfl
    · exact .inl rfl
    · exact .inr rfl
    · rw [hfreed] at hs
      cases hs
  · intro hr
    simp only [List.mem_cons, List.not_mem_nil, or_false] at hr
    rcases hr with rfl | rfl
    · exact ⟨by decide, _, hkept 1 (by decide)⟩
    · exact ⟨by decide, _, hkept 2 (by decide)⟩

end KirbyLang.Vm
