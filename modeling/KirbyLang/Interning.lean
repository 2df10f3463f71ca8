import KirbyLang.Spared

/-!
# Interning

Two live strings with the same bytes are the same object, whatever strings are made, however the
intern table grows, and whenever the collector runs.

* `Shrunk`: what an allocation may do to the memory, a collection in its midst or not;
* `Interned`: the strings of the heap are the keys of the intern table, and differ in their bytes;
* `copyString_spec`, `takeString_spec`: strings are made, of the bytes that are given;
* `StringState`: what is kept, the string made being the one there is, if there is one;
* `StringStep`: everything that may happen between two uses of the intern table.
-/

namespace KirbyLang.Vm

open Tracing

section

variable {memory memory' memory'' : Memory} {r : Ref} {chars : Bytes}

/-- A program whose first part succeeds goes on with the rest. -/
theorem Mem.bind_eq {α β : Type} {x : Mem α} {f : α → Mem β} {a : α}
    (h : x memory = some (a, memory')) : (x >>= f) memory = f a memory' := by
  show Option.bind (x memory) _ = _
  rw [h]
  rfl

/-! ### Allocating -/

theorem Memory.RootRef.congr (hstack : memory'.stack = memory.stack)
    (htop : memory'.stackTop = memory.stackTop) (hframes : memory'.frames = memory.frames)
    (hglobals : memory'.globals = memory.globals)
    (hopen : memory'.openUpvalues = memory.openUpvalues) :
    memory'.RootRef r ↔ memory.RootRef r := by
  rw [← Memory.mem_rootRefs, ← Memory.mem_rootRefs]
  unfold Memory.rootRefs
  rw [hstack, htop, hframes, hglobals, hopen]

/-- More roots and the same heap reach more. -/
theorem Memory.FieldReachable.mono (hroots : ∀ r, memory.RootRef r → memory'.RootRef r)
    (hheap : ∀ r o, memory.gc.heap r = some o → memory'.gc.heap r = some o)
    (h : memory.FieldReachable r) : memory'.FieldReachable r := by
  induction h with
  | root h => exact .root ⟨h.1, hroots _ h.2⟩
  | next _ h ih =>
    obtain ⟨hnull, o, ho, href⟩ := h
    exact .next ih ⟨hnull, o, hheap _ o ho, href⟩

/-- What an allocation does to the objects there were: a collection may free those that are not
reachable. -/
structure Shrunk (memory memory' : Memory) : Prop where
  stack : memory'.stack = memory.stack
  stackTop : memory'.stackTop = memory.stackTop
  frames : memory'.frames = memory.frames
  globals : memory'.globals = memory.globals
  openUpvalues : memory'.openUpvalues = memory.openUpvalues
  nextRef : memory'.gc.nextRef = memory.gc.nextRef
  kept : ∀ r, memory.FieldReachable r → memory'.gc.heap r = memory.gc.heap r
  sub : ∀ r o, memory'.gc.heap r = some o → memory.gc.heap r = some o

theorem Shrunk.rootRef_iff (h : Shrunk memory memory') : memory'.RootRef r ↔ memory.RootRef r :=
  Memory.RootRef.congr h.stack h.stackTop h.frames h.globals h.openUpvalues

/-- What was reachable still is. -/
theorem Shrunk.fieldReachable (h : Shrunk memory memory') (hr : memory.FieldReachable r) :
    memory'.FieldReachable r := by
  induction hr with
  | root hr => exact .root ⟨hr.1, h.rootRef_iff.mpr hr.2⟩
  | next hx hr ih =>
    obtain ⟨hnull, o, ho, href⟩ := hr
    exact .next ih ⟨hnull, o, by rw [h.kept _ hx, ho], href⟩

theorem Shrunk.trans (h : Shrunk memory memory') (h' : Shrunk memory' memory'') :
    Shrunk memory memory'' :=
  ⟨h'.stack.trans h.stack, h'.stackTop.trans h.stackTop, h'.frames.trans h.frames,
    h'.globals.trans h.globals, h'.openUpvalues.trans h.openUpvalues, h'.nextRef.trans h.nextRef,
    fun r hr => (h'.kept r (h.fieldReachable hr)).trans (h.kept r hr),
    fun r o ho => h.sub r o (h'.sub r o ho)⟩

/-- The accounting of a block leaves a memory well formed. -/
theorem Memory.WellFormed.account (wf : memory.WellFormed) (bytesAllocated : UInt64)
    (allocations : ℕ) :
    Memory.WellFormed { memory with gc := { memory.gc with bytesAllocated, allocations } } := by
  refine ⟨wf.objects_sorted, wf.mem_objects, wf.objects_lt, wf.nextRef_pos, wf.null_free, wf.unmarked,
    wf.no_gray, wf.fields_alive, fun r hr => ?_, wf.instances, wf.strings_valid, wf.strings_alive⟩
  have hiff : Memory.RootRef { memory with gc := { memory.gc with bytesAllocated, allocations } } r ↔
      memory.RootRef r := Memory.RootRef.congr rfl rfl rfl rfl rfl
  exact wf.roots_alive r (hiff.mp hr)

/-- An allocation succeeds, and keeps what is reachable. -/
theorem reallocate_spec (wf : memory.WellFormed) (oldSize newSize : ℕ) :
    ∃ memory', reallocate oldSize newSize memory = some ((), memory') ∧ memory'.WellFormed ∧
      Shrunk memory memory' ∧ StringsShrunk memory memory' := by
  have hsame : ∀ bytesAllocated allocations,
      let memory' := { memory with gc := { memory.gc with bytesAllocated, allocations } }
      memory'.WellFormed ∧ Shrunk memory memory' ∧ StringsShrunk memory memory' := by
    intro bytesAllocated allocations
    refine ⟨wf.account _ _, ⟨rfl, rfl, rfl, rfl, rfl, rfl, fun _ _ => rfl, fun _ _ ho => ho⟩,
      ⟨fun r value => ⟨fun h => ⟨h, ?_⟩, fun h => h.1⟩, rfl, rfl⟩⟩
    obtain ⟨s, hs⟩ := wf.strings_alive r ⟨value, h⟩
    show memory.gc.heap r ≠ none
    rw [hs]
    simp
  unfold reallocate
  by_cases hgrow : oldSize < newSize
  · simp only [hgrow, if_true]
    obtain ⟨wf₁, hshrunk, hstrings⟩ := hsame (memory.gc.account oldSize newSize).bytesAllocated
      (memory.gc.allocations + 1)
    split
    · obtain ⟨memory', hcollect, hspec, -⟩ := collectGarbage_fields wf₁
      refine ⟨memory', ?_, wf₁.collectGarbage hcollect, hshrunk.trans ?_, ?_⟩
      · show Option.bind (collectGarbage _) _ = _
        simp only [GC.account] at hcollect ⊢
        rw [hcollect]
        rfl
      · refine ⟨?_, ?_, ?_, ?_, ?_, hspec.nextRef, hspec.kept, fun r o ho => ?_⟩
        · rw [hspec.rest]
        · rw [hspec.rest]
        · rw [hspec.rest]
        · rw [hspec.rest]
        · rw [hspec.rest]
        · by_contra hne
          have hfree := hspec.freed r fun hr => hne (by rw [← hspec.kept r hr]; exact ho)
          rw [hfree] at ho
          cases ho
      · refine ⟨fun r value => ?_, hspec.strings_count, hspec.strings_capacity⟩
        rw [hspec.strings]
        refine and_congr_right fun hmaps => ⟨fun hr => ?_, fun hr => ?_⟩
        · rw [hspec.kept r hr]
          exact (wf₁.alive hr).2
        · by_contra hnot
          exact hr (hspec.freed r hnot)
    · exact ⟨_, rfl, wf₁, hshrunk, hstrings⟩
  · simp only [hgrow, if_false]
    obtain ⟨wf₁, hshrunk, hstrings⟩ := hsame (memory.gc.account oldSize newSize).bytesAllocated
      memory.gc.allocations
    exact ⟨_, rfl, wf₁, hshrunk, hstrings⟩

/-! ### A new object -/

namespace Memory

theorem WellFormed.nextRef_free (wf : memory.WellFormed) :
    memory.gc.heap memory.gc.nextRef = none := by
  by_contra halive
  exact Nat.lt_irrefl _ (wf.objects_lt _ ((wf.mem_objects _).mpr halive))

theorem WellFormed.ne_nextRef (wf : memory.WellFormed) (hr : memory.gc.heap r ≠ none) :
    r ≠ memory.gc.nextRef := by
  rintro rfl
  exact hr wf.nextRef_free

/-- A new object whose fields refer to objects that are there. -/
theorem WellFormed.link (wf : memory.WellFormed) {o : Obj}
    (hrefs : ∀ r, o.Refers r → Alive memory.gc r)
    (hinstance : ∀ instance_, o = .instance_ instance_ → ∃ struct_,
      memory.gc.heap instance_.struct_ = some (.struct_ struct_) ∧
        ∀ fields, instance_.fields = some fields → fields.length = struct_.fieldCount) :
    WellFormed { memory with gc := memory.gc.link o } := by
  have hheap : ∀ r, r ≠ memory.gc.nextRef → (memory.gc.link o).heap r = memory.gc.heap r := by
    intro r hr
    simp [GC.link, hr]
  have hnew : (memory.gc.link o).heap memory.gc.nextRef = some o := by simp [GC.link]
  have hkeep : ∀ r o', memory.gc.heap r = some o' → (memory.gc.link o).heap r = some o' := by
    intro r o' ho'
    rw [hheap r (wf.ne_nextRef (by rw [ho']; simp)), ho']
  have halive : ∀ r, Alive memory.gc r → Alive (memory.gc.link o) r := by
    intro r hr hnull
    obtain ⟨o', ho'⟩ := Option.ne_none_iff_exists'.mp (hr hnull)
    rw [hkeep r o' ho']
    simp
  have hroots : ∀ r, RootRef { memory with gc := memory.gc.link o } r ↔ memory.RootRef r :=
    fun r => RootRef.congr rfl rfl rfl rfl rfl
  constructor
  · refine List.pairwise_cons.mpr ⟨fun r hr => ?_, wf.objects_sorted⟩
    exact wf.objects_lt r hr
  · intro r
    show r ∈ memory.gc.nextRef :: memory.gc.objects ↔ _
    by_cases hr : r = memory.gc.nextRef
    · subst hr
      simp [hnew]
    · rw [hheap r hr, ← wf.mem_objects]
      simp [hr]
  · intro r hr
    rcases List.mem_cons.mp hr with rfl | hr
    · exact Nat.lt_succ_self _
    · exact Nat.lt_succ_of_lt (wf.objects_lt r hr)
  · exact Nat.succ_pos _
  · show (memory.gc.link o).heap null = none
    rw [hheap _ (Nat.ne_of_lt wf.nextRef_pos), wf.null_free]
  · intro r
    by_cases hr : r = memory.gc.nextRef
    · subst hr
      simp [GC.link]
    · simpa [GC.link, hr] using wf.unmarked r
  · exact wf.no_gray
  · intro r o' r' ho' href
    by_cases hr : r = memory.gc.nextRef
    · subst hr
      have heq : o = o' := by simpa [hnew] using ho'
      subst heq
      exact halive r' (hrefs r' href)
    · have ho'' : memory.gc.heap r = some o' := by rw [← hheap r hr]; exact ho'
      exact halive r' (wf.fields_alive r o' r' ho'' href)
  · intro r hr
    exact halive r (wf.roots_alive r ((hroots r).mp hr))
  · intro r instance_ ho'
    by_cases hr : r = memory.gc.nextRef
    · subst hr
      have heq : o = .instance_ instance_ := by simpa [hnew] using ho'
      obtain ⟨struct_, hstruct, hfields⟩ := hinstance instance_ heq
      refine ⟨?_, struct_, hkeep _ _ hstruct, hfields⟩
      exact wf.objects_lt _ ((wf.mem_objects _).mpr (by rw [hstruct]; simp))
    · have ho'' : memory.gc.heap r = some (.instance_ instance_) := by
        rw [← hheap r hr]
        exact ho'
      obtain ⟨hlt, struct_, hstruct, hfields⟩ := wf.instances r instance_ ho''
      exact ⟨hlt, struct_, hkeep _ _ hstruct, hfields⟩
  · refine wf.strings_valid.congr fun r hr => ?_
    obtain ⟨s, hs⟩ := wf.strings_alive r hr
    unfold GC.hash GC.string?
    rw [hheap r (wf.ne_nextRef (by rw [hs]; simp))]
  · intro r hr
    obtain ⟨s, hs⟩ := wf.strings_alive r hr
    exact ⟨s, hkeep r _ hs⟩

/-! ### The value stack -/

theorem RootRef.pushed {value : Value} (h : (memory.pushed value).RootRef r) :
    value = .obj r ∨ memory.RootRef r := by
  cases h with
  | @slot i _ h0 hlt hr =>
    have hlt' : i < memory.stackTop + 1 := hlt
    by_cases hi : i = memory.stackTop
    · subst hi
      exact .inl (by simpa [Memory.pushed] using hr)
    · exact .inr (.slot h0 (by omega) (by simpa [Memory.pushed, hi] using hr))
  | frame h => exact .inr (.frame h)
  | openUpvalue h => exact .inr (.openUpvalue h)
  | globalName h => exact .inr (.globalName h)
  | globalValue h => exact .inr (.globalValue h)

theorem RootRef.popped {count : ℤ} (hcount : 0 ≤ count) (h : (memory.popped count).RootRef r) :
    memory.RootRef r := by
  cases h with
  | @slot i _ h0 hlt hr =>
    have hlt' : i < memory.stackTop - count := hlt
    exact .slot h0 (by omega) hr
  | frame h => exact .frame h
  | openUpvalue h => exact .openUpvalue h
  | globalName h => exact .globalName h
  | globalValue h => exact .globalValue h

/-- A change of roots alone. -/
theorem WellFormed.roots (wf : memory.WellFormed) (hgc : memory'.gc = memory.gc)
    (hroots : ∀ r, memory'.RootRef r → Alive memory.gc r) : memory'.WellFormed := by
  constructor <;> rw [hgc]
  · exact wf.objects_sorted
  · exact wf.mem_objects
  · exact wf.objects_lt
  · exact wf.nextRef_pos
  · exact wf.null_free
  · exact wf.unmarked
  · exact wf.no_gray
  · exact wf.fields_alive
  · exact hroots
  · exact wf.instances
  · exact wf.strings_valid
  · exact wf.strings_alive

theorem WellFormed.pushed (wf : memory.WellFormed) {value : Value}
    (hvalue : ∀ r, value = .obj r → Alive memory.gc r) : (memory.pushed value).WellFormed := by
  refine wf.roots rfl fun r hr => ?_
  rcases hr.pushed with heq | hr
  · exact hvalue r heq
  · exact wf.roots_alive r hr

theorem WellFormed.popped (wf : memory.WellFormed) {count : ℤ} (hcount : 0 ≤ count) :
    (memory.popped count).WellFormed :=
  wf.roots rfl fun r hr => wf.roots_alive r (hr.popped hcount)

/-- Another intern table of live strings. -/
theorem WellFormed.setStrings (wf : memory.WellFormed) {table : Table Ref Value}
    (keys : KeysAlive { memory with gc := { memory.gc with strings := table } }) :
    WellFormed { memory with gc := { memory.gc with strings := table } } := by
  have hroots : ∀ r, RootRef { memory with gc := { memory.gc with strings := table } } r ↔
      memory.RootRef r := fun r => RootRef.congr rfl rfl rfl rfl rfl
  exact ⟨wf.objects_sorted, wf.mem_objects, wf.objects_lt, wf.nextRef_pos, wf.null_free,
    wf.unmarked, wf.no_gray, wf.fields_alive,
    fun r hr => wf.roots_alive r ((hroots r).mp hr), wf.instances, keys.valid, keys.alive⟩

end Memory

/-! ### The intern table grows -/

/-- The first half of `tableSet`, when the intern table has no room. -/
theorem Memory.KeysAlive.grow (keys : memory.KeysAlive) {capacity : ℕ}
    (hcap : memory.gc.strings.capacity ≤ growCapacity capacity) :
    ∃ table, memory.gc.strings.adjustCapacity memory.gc.hash (growCapacity capacity) = some table ∧
      Memory.KeysAlive { memory with gc := { memory.gc with strings := table } } ∧
      table.capacity = growCapacity capacity ∧ table.count ≤ memory.gc.strings.count ∧
      ∀ key value, table.Maps key value ↔ memory.gc.strings.Maps key value := by
  obtain ⟨table, hgrown, hvalid, hcapacity, hcount, hmaps⟩ := keys.valid.adjustCapacity hcap
  refine ⟨table, hgrown, ⟨hvalid, ?_⟩, hcapacity, hcount, hmaps⟩
  rintro key ⟨value, hvalue⟩
  exact keys.alive key ⟨value, (hmaps key value).mp hvalue⟩

/-- The second half of `tableSet`, when the intern table has room. -/
theorem Memory.KeysAlive.put (keys : memory.KeysAlive)
    (hgrown : memory.gc.strings.needsGrowth = false)
    (halive : ∃ s, memory.gc.heap r = some (.string s)) :
    ∃ table isNewKey, memory.gc.strings.put memory.gc.hash r .nil = some (table, isNewKey) ∧
      Memory.KeysAlive { memory with gc := { memory.gc with strings := table } } ∧
      memory.gc.strings.Stores table r .nil := by
  obtain ⟨table, isNewKey, hput, hvalid, -, hstores, -⟩ := keys.valid.put hgrown r Value.nil
  refine ⟨table, isNewKey, hput, ⟨hvalid, ?_⟩, hstores⟩
  rintro key ⟨value, hvalue⟩
  rw [hstores] at hvalue
  split at hvalue
  next heq => exact heq ▸ halive
  next => exact keys.alive key ⟨value, hvalue⟩

/-- A new string goes into the intern table. It is reachable, so a collection while the table grows
keeps it. -/
theorem tableSet_strings_spec (wf : memory.WellFormed) (hreach : memory.FieldReachable r)
    (halive : ∃ s, memory.gc.heap r = some (.string s)) :
    ∃ isNewKey memory', tableSet .strings r .nil memory = some (isNewKey, memory') ∧
      memory'.WellFormed ∧ Shrunk memory memory' := by
  have hstrings : ∀ (m : Memory) (table : Table Ref Value),
      Shrunk m { m with gc := { m.gc with strings := table } } :=
    fun _ _ => ⟨rfl, rfl, rfl, rfl, rfl, rfl, fun _ _ => rfl, fun _ _ ho => ho⟩
  by_cases hgrow : memory.gc.strings.needsGrowth = true
  · obtain ⟨m₁, hm₁, wf₁, hs₁, ht₁⟩ := reallocate_spec wf 0
      (sizeofEntry * growCapacity memory.gc.strings.capacity)
    have hcap : m₁.gc.strings.capacity ≤ growCapacity memory.gc.strings.capacity := by
      rw [ht₁.capacity]
      exact Table.le_growCapacity _
    obtain ⟨grown, hgrown, keys₂, hcapacity, hcount, -⟩ := wf₁.keysAlive.grow hcap
    let m₂ : Memory := { m₁ with gc := { m₁.gc with strings := grown } }
    have wf₂ : m₂.WellFormed := wf₁.setStrings keys₂
    obtain ⟨m₃, hm₃, wf₃, hs₃, ht₃⟩ := reallocate_spec wf₂
      (sizeofEntry * memory.gc.strings.capacity) 0
    have hs : Shrunk memory m₃ := (hs₁.trans (hstrings m₁ grown)).trans hs₃
    have hroom : m₃.gc.strings.needsGrowth = false := by
      refine wf₁.strings_valid.not_needsGrowth ?_ ?_
      · rw [ht₃.count]
        exact hcount
      · rw [ht₃.capacity, ht₁.capacity]
        exact hcapacity
    have halive₃ : ∃ s, m₃.gc.heap r = some (.string s) := by
      rw [hs.kept r hreach]
      exact halive
    obtain ⟨table, isNewKey, hput, keys₄, -⟩ := wf₃.keysAlive.put hroom halive₃
    refine ⟨isNewKey, { m₃ with gc := { m₃.gc with strings := table } }, ?_, wf₃.setStrings keys₄,
      hs.trans (hstrings m₃ table)⟩
    unfold tableSet
    refine (Mem.bind_eq rfl).trans ?_
    rw [if_pos hgrow]
    refine (Mem.bind_eq hm₁).trans ?_
    have hwrite : (fun memory' => do
        let table ← TablePlace.read memory' .strings
        let grown ← table.adjustCapacity memory'.gc.hash
          (growCapacity memory.gc.strings.capacity)
        let memory' ← TablePlace.write memory' grown .strings
        return ((), memory') : Mem Unit) m₁ = some ((), m₂) := by
      show (m₁.gc.strings.adjustCapacity m₁.gc.hash _).bind _ = _
      rw [hgrown]
      rfl
    refine (Mem.bind_eq hwrite).trans ?_
    refine (Mem.bind_eq hm₃).trans ?_
    show (m₃.gc.strings.put m₃.gc.hash r .nil).bind _ = _
    rw [hput]
    rfl
  · have hroom : memory.gc.strings.needsGrowth = false := by simpa using hgrow
    obtain ⟨table, isNewKey, hput, keys₁, -⟩ := wf.keysAlive.put hroom halive
    refine ⟨isNewKey, { memory with gc := { memory.gc with strings := table } }, ?_,
      wf.setStrings keys₁, hstrings memory table⟩
    unfold tableSet
    refine (Mem.bind_eq rfl).trans ?_
    rw [if_neg hgrow]
    show (memory.gc.strings.put memory.gc.hash r .nil).bind _ = _
    rw [hput]
    rfl

/-- The intern table with one more string, after what allocations have freed. -/
def StringAdded (memory memory' : Memory) (r : Ref) : Prop :=
  ∀ key value, memory'.gc.strings.Maps key value ↔
    if key = r then value = .nil else memory.gc.strings.Maps key value ∧ memory'.gc.heap key ≠ none

/-- The second half of `tableSet` puts a string into a table that allocations have spared. -/
theorem StringAdded.put {m : Memory} {isNewKey : Bool} (h : (do
      let table ← m.gc.strings.put m.gc.hash r .nil
      return (table.2, { m with gc := { m.gc with strings := table.1 } })) =
        some (isNewKey, memory')) (spared : Spared memory m) (keys : m.KeysAlive)
    (hmaps : ∀ key value, m.gc.strings.Maps key value ↔
      memory.gc.strings.Maps key value ∧ m.gc.heap key ≠ none)
    (hroom : m.gc.strings.needsGrowth = false)
    (halive : ∃ s, m.gc.heap r = some (.string s)) :
    Spared memory memory' ∧ memory'.KeysAlive ∧ StringAdded memory memory' r := by
  obtain ⟨table, _, hput, keys', hstores⟩ := keys.put hroom halive
  obtain ⟨_, hput', h⟩ := Option.bind_eq_some_iff.mp h
  rw [hput] at hput'
  cases hput'
  cases h
  refine ⟨spared.trans (.ofHeap spared.tidy rfl rfl rfl), keys', fun key value => ?_⟩
  rw [hstores key value]
  split
  · rfl
  · exact hmaps key value

/-- The same, whether all references of the memory lead to objects or not. -/
theorem tableSet_strings_done {isNewKey : Bool}
    (h : tableSet .strings r .nil memory = some (isNewKey, memory')) (tidy : memory.gc.Tidy)
    (keys : memory.KeysAlive) (hroot : r ∈ memory.rootRefs)
    (halive : ∃ s, memory.gc.heap r = some (.string s)) :
    Spared memory memory' ∧ memory'.KeysAlive ∧ StringAdded memory memory' r := by
  unfold tableSet at h
  obtain ⟨table, _, hread, h⟩ := Mem.bind_eq_some h
  cases hread
  split at h
  next hgrow =>
    obtain ⟨_, m₁, h₁, h⟩ := Mem.bind_eq_some h
    obtain ⟨_, m₂, h₂, h⟩ := Mem.bind_eq_some h
    obtain ⟨_, m₃, h₃, hput⟩ := Mem.bind_eq_some h
    -- A collection may run before the table is copied and after; the string is a root both times.
    obtain ⟨hs₁, hkeys₁⟩ := reallocate_spared h₁ tidy
    obtain ⟨keys₁, ht₁⟩ := hkeys₁ keys
    have hcap : m₁.gc.strings.capacity ≤ growCapacity memory.gc.strings.capacity := by
      rw [ht₁.capacity]
      exact Table.le_growCapacity _
    obtain ⟨grown, hgrown, keys₂, hcapacity, hcount, hmaps⟩ := keys₁.grow hcap
    have hwrite : some ((), { m₁ with gc := { m₁.gc with strings := grown } }) = some ((), m₂) := by
      rw [← h₂]
      show _ = (m₁.gc.strings.adjustCapacity m₁.gc.hash _).bind _
      rw [hgrown]
      rfl
    cases hwrite
    have hs₂ : Spared m₁ { m₁ with gc := { m₁.gc with strings := grown } } :=
      .ofHeap hs₁.tidy rfl rfl rfl
    obtain ⟨hs₃, hkeys₃⟩ := reallocate_spared h₃ hs₂.tidy
    obtain ⟨keys₃, ht₃⟩ := hkeys₃ keys₂
    have hs : Spared memory m₃ := (hs₁.trans hs₂).trans hs₃
    refine StringAdded.put (m := m₃) hput hs keys₃ (fun key value => ?_) ?_ ?_
    · rw [ht₃.maps_iff]
      show grown.Maps key value ∧ _ ↔ _
      rw [hmaps, ht₁.maps_iff, and_assoc]
      refine and_congr_right fun _ => ⟨fun h => h.2, fun h => ⟨?_, h⟩⟩
      obtain ⟨o, ho⟩ := Option.ne_none_iff_exists'.mp h
      rw [hs₃.sub key o ho]
      simp
    · refine keys₁.valid.not_needsGrowth ?_ ?_
      · rw [ht₃.count]
        exact hcount
      · rw [ht₃.capacity, ht₁.capacity]
        exact hcapacity
    · rw [hs.kept r hroot]
      exact halive
  next hgrow =>
    have hsame : Spared memory memory := .ofHeap tidy rfl rfl rfl
    refine StringAdded.put (m := memory) h hsame keys (fun key value => ⟨fun hkey => ⟨hkey, ?_⟩, fun h => h.1⟩)
      (by simpa using hgrow) halive
    obtain ⟨s, hs⟩ := keys.alive key ⟨value, hkey⟩
    rw [hs]
    simp

/-! ### Interned strings -/

/-- The strings of the heap are the keys of the intern table, and differ in their bytes. -/
structure Interned (memory : Memory) : Prop where
  keys : ∀ r s, memory.gc.heap r = some (.string s) → memory.gc.strings.HasKey r
  hash_eq : ∀ r s, memory.gc.heap r = some (.string s) → s.hash = hashBytes s.chars
  distinct : ∀ r r' s s', memory.gc.heap r = some (.string s) →
    memory.gc.heap r' = some (.string s') → s.chars = s'.chars → r = r'

theorem Interned.shrunk (h : Interned memory)
    (hsub : ∀ r o, memory'.gc.heap r = some o → memory.gc.heap r = some o)
    (ht : StringsShrunk memory memory') : Interned memory' := by
  constructor
  · intro r s hr
    obtain ⟨value, hvalue⟩ := h.keys r s (hsub r _ hr)
    exact ⟨value, (ht.maps_iff r value).mpr ⟨hvalue, by rw [hr]; simp⟩⟩
  · intro r s hr
    exact h.hash_eq r s (hsub r _ hr)
  · intro r r' s s' hr hr'
    exact h.distinct r r' s s' (hsub r _ hr) (hsub r' _ hr')

/-- The strings are those there were. -/
theorem Interned.congr (h : Interned memory) (hstrings : memory'.gc.strings = memory.gc.strings)
    (hheap : ∀ r s, memory'.gc.heap r = some (.string s) → memory.gc.heap r = some (.string s)) :
    Interned memory' := by
  constructor
  · intro r s hr
    rw [hstrings]
    exact h.keys r s (hheap r s hr)
  · intro r s hr
    exact h.hash_eq r s (hheap r s hr)
  · intro r r' s s' hr hr'
    exact h.distinct r r' s s' (hheap r s hr) (hheap r' s' hr')

/-- No string has these bytes. -/
def Absent (memory : Memory) (chars : Bytes) : Prop :=
  ∀ r s, memory.gc.heap r = some (.string s) → s.chars ≠ chars

theorem Absent.shrunk (h : Absent memory chars)
    (hsub : ∀ r o, memory'.gc.heap r = some o → memory.gc.heap r = some o) : Absent memory' chars :=
  fun r s hr => h r s (hsub r _ hr)

theorem hasText_iff {gc : GC} {hash : UInt32} {key : Ref} :
    gc.hasText chars hash key = true ↔ gc.heap key = some (.string { chars, hash }) := by
  unfold GC.hasText
  constructor
  · cases hs : gc.string? key with
    | none => simp
    | some s =>
      rw [GC.string?_eq_some] at hs
      simp only [Bool.and_eq_true, beq_iff_eq]
      rintro ⟨⟨-, rfl⟩, rfl⟩
      exact hs
  · intro hheap
    rw [GC.string?_eq_some.mpr hheap]
    simp

/-- The string with given bytes is found when there is one. -/
theorem findString_spec (keys : memory.KeysAlive) (chars : Bytes) :
    ∃ found, findString chars memory = some (found, memory) ∧
      (∀ r, found = some r →
        memory.gc.heap r = some (.string { chars, hash := hashBytes chars })) ∧
      (found = none → Interned memory → Absent memory chars) := by
  have hsame : ∀ key, memory.gc.strings.HasKey key →
      memory.gc.hasText chars (hashBytes chars) key = true →
      memory.gc.hash key = (hashBytes chars).toNat := by
    intro key _ htext
    unfold GC.hash
    rw [GC.string?_eq_some.mpr (hasText_iff.mp htext)]
  obtain ⟨found, hfound, hsome, hnone⟩ := keys.valid.tableFindString hsame
  refine ⟨found, ?_, fun r hr => hasText_iff.mp (hsome r hr).2, fun hno h r s hr hchars => ?_⟩
  · show (tableFindString _ _ _).bind _ = _
    rw [hfound]
    rfl
  · have htext : memory.gc.hasText chars (hashBytes chars) r = true := by
      rw [hasText_iff, hr, ← hchars, ← h.hash_eq r s hr]
    rw [hnone hno r (h.keys r s hr)] at htext
    cases htext

/-- What the making of a string does. -/
structure StringMade (chars : Bytes) (memory memory' : Memory) (r : Ref) : Prop where
  wf : memory'.WellFormed
  made : memory'.gc.heap r = some (.string { chars, hash := hashBytes chars })
  stack : ∀ i < memory.stackTop, memory'.stack i = memory.stack i
  stackTop : memory'.stackTop = memory.stackTop
  kept : ∀ x, memory.FieldReachable x → memory'.gc.heap x = memory.gc.heap x

/-- The string is on the stack while the intern table grows, so a collection keeps it. -/
theorem allocateString_spec (wf : memory.WellFormed) (hbase : 0 ≤ memory.stackTop)
    (chars : Bytes) :
    ∃ r memory', allocateString chars (hashBytes chars) memory = some (r, memory') ∧
      StringMade chars memory memory' r := by
  obtain ⟨o, ho⟩ : ∃ o, o = Obj.string { chars, hash := hashBytes chars } := ⟨_, rfl⟩
  obtain ⟨m₁, hm₁, wf₁, hs₁, -⟩ := reallocate_spec wf 0 o.sizeof
  let r : Ref := m₁.gc.nextRef
  let m₂ : Memory := { m₁ with gc := m₁.gc.link o }
  have wf₂ : m₂.WellFormed := by
    refine wf₁.link (fun x hx => ?_) (fun instance_ heq => ?_)
    · rw [ho] at hx
      cases hx
    · rw [ho] at heq
      cases heq
  have hnew : m₂.gc.heap r = some o := by simp [m₂, GC.link, r]
  have hold : ∀ x, x ≠ r → m₂.gc.heap x = m₁.gc.heap x := by
    intro x hx
    simp [m₂, GC.link, r, hx]
  have hrnull : r ≠ null := Nat.ne_of_gt wf₁.nextRef_pos
  let m₃ : Memory := m₂.pushed (.obj r)
  have wf₃ : m₃.WellFormed := by
    refine wf₂.pushed fun x hx hnull => ?_
    cases hx
    rw [hnew]
    simp
  have htop : m₂.stackTop = memory.stackTop := hs₁.stackTop
  have hreach₃ : m₃.FieldReachable r := by
    refine .root ⟨hrnull, .slot (i := m₂.stackTop) ?_ ?_ ?_⟩
    · rw [htop]
      exact hbase
    · show m₂.stackTop < m₂.stackTop + 1
      omega
    · simp [m₃, Memory.pushed]
  have hstring₃ : ∃ s, m₃.gc.heap r = some (.string s) := ⟨_, hnew.trans (congrArg some ho)⟩
  obtain ⟨isNewKey, m₄, hm₄, wf₄, hs₄⟩ := tableSet_strings_spec wf₃ hreach₃ hstring₃
  have hnew₄ : m₄.gc.heap r = some (.string { chars, hash := hashBytes chars }) := by
    rw [hs₄.kept r hreach₃, ← ho]
    exact hnew
  refine ⟨r, m₄.popped 1, ?_, wf₄.popped (by omega), hnew₄, fun i hi => ?_, ?_, fun x hx => ?_⟩
  · unfold allocateString
    have hallocate : allocateObject o memory = some (r, m₂) := by
      unfold allocateObject
      exact Mem.bind_eq hm₁
    rw [ho] at hallocate
    refine (Mem.bind_eq hallocate).trans ?_
    refine (Mem.bind_eq (show pushOnStack (.obj r) m₂ = some ((), m₃) from rfl)).trans ?_
    exact (Mem.bind_eq hm₄).trans rfl
  · show m₄.stack i = memory.stack i
    rw [hs₄.stack]
    have hi' : i ≠ m₂.stackTop := by
      rw [htop]
      omega
    show Function.update m₂.stack m₂.stackTop (.obj r) i = _
    rw [Function.update_of_ne hi']
    show m₁.stack i = _
    rw [hs₁.stack]
  · show m₄.stackTop - 1 = memory.stackTop
    rw [hs₄.stackTop, ← htop]
    show m₂.stackTop + 1 - 1 = m₂.stackTop
    omega
  · show m₄.gc.heap x = memory.gc.heap x
    have hx₁ := hs₁.fieldReachable hx
    have hxr : x ≠ r := wf₁.ne_nextRef (wf₁.alive hx₁).2
    have hroots : ∀ y, m₁.RootRef y → m₃.RootRef y := by
      intro y hy
      cases hy with
      | @slot i _ h0 hlt hy =>
        refine .slot h0 (show i < m₁.stackTop + 1 by omega) ?_
        show Function.update m₁.stack m₁.stackTop (.obj r) i = _
        rw [Function.update_of_ne (by omega), hy]
      | frame hy => exact .frame hy
      | openUpvalue hy => exact .openUpvalue hy
      | globalName hy => exact .globalName hy
      | globalValue hy => exact .globalValue hy
    have hheap : ∀ y o', m₁.gc.heap y = some o' → m₃.gc.heap y = some o' := by
      intro y o' ho'
      show m₂.gc.heap y = some o'
      rw [hold y (wf₁.ne_nextRef (by rw [ho']; simp)), ho']
    have hx₃ : m₃.FieldReachable x := Memory.FieldReachable.mono hroots hheap hx₁
    rw [hs₄.kept x hx₃]
    show m₂.gc.heap x = _
    rw [hold x hxr, hs₁.kept x hx]

/-- A string made after an allocation. -/
theorem StringMade.after (hs : Shrunk memory memory') (h : StringMade chars memory' memory'' r) :
    StringMade chars memory memory'' r := by
  refine ⟨h.wf, h.made, fun i hi => ?_, h.stackTop.trans hs.stackTop, fun x hx => ?_⟩
  · rw [h.stack i (by rw [hs.stackTop]; exact hi), hs.stack]
  · rw [h.kept x (hs.fieldReachable hx), hs.kept x hx]

theorem copyString_spec (wf : memory.WellFormed) (hbase : 0 ≤ memory.stackTop) (chars : Bytes) :
    ∃ r memory', copyString chars memory = some (r, memory') ∧
      StringMade chars memory memory' r := by
  obtain ⟨found, hfound, hsome, -⟩ := findString_spec wf.keysAlive chars
  unfold copyString
  cases hcase : found with
  | some r =>
    rw [hcase] at hfound
    exact ⟨r, memory, Mem.bind_eq hfound, wf, hsome r hcase, fun _ _ => rfl, rfl, fun _ _ => rfl⟩
  | none =>
    rw [hcase] at hfound
    obtain ⟨m₁, hm₁, wf₁, hs₁, -⟩ := reallocate_spec wf 0 (chars.length + 1)
    obtain ⟨r, m₂, hm₂, hmade⟩ :=
      allocateString_spec wf₁ (by rw [hs₁.stackTop]; exact hbase) chars
    refine ⟨r, m₂, ?_, hmade.after hs₁⟩
    refine (Mem.bind_eq hfound).trans ?_
    exact (Mem.bind_eq hm₁).trans hm₂

theorem takeString_spec (wf : memory.WellFormed) (hbase : 0 ≤ memory.stackTop) (chars : Bytes) :
    ∃ r memory', takeString chars memory = some (r, memory') ∧
      StringMade chars memory memory' r := by
  obtain ⟨found, hfound, hsome, -⟩ := findString_spec wf.keysAlive chars
  unfold takeString
  cases hcase : found with
  | some r =>
    rw [hcase] at hfound
    -- The buffer is given back, which makes no collection.
    refine ⟨r, { memory with gc := memory.gc.account (chars.length + 1) 0 }, ?_, ?_⟩
    · refine (Mem.bind_eq hfound).trans ?_
      refine (Mem.bind_eq (a := ()) ?_).trans rfl
      unfold reallocate
      rw [if_neg (by omega)]
      rfl
    · exact ⟨wf.account _ _, hsome r hcase, fun _ _ => rfl, rfl, fun _ _ => rfl⟩
  | none =>
    rw [hcase] at hfound
    obtain ⟨r, m₁, hm₁, hmade⟩ := allocateString_spec wf hbase chars
    exact ⟨r, m₁, (Mem.bind_eq hfound).trans hm₁, hmade⟩

/-! ### What stays interned -/

/-- What the making of strings keeps, whether all references of the memory lead to objects or not. -/
structure StringState (memory : Memory) : Prop where
  tidy : memory.gc.Tidy
  keys : memory.KeysAlive
  interned : Interned memory
  base : 0 ≤ memory.stackTop

theorem StringState.reallocate {oldSize newSize : ℕ} {u : Unit} (h : StringState memory)
    (hrun : Vm.reallocate oldSize newSize memory = some (u, memory')) :
    StringState memory' ∧ Spared memory memory' := by
  obtain ⟨hs, hstrings⟩ := reallocate_spared hrun h.tidy
  obtain ⟨hkeys, ht⟩ := hstrings h.keys
  refine ⟨⟨hs.tidy, hkeys, h.interned.shrunk hs.sub ht, ?_⟩, hs⟩
  rw [hs.rest]
  exact h.base

/-- A string is added whose bytes no other string has. -/
theorem Interned.added (h : Interned memory) (habsent : Absent memory chars)
    (hadded : StringAdded memory' memory'' r) (hstrings : memory'.gc.strings = memory.gc.strings)
    (hback : ∀ x s, memory''.gc.heap x = some (.string s) →
      x = r ∧ s = { chars, hash := hashBytes chars } ∨
        memory.gc.heap x = some (.string s) ∧ x ≠ r) : Interned memory'' := by
  constructor
  · intro x s hx
    rcases hback x s hx with ⟨rfl, -⟩ | ⟨hold, hxr⟩
    · exact ⟨.nil, (hadded x .nil).mpr (by rw [if_pos rfl])⟩
    · obtain ⟨value, hvalue⟩ := h.keys x s hold
      refine ⟨value, (hadded x value).mpr ?_⟩
      rw [if_neg hxr, hstrings, hx]
      simp [hvalue]
  · intro x s hx
    rcases hback x s hx with ⟨-, rfl⟩ | ⟨hold, -⟩
    · rfl
    · exact h.hash_eq x s hold
  · intro x x' s s' hx hx' heq
    rcases hback x s hx with ⟨rfl, rfl⟩ | ⟨hold, hxr⟩ <;>
      rcases hback x' s' hx' with ⟨rfl, rfl⟩ | ⟨hold', hxr'⟩
    · rfl
    · exact absurd heq.symm (habsent x' s' hold')
    · exact absurd heq (habsent x s hold)
    · exact h.distinct x x' s s' hold hold' heq

/-- The string is on the stack while the intern table grows, so a collection keeps it. -/
theorem StringState.allocateString (h : StringState memory) (habsent : Absent memory chars)
    (hrun : Vm.allocateString chars (hashBytes chars) memory = some (r, memory')) :
    StringState memory' := by
  obtain ⟨string, m₂, h₂, hrun⟩ := Mem.bind_eq_some hrun
  obtain ⟨_, m₁, h₁, h₂⟩ := Mem.bind_eq_some h₂
  cases h₂
  obtain ⟨_, m₃, h₃, hrun⟩ := Mem.bind_eq_some hrun
  cases h₃
  obtain ⟨isNewKey, m₄, h₄, hrun⟩ := Mem.bind_eq_some hrun
  cases hrun
  obtain ⟨h₁', hs₁⟩ := h.reallocate h₁
  have habsent₁ := habsent.shrunk hs₁.sub
  let r : Ref := m₁.gc.nextRef
  let o : ObjString := { chars, hash := hashBytes chars }
  let m₃ : Memory := Memory.pushed { m₁ with gc := m₁.gc.link (.string o) } (.obj r)
  have hnew : m₃.gc.heap r = some (.string o) := Function.update_self ..
  have hold : ∀ x ≠ r, m₃.gc.heap x = m₁.gc.heap x := fun x hx => Function.update_of_ne hx _ _
  -- The address is new, so no key of the table is at it.
  have hfree : m₁.gc.heap r = none := h₁'.tidy.fresh (Nat.le_refl _)
  have hkeys : m₃.KeysAlive := by
    refine h₁'.keys.congr rfl fun x s hx => ?_
    rw [hold x ?_, hx]
    rintro rfl
    rw [hfree] at hx
    cases hx
  have hroot : r ∈ m₃.rootRefs := by
    refine Memory.mem_rootRefs.mpr (.slot (i := m₁.stackTop) h₁'.base ?_ ?_)
    · show m₁.stackTop < m₁.stackTop + 1
      omega
    · exact Function.update_self ..
  obtain ⟨hs₄, hkeys₄, hadded⟩ :=
    tableSet_strings_done h₄ (h₁'.tidy.link (.string o)) hkeys hroot ⟨o, hnew⟩
  -- A string after all this is the new one, or one there was before.
  have hback : ∀ x s, m₄.gc.heap x = some (.string s) →
      x = r ∧ s = o ∨ m₁.gc.heap x = some (.string s) ∧ x ≠ r := by
    intro x s hx
    have hx₃ := hs₄.sub x _ hx
    by_cases hxr : x = r
    · rw [hxr, hnew] at hx₃
      cases hx₃
      exact .inl ⟨hxr, rfl⟩
    · exact .inr ⟨(hold x hxr).symm.trans hx₃, hxr⟩
  have hinterned := h₁'.interned.added habsent₁ hadded rfl hback
  refine ⟨hs₄.tidy, hkeys₄.congr rfl fun _ _ hx => hx, hinterned.congr rfl fun _ _ hx => hx, ?_⟩
  show 0 ≤ m₄.stackTop - 1
  have htop : m₄.stackTop = m₁.stackTop + 1 := by
    rw [hs₄.rest]
    rfl
  have := h₁'.base
  omega

theorem StringState.copyString (h : StringState memory)
    (hrun : Vm.copyString chars memory = some (r, memory')) : StringState memory' := by
  obtain ⟨found, hfound, -, hnone⟩ := findString_spec h.keys chars
  unfold Vm.copyString at hrun
  rw [Mem.bind_eq hfound] at hrun
  cases found with
  | some r =>
    cases hrun
    exact h
  | none =>
    obtain ⟨_, m₁, h₁, hrun⟩ := Mem.bind_eq_some hrun
    obtain ⟨h₁', hs₁⟩ := h.reallocate h₁
    exact h₁'.allocateString ((hnone rfl h.interned).shrunk hs₁.sub) hrun

theorem StringState.takeString (h : StringState memory)
    (hrun : Vm.takeString chars memory = some (r, memory')) : StringState memory' := by
  obtain ⟨found, hfound, -, hnone⟩ := findString_spec h.keys chars
  unfold Vm.takeString at hrun
  rw [Mem.bind_eq hfound] at hrun
  cases found with
  | some r =>
    obtain ⟨_, m₁, h₁, hrun⟩ := Mem.bind_eq_some hrun
    cases hrun
    exact (h.reallocate h₁).1
  | none => exact h.allocateString (hnone rfl h.interned) hrun

theorem StringState.collectGarbage (h : StringState memory)
    (hrun : Vm.collectGarbage memory = some memory') : StringState memory' := by
  obtain ⟨isMarked, hswept⟩ := collectGarbage_swept hrun h.tidy
  have hs := hswept.spared h.tidy
  obtain ⟨hkeys, ht⟩ := hswept.strings_spared h.keys
  refine ⟨hs.tidy, hkeys, h.interned.shrunk hs.sub ht, ?_⟩
  rw [hs.rest]
  exact h.base

/-! ### Runs -/

/-- The memory before anything is allocated. -/
def Memory.initial (policy : ℕ → UInt64 → UInt64 → Bool) : Memory := { gc := { policy } }

/-- What may happen between two uses of the intern table: a string is made in either way, the
collector runs, or the program changes everything else: it moves values about, makes and changes
objects that are not strings, enters and leaves functions. -/
inductive StringStep : Memory → Memory → Prop
  | copyString {memory memory' : Memory} {chars : Bytes} {r : Ref} :
      Vm.copyString chars memory = some (r, memory') → StringStep memory memory'
  | takeString {memory memory' : Memory} {chars : Bytes} {r : Ref} :
      Vm.takeString chars memory = some (r, memory') → StringStep memory memory'
  | collectGarbage {memory memory' : Memory} :
      Vm.collectGarbage memory = some memory' → StringStep memory memory'
  | mutate {memory memory' : Memory} : 0 ≤ memory'.stackTop →
      memory'.gc.strings = memory.gc.strings →
      (memory.gc.Tidy → memory'.gc.Tidy ∧ ∀ r s,
        memory'.gc.heap r = some (.string s) ↔ memory.gc.heap r = some (.string s)) →
      StringStep memory memory'

def StringRun : Memory → Memory → Prop := Relation.ReflTransGen StringStep

theorem Memory.initial_wellFormed (policy : ℕ → UInt64 → UInt64 → Bool) :
    (Memory.initial policy).WellFormed := by
  constructor
  · exact List.Pairwise.nil
  · intro r
    simp [Memory.initial]
  · intro r hr
    cases hr
  · exact Nat.zero_lt_one
  · rfl
  · intro r
    rfl
  · rfl
  · intro r o r' ho
    cases ho
  · intro r hr
    cases hr with
    | slot h0 hlt => exact absurd hlt (not_lt.mpr h0)
    | frame h => cases h
    | openUpvalue h => cases h
    | globalName h => exact absurd h (Table.not_maps_empty 0)
    | globalValue h => exact absurd h (Table.not_maps_empty 0)
  · intro r o ho
    cases ho
  · exact Table.valid_empty _ 0
  · rintro r ⟨value, h⟩
    exact absurd h (Table.not_maps_empty 0)

theorem StringState.initial (policy : ℕ → UInt64 → UInt64 → Bool) :
    StringState (Memory.initial policy) := by
  have wf := Memory.initial_wellFormed policy
  refine ⟨wf.tidy, wf.keysAlive, ⟨?_, ?_, ?_⟩, Int.le_refl 0⟩
  · intro r s hr
    cases hr
  · intro r s hr
    cases hr
  · intro r r' s s' hr
    cases hr

theorem StringState.step (h : StringState memory) (hstep : StringStep memory memory') :
    StringState memory' := by
  cases hstep with
  | copyString hmade => exact h.copyString hmade
  | takeString hmade => exact h.takeString hmade
  | collectGarbage hcollect => exact h.collectGarbage hcollect
  | mutate hbase hstrings hmutate =>
    obtain ⟨tidy, hheap⟩ := hmutate h.tidy
    exact ⟨tidy, h.keys.congr hstrings fun r s => (hheap r s).mpr,
      h.interned.congr hstrings fun r s => (hheap r s).mp, hbase⟩

theorem StringState.run (h : StringState memory) (hrun : StringRun memory memory') :
    StringState memory' := by
  induction hrun with
  | refl => exact h
  | tail _ hstep ih => exact ih.step hstep

end

/-- In every state of every run, strings with the same bytes are one object: `valuesEqual` on two
strings says whether their bytes agree, and a table finds what is stored under an equal string. -/
theorem strings_interned {policy : ℕ → UInt64 → UInt64 → Bool} {memory : Memory}
    (hrun : StringRun (Memory.initial policy) memory) {r r' : Ref} {s s' : ObjString}
    (hr : memory.gc.heap r = some (.string s)) (hr' : memory.gc.heap r' = some (.string s')) :
    (s.chars = s'.chars → r = r') ∧
      (valuesEqual (.obj r) (.obj r') = true ↔ s.chars = s'.chars) ∧
      ∀ table : Table Ref Value, table.Valid memory.gc.hash → ∀ value, table.Maps r value →
        s.chars = s'.chars → tableGet memory.gc.hash table r' = some (some value) := by
  have hdistinct := ((StringState.initial policy).run hrun).interned.distinct r r' s s' hr hr'
  refine ⟨hdistinct, ⟨fun heq => ?_, fun heq => ?_⟩, fun table hvalid value hmaps heq => ?_⟩
  · have hsame : r = r' := by simpa [valuesEqual] using heq
    subst hsame
    rw [hr] at hr'
    cases hr'
    rfl
  · simp [valuesEqual, hdistinct heq]
  · obtain ⟨result, hget, hresult⟩ := hvalid.tableGet r'
    rw [hget, (hresult value).mpr (hdistinct heq ▸ hmaps)]

/-- A string is made in the two ways, under a collector that runs at every allocation; between them
it is pushed on the stack. -/
theorem strings_interned_twice : ∃ memory r r',
    StringRun (Memory.initial stressPolicy) memory ∧
      memory.gc.heap r = some (.string ⟨[104, 105], hashBytes [104, 105]⟩) ∧
      memory.gc.heap r' = some (.string ⟨[104, 105], hashBytes [104, 105]⟩) ∧
      valuesEqual (.obj r) (.obj r') = true := by
  have h := StringState.initial stressPolicy
  obtain ⟨r, m, hm, hspec⟩ :=
    copyString_spec (Memory.initial_wellFormed stressPolicy) h.base [104, 105]
  have hbase : 0 ≤ m.stackTop := by
    rw [hspec.stackTop]
    exact h.base
  have halive : m.gc.heap r ≠ none := by
    rw [hspec.made]
    simp
  have wf : (m.pushed (.obj r)).WellFormed := by
    refine hspec.wf.pushed fun x hx _ => ?_
    cases hx
    exact halive
  have hpush : StringStep m (m.pushed (.obj r)) := by
    refine .mutate ?_ rfl fun _ => ⟨wf.tidy, fun _ _ => Iff.rfl⟩
    show 0 ≤ m.stackTop + 1
    omega
  have hrun := (Relation.ReflTransGen.single (.copyString hm)).tail hpush
  obtain ⟨r', m', hm', hspec'⟩ := takeString_spec wf (h.run hrun).base [104, 105]
  have hreach : (m.pushed (.obj r)).FieldReachable r := by
    refine .root ⟨fun hnull => halive (hnull ▸ hspec.wf.null_free), .slot hbase ?_ ?_⟩
    · show m.stackTop < m.stackTop + 1
      omega
    · simp [Memory.pushed]
  have hkept : m'.gc.heap r = some (.string ⟨[104, 105], hashBytes [104, 105]⟩) := by
    rw [hspec'.kept r hreach]
    exact hspec.made
  have hrun' := hrun.tail (.takeString hm')
  exact ⟨m', r, r', hrun', hkept, hspec'.made,
    (strings_interned hrun' hkept hspec'.made).2.1.mpr rfl⟩

end KirbyLang.Vm
