import KirbyLang.Evolution

/-!
# Collections that succeed

What a collection that reads no freed object does to a memory, whether all its references lead to
objects or not: what the roots name is kept, and what is freed leaves the intern table.

* `GC.Tidy`: the collector's list and the addresses;
* `Swept`: a collection, by what has been marked;
* `Spared`: what an allocation leaves alone; `StringsShrunk`: what it does to the intern table.
-/

namespace KirbyLang.Vm

variable {memory memory' memory'' : Memory} {gc gc' : GC} {r : Ref}

/-- The collector's list has every object once, and no address is given twice. -/
structure GC.Tidy (gc : GC) : Prop where
  nodup : gc.objects.Nodup
  listed : ∀ r, gc.heap r ≠ none → r ∈ gc.objects
  objects_lt : ∀ r ∈ gc.objects, r < gc.nextRef
  null_free : gc.heap null = none
  nextRef_pos : null < gc.nextRef

theorem GC.Tidy.fresh (h : gc.Tidy) (hr : gc.nextRef ≤ r) : gc.heap r = none := by
  by_contra halive
  exact Nat.not_lt_of_le hr (h.objects_lt r (h.listed r halive))

theorem Memory.WellFormed.tidy (wf : memory.WellFormed) : memory.gc.Tidy :=
  ⟨wf.nodup, fun r => (wf.mem_objects r).mpr, wf.objects_lt, wf.null_free, wf.nextRef_pos⟩

/-- Fewer objects on a shorter list. -/
theorem GC.Tidy.sub (h : gc.Tidy) (hobjects : gc'.objects.Sublist gc.objects)
    (hlisted : ∀ r, gc'.heap r ≠ none → r ∈ gc'.objects)
    (hnone : ∀ r, gc.heap r = none → gc'.heap r = none) (hnext : gc'.nextRef = gc.nextRef) :
    gc'.Tidy := by
  refine ⟨h.nodup.sublist hobjects, hlisted, fun r hr => ?_, hnone null h.null_free, ?_⟩
  · rw [hnext]
    exact h.objects_lt r (hobjects.subset hr)
  · rw [hnext]
    exact h.nextRef_pos

/-- Objects are changed, and the same are there. -/
theorem GC.Tidy.congr (h : gc.Tidy) (hobjects : gc'.objects = gc.objects)
    (hheap : ∀ r, gc'.heap r = none ↔ gc.heap r = none) (hnext : gc'.nextRef = gc.nextRef) :
    gc'.Tidy := by
  refine h.sub (hobjects ▸ List.Sublist.refl _) (fun r hr => ?_) (fun r => (hheap r).mpr) hnext
  rw [hobjects]
  exact h.listed r fun hnone => hr ((hheap r).mpr hnone)

theorem GC.Tidy.link (h : gc.Tidy) (o : Obj) : (gc.link o).Tidy := by
  have hother : ∀ r ≠ gc.nextRef, (gc.link o).heap r = gc.heap r :=
    fun r hne => Function.update_of_ne hne _ _
  refine ⟨List.nodup_cons.mpr ⟨fun hmem => ?_, h.nodup⟩, fun r hr => ?_, fun r hr => ?_, ?_,
    Nat.succ_pos _⟩
  · exact Nat.lt_irrefl _ (h.objects_lt _ hmem)
  · by_cases heq : r = gc.nextRef
    · exact heq ▸ List.mem_cons_self
    · exact List.mem_cons_of_mem _ (h.listed r (by rwa [hother r heq] at hr))
  · rcases List.mem_cons.mp hr with rfl | hr
    · exact Nat.lt_succ_self _
    · exact Nat.lt_succ_of_lt (h.objects_lt r hr)
  · rw [hother null (Nat.ne_of_lt h.nextRef_pos)]
    exact h.null_free

/-- An object is written over. -/
theorem GC.Tidy.setObj (h : memory.gc.Tidy) (hr : memory.gc.heap r ≠ none) (o : Obj) :
    (memory.setObj r o).gc.Tidy := by
  refine h.congr rfl (fun r' => ?_) rfl
  by_cases heq : r' = r
  · subst heq
    have hself : (memory.setObj r' o).gc.heap r' = some o := Function.update_self ..
    simp [hself, hr]
  · rw [show (memory.setObj r o).gc.heap r' = memory.gc.heap r' from Function.update_of_ne heq _ _]

/-! ### A collection -/

/-- Sweeping frees what is not marked, and keeps the rest in its order. -/
theorem sweepLoop_done {rest kept : List Ref} (h : sweepLoop kept rest gc = some gc')
    (hnodup : rest.Nodup) :
    gc'.objects = kept.reverse ++ rest.filter (fun r => gc.isMarked r) ∧
      (∀ r, gc'.heap r = if r ∈ rest ∧ gc.isMarked r = false then none else gc.heap r) ∧
      gc'.nextRef = gc.nextRef ∧ gc'.strings = gc.strings := by
  induction rest generalizing kept gc with
  | nil =>
    cases h
    exact ⟨by simp, by simp, rfl, rfl⟩
  | cons object rest ih =>
    obtain ⟨hobject, hnodup⟩ := List.nodup_cons.mp hnodup
    have hne : ∀ r ∈ rest, r ≠ object := fun r hr heq => hobject (heq ▸ hr)
    unfold sweepLoop at h
    obtain ⟨_, -, h⟩ := Option.bind_eq_some_iff.mp h
    split at h
    next hmarked =>
      obtain ⟨hobjects, hheap, hnext, hstrings⟩ := ih h hnodup
      -- The mark is taken off the object, which is not in the rest.
      have hmarks : ∀ r ∈ rest, Function.update gc.isMarked object false r = gc.isMarked r :=
        fun r hr => Function.update_of_ne (hne r hr) _ _
      refine ⟨?_, fun r => ?_, hnext, hstrings⟩
      · rw [hobjects, List.filter_congr hmarks]
        simp [hmarked]
      · rw [hheap]
        by_cases hr : r ∈ rest
        · simp [hr, hmarks r hr]
        · by_cases heq : r = object
          · simp [heq, hobject, hmarked]
          · simp [hr, heq]
    next hwhite =>
      obtain ⟨gc₁, h₁, h⟩ := Option.bind_eq_some_iff.mp h
      obtain ⟨o, -, h₁⟩ := Option.bind_eq_some_iff.mp h₁
      obtain ⟨owned, -, h₁⟩ := Option.bind_eq_some_iff.mp h₁
      cases h₁
      obtain ⟨hobjects, hheap, hnext, hstrings⟩ := ih h hnodup
      refine ⟨?_, fun r => ?_, hnext, hstrings⟩
      · rw [hobjects, List.filter_cons_of_neg hwhite]
        rfl
      · rw [hheap]
        by_cases heq : r = object
        · subst heq
          simp [hobject, hwhite]
        · have hother : Function.update gc.heap object none r = gc.heap r :=
            Function.update_of_ne heq _ _
          simp only [List.mem_cons, heq, false_or]
          rw [← hother]
          rfl

theorem collectGarbage_rest (h : collectGarbage memory = some memory') :
    memory' = { memory with gc := memory'.gc } := by
  obtain ⟨_, -, h⟩ := Option.bind_eq_some_iff.mp h
  obtain ⟨_, -, h⟩ := Option.bind_eq_some_iff.mp h
  obtain ⟨_, -, h⟩ := Option.bind_eq_some_iff.mp h
  obtain ⟨_, -, h⟩ := Option.bind_eq_some_iff.mp h
  cases h
  rfl

/-- A collection that has marked `isMarked`. -/
structure Swept (isMarked : Ref → Bool) (memory memory' : Memory) : Prop where
  rest : memory' = { memory with gc := memory'.gc }
  roots : ∀ r ∈ memory.rootRefs, r ≠ null → isMarked r = true
  objects : memory'.gc.objects = memory.gc.objects.filter fun r => isMarked r
  heap : ∀ r, memory'.gc.heap r = if isMarked r then memory.gc.heap r else none
  strings : tableRemoveWhite memory.gc.hash isMarked memory.gc.strings = some memory'.gc.strings
  nextRef : memory'.gc.nextRef = memory.gc.nextRef

theorem collectGarbage_swept (h : collectGarbage memory = some memory') (tidy : memory.gc.Tidy) :
    ∃ isMarked, Swept isMarked memory memory' := by
  obtain ⟨gc₁, h₁, h⟩ := Option.bind_eq_some_iff.mp h
  obtain ⟨gc₂, h₂, h⟩ := Option.bind_eq_some_iff.mp h
  obtain ⟨strings, hstrings, h⟩ := Option.bind_eq_some_iff.mp h
  obtain ⟨gc₃, h₃, h⟩ := Option.bind_eq_some_iff.mp h
  cases h
  rw [markVMRoots_eq] at h₁
  have hmarks : SameButMarks memory.gc gc₂ := (markAll_same h₁).trans (traceReferences_same h₂)
  have hhash : gc₂.hash = memory.gc.hash := by
    funext r
    unfold GC.hash GC.string?
    rw [hmarks.heap]
  have hnodup : gc₂.objects.Nodup := by
    rw [hmarks.objects]
    exact tidy.nodup
  obtain ⟨hobjects, hheap, hnext, htable⟩ := sweepLoop_done h₃ hnodup
  refine ⟨gc₂.isMarked, rfl, fun r hr hnull => ?_, ?_, fun r => ?_, ?_, hnext.trans hmarks.nextRef⟩
  · exact markStep_grows.traceReferences h₂ r (markAll_marks h₁ hr hnull)
  · show gc₃.objects = _
    rw [hobjects, ← hmarks.objects]
    rfl
  · -- What is not on the list is not swept, and is no object either.
    show gc₃.heap r = _
    rw [hheap, ← hmarks.heap]
    by_cases hmarked : gc₂.isMarked r = true
    · simp [hmarked]
    · have hwhite : gc₂.isMarked r = false := by simpa using hmarked
      rw [if_neg hmarked]
      by_cases hr : r ∈ gc₂.objects
      · exact if_pos ⟨hr, hwhite⟩
      · rw [if_neg fun hand => hr hand.1]
        show gc₂.heap r = none
        by_contra halive
        rw [hmarks.heap] at halive
        exact hr (hmarks.objects ▸ tidy.listed r halive)
  · show tableRemoveWhite memory.gc.hash gc₂.isMarked memory.gc.strings = some gc₃.strings
    rw [htable, ← hhash, ← hmarks.strings]
    exact hstrings

/-! ### What an allocation leaves alone -/

/-- An allocation that succeeds, whatever it frees. -/
structure Spared (memory memory' : Memory) : Prop where
  rest : memory' = { memory with gc := memory'.gc }
  tidy : memory'.gc.Tidy
  nextRef : memory'.gc.nextRef = memory.gc.nextRef
  kept : ∀ r ∈ memory.rootRefs, memory'.gc.heap r = memory.gc.heap r
  sub : ∀ r o, memory'.gc.heap r = some o → memory.gc.heap r = some o

/-- A change of the collector's state that leaves the objects alone. -/
theorem Spared.ofHeap (tidy : memory.gc.Tidy) (hheap : gc.heap = memory.gc.heap)
    (hobjects : gc.objects = memory.gc.objects) (hnext : gc.nextRef = memory.gc.nextRef) :
    Spared memory { memory with gc } :=
  ⟨rfl, tidy.congr hobjects (fun _ => by rw [hheap]) hnext, hnext, fun r _ => congrFun hheap r,
    fun _ _ ho => hheap ▸ ho⟩

theorem Spared.rootRefs (h : Spared memory memory') : memory'.rootRefs = memory.rootRefs := by
  rw [h.rest]
  rfl

theorem Spared.trans (h : Spared memory memory') (h' : Spared memory' memory'') :
    Spared memory memory'' := by
  refine ⟨?_, h'.tidy, h'.nextRef.trans h.nextRef, fun r hr => ?_,
    fun r o ho => h.sub r o (h'.sub r o ho)⟩
  · rw [h'.rest, h.rest]
  · rw [h'.kept r (h.rootRefs ▸ hr), h.kept r hr]

theorem Swept.spared {isMarked : Ref → Bool} (h : Swept isMarked memory memory')
    (tidy : memory.gc.Tidy) : Spared memory memory' := by
  have hsub : ∀ r o, memory'.gc.heap r = some o →
      isMarked r = true ∧ memory.gc.heap r = some o := by
    intro r o ho
    rw [h.heap] at ho
    exact Option.ite_none_right_eq_some.mp ho
  have hnone : ∀ r, memory.gc.heap r = none → memory'.gc.heap r = none := by
    intro r hr
    rw [h.heap, hr, ite_self]
  refine ⟨h.rest, tidy.sub ?_ (fun r hr => ?_) hnone h.nextRef, h.nextRef, fun r hr => ?_,
    fun r o ho => (hsub r o ho).2⟩
  · rw [h.objects]
    exact List.filter_sublist
  · obtain ⟨o, ho⟩ := Option.ne_none_iff_exists'.mp hr
    obtain ⟨hmarked, ho⟩ := hsub r o ho
    rw [h.objects]
    exact List.mem_filter.mpr ⟨tidy.listed r (by simp [ho]), hmarked⟩
  · -- A root that is null is not marked; nothing is there before or after.
    by_cases hnull : r = null
    · rw [hnull, tidy.null_free, hnone null tidy.null_free]
    · rw [h.heap, if_pos (h.roots r hr hnull)]

/-- The keys of the intern table are live strings, and are found. -/
structure Memory.KeysAlive (memory : Memory) : Prop where
  valid : memory.gc.strings.Valid memory.gc.hash
  alive : ∀ r, memory.gc.strings.HasKey r → ∃ s, memory.gc.heap r = some (.string s)

theorem Memory.WellFormed.keysAlive (wf : memory.WellFormed) : memory.KeysAlive :=
  ⟨wf.strings_valid, wf.strings_alive⟩

/-- The same table, and all strings that there were. -/
theorem Memory.KeysAlive.congr (h : memory.KeysAlive)
    (hstrings : memory'.gc.strings = memory.gc.strings)
    (hheap : ∀ r s, memory.gc.heap r = some (.string s) → memory'.gc.heap r = some (.string s)) :
    memory'.KeysAlive := by
  refine ⟨?_, fun r hr => ?_⟩
  · rw [hstrings]
    refine h.valid.congr fun r hr => ?_
    obtain ⟨s, hs⟩ := h.alive r hr
    unfold GC.hash
    rw [GC.string?_eq_some.mpr hs, GC.string?_eq_some.mpr (hheap r s hs)]
  · rw [hstrings] at hr
    obtain ⟨s, hs⟩ := h.alive r hr
    exact ⟨s, hheap r s hs⟩

/-- The intern table loses no string but those that are freed. -/
structure StringsShrunk (memory memory' : Memory) : Prop where
  maps_iff : ∀ r value, memory'.gc.strings.Maps r value ↔
    memory.gc.strings.Maps r value ∧ memory'.gc.heap r ≠ none
  count : memory'.gc.strings.count = memory.gc.strings.count
  capacity : memory'.gc.strings.capacity = memory.gc.strings.capacity

theorem Swept.strings_spared {isMarked : Ref → Bool} (h : Swept isMarked memory memory')
    (keys : memory.KeysAlive) : memory'.KeysAlive ∧ StringsShrunk memory memory' := by
  obtain ⟨hremove, hvalid⟩ := keys.valid.tableRemoveWhite isMarked
  have htable : memory'.gc.strings = memory.gc.strings.whiten isMarked :=
    Option.some.inj (h.strings.symm.trans hremove)
  have hkey : ∀ r, memory'.gc.strings.HasKey r → memory.gc.strings.HasKey r ∧
      memory'.gc.heap r = memory.gc.heap r := by
    rintro r ⟨value, hmaps⟩
    rw [htable] at hmaps
    obtain ⟨hmaps, hmarked⟩ := Table.maps_whiten.mp hmaps
    exact ⟨⟨value, hmaps⟩, by rw [h.heap, if_pos hmarked]⟩
  refine ⟨⟨?_, fun r hr => ?_⟩, fun r value => ?_, ?_, ?_⟩
  · -- The hash is read from the strings, which those that are left still have.
    refine Table.Valid.congr (by rwa [htable]) fun r hr => ?_
    unfold GC.hash GC.string?
    rw [(hkey r hr).2]
  · obtain ⟨hr, hheap⟩ := hkey r hr
    rw [hheap]
    exact keys.alive r hr
  · rw [htable, Table.maps_whiten, h.heap]
    refine and_congr_right fun hmaps => ?_
    obtain ⟨s, hs⟩ := keys.alive r ⟨value, hmaps⟩
    simp [hs]
  · rw [htable]
    rfl
  · rw [htable]
    rfl

/-- The accounting of a block. -/
theorem account_strings_spared (keys : memory.KeysAlive) (bytesAllocated : UInt64)
    (allocations : ℕ) :
    let memory' := { memory with gc := { memory.gc with bytesAllocated, allocations } }
    memory'.KeysAlive ∧ StringsShrunk memory memory' := by
  refine ⟨⟨keys.valid, keys.alive⟩, fun r value => ⟨fun h => ⟨h, ?_⟩, fun h => h.1⟩, rfl, rfl⟩
  obtain ⟨s, hs⟩ := keys.alive r ⟨value, h⟩
  show memory.gc.heap r ≠ none
  simp [hs]

/-- What `reallocate` does when it succeeds. -/
theorem reallocate_cases {oldSize newSize : ℕ} {u : Unit}
    (h : reallocate oldSize newSize memory = some (u, memory')) :
    ∃ bytesAllocated allocations,
      let counted := { memory with gc := { memory.gc with bytesAllocated, allocations } }
      memory' = counted ∨ oldSize < newSize ∧ collectGarbage counted = some memory' := by
  unfold reallocate at h
  simp only at h
  split at h
  next hgrow =>
    split at h
    · obtain ⟨collected, hcollect, h⟩ := Option.bind_eq_some_iff.mp h
      cases h
      exact ⟨_, _, .inr ⟨hgrow, hcollect⟩⟩
    · cases h
      exact ⟨_, _, .inl rfl⟩
  next =>
    cases h
    exact ⟨_, memory.gc.allocations, .inl rfl⟩

theorem reallocate_spared {oldSize newSize : ℕ} {u : Unit}
    (h : reallocate oldSize newSize memory = some (u, memory')) (tidy : memory.gc.Tidy) :
    Spared memory memory' ∧
      (memory.KeysAlive → memory'.KeysAlive ∧ StringsShrunk memory memory') := by
  obtain ⟨bytesAllocated, allocations, rfl | ⟨-, hcollect⟩⟩ := reallocate_cases h
  · exact ⟨.ofHeap tidy rfl rfl rfl, fun keys => account_strings_spared keys _ _⟩
  · have hcounted : Spared memory
        { memory with gc := { memory.gc with bytesAllocated, allocations } } :=
      .ofHeap tidy rfl rfl rfl
    obtain ⟨isMarked, hswept⟩ := collectGarbage_swept hcollect hcounted.tidy
    refine ⟨hcounted.trans (hswept.spared hcounted.tidy), fun keys => ?_⟩
    obtain ⟨hkeys, hshrunk⟩ :=
      hswept.strings_spared (account_strings_spared keys bytesAllocated allocations).1
    exact ⟨hkeys, hshrunk.maps_iff, hshrunk.count, hshrunk.capacity⟩

end KirbyLang.Vm
