import KirbyLang.Lib.Laws
import KirbyLang.Machine
import KirbyLang.StringRuns

/-!
# What a program of the machine may do

The law that the interpreter obeys: a private member is used by its own struct only, a field that has
been declared `let` keeps its value, the upvalues that are open are on the list of open upvalues,
strings are made by `copyString` and `takeString` alone, and after `runtimeError` nothing happens any
more.

* `GC.Changes`: what becomes of structs and instances;
* `Memory.ListsOpen`, `VM.KeepsUpvalues`: what becomes of upvalues;
* `VM.Goes`, `VM.Fails`, `VM.Stops`: the parts of the law, `machineLaw`;
* `Reads`: programs that change nothing;
* `obeys_prog`: natives.

Two natives go on after an error, and four instructions capture variables or close upvalues. The law
has forms for them, as its `Latitude` says.
-/

namespace KirbyLang.Vm

open Laws

/-- No use of a private member by another struct, and no report unless reports are let through. -/
def Event.Allowed (reports : Bool) : Event → Prop
  | .report _ => reports = true
  | .access struct_ isPublic owner => isPublic = true ∨ owner = struct_
  | _ => True

theorem Event.IsStack.allowed {reports : Bool} {e : Event} (h : e.IsStack) : e.Allowed reports := by
  cases e <;> trivial

/-- A field of a struct that may be changed. -/
def GC.IsMutable (gc : GC) (struct_ : Ref) (slot : ℕ) : Prop :=
  ∃ o, gc.heap struct_ = some (.struct_ o) ∧ slot < o.fieldCount ∧ o.fieldMutable slot = true

/-- What becomes of the structs and instances there are: structs get more fields, and instances other
values in fields that may be changed. -/
structure GC.Changes (gc gc' : GC) : Prop where
  nextRef : gc.nextRef ≤ gc'.nextRef
  struct_ : ∀ r o', r < gc.nextRef → gc'.heap r = some (.struct_ o') →
    ∃ o, gc.heap r = some (.struct_ o) ∧ o.fieldCount ≤ o'.fieldCount ∧
      ∀ slot < o.fieldCount, o'.fieldPublic slot = o.fieldPublic slot ∧
        o'.fieldMutable slot = o.fieldMutable slot
  instance_ : ∀ r i', r < gc.nextRef → gc'.heap r = some (.instance_ i') →
    ∃ i, gc.heap r = some (.instance_ i) ∧ i'.struct_ = i.struct_ ∧
      ∀ values, i.fields = some values → ∃ values', i'.fields = some values' ∧
        values'.length = values.length ∧
        ∀ slot, ¬ gc.IsMutable i.struct_ slot → values'[slot]? = values[slot]?

section Changes

variable {gc gc' gc'' : GC}

theorem GC.Changes.refl (gc : GC) : gc.Changes gc :=
  ⟨Nat.le_refl _, fun _ o _ ho => ⟨o, ho, Nat.le_refl _, fun _ _ => ⟨rfl, rfl⟩⟩,
    fun _ i _ hi => ⟨i, hi, rfl, fun values hvalues => ⟨values, hvalues, rfl, fun _ _ => rfl⟩⟩⟩

/-- A field that may be changed later may be changed now, if it is there now. -/
theorem GC.Changes.isMutable (h : gc.Changes gc') {struct_ : Ref} {slot : ℕ}
    (hlt : struct_ < gc.nextRef) (hmutable : gc'.IsMutable struct_ slot) :
    gc.IsMutable struct_ slot ∨
      ∃ o, gc.heap struct_ = some (.struct_ o) ∧ o.fieldCount ≤ slot := by
  obtain ⟨o', ho', hslot, hmut⟩ := hmutable
  obtain ⟨o, ho, -, hsame⟩ := h.struct_ struct_ o' hlt ho'
  by_cases hold : slot < o.fieldCount
  · exact .inl ⟨o, ho, hold, (hsame slot hold).2 ▸ hmut⟩
  · exact .inr ⟨o, ho, Nat.le_of_not_lt hold⟩

theorem GC.Changes.trans (fits : gc.Fits) (h : gc.Changes gc') (h' : gc'.Changes gc'') :
    gc.Changes gc'' := by
  refine ⟨Nat.le_trans h.nextRef h'.nextRef, fun r o'' hlt ho'' => ?_, fun r i'' hlt hi'' => ?_⟩
  · obtain ⟨o', ho', hcount', hsame'⟩ := h'.struct_ r o'' (Nat.lt_of_lt_of_le hlt h.nextRef) ho''
    obtain ⟨o, ho, hcount, hsame⟩ := h.struct_ r o' hlt ho'
    refine ⟨o, ho, Nat.le_trans hcount hcount', fun slot hslot => ?_⟩
    obtain ⟨hpublic, hmutable⟩ := hsame slot hslot
    obtain ⟨hpublic', hmutable'⟩ := hsame' slot (Nat.lt_of_lt_of_le hslot hcount)
    exact ⟨hpublic'.trans hpublic, hmutable'.trans hmutable⟩
  · obtain ⟨i', hi', hstruct', hkeep'⟩ :=
      h'.instance_ r i'' (Nat.lt_of_lt_of_le hlt h.nextRef) hi''
    obtain ⟨i, hi, hstruct, hkeep⟩ := h.instance_ r i' hlt hi'
    refine ⟨i, hi, hstruct'.trans hstruct, fun values hvalues => ?_⟩
    obtain ⟨values', hvalues', hlength, hsame⟩ := hkeep values hvalues
    obtain ⟨values'', hvalues'', hlength', hsame'⟩ := hkeep' values' hvalues'
    refine ⟨values'', hvalues'', hlength'.trans hlength, fun slot himm => ?_⟩
    obtain ⟨hstructLt, hfit⟩ := fits.fields r i hi values hvalues
    by_cases hmut : gc'.IsMutable i'.struct_ slot
    · -- a field that has been added since has no value in an instance that was there before
      rcases h.isMutable (hstruct.symm ▸ hstructLt) hmut with hmut | ⟨o, ho, hle⟩
      · exact absurd (hstruct ▸ hmut) himm
      · have hout : values.length ≤ slot := Nat.le_trans (hfit o (hstruct ▸ ho)) hle
        rw [List.getElem?_eq_none hout,
          List.getElem?_eq_none (Nat.le_trans (Nat.le_of_eq (hlength'.trans hlength)) hout)]
    · exact (hsame' slot hmut).trans (hsame slot himm)

theorem Memory.Advances.changes {memory memory' : Memory} (h : memory.Advances memory') :
    memory.gc.Changes memory'.gc := by
  refine ⟨h.nextRef, fun r o' hlt ho' => ?_, fun r i' hlt hi' => ?_⟩
  · rcases h.heap r _ ho' with ⟨o, ho, hkept⟩ | ⟨hle, -⟩
    · cases hkept with
      | refl => exact ⟨o', ho, Nat.le_refl _, fun _ _ => ⟨rfl, rfl⟩⟩
      | struct_ _ hcount hpublic hmutable =>
        exact ⟨_, ho, Nat.le_of_eq hcount.symm, fun slot _ =>
          ⟨congrFun hpublic slot, congrFun hmutable slot⟩⟩
    · exact absurd hlt (Nat.not_lt_of_le hle)
  · rcases h.heap r _ hi' with ⟨o, ho, hkept⟩ | ⟨hle, -⟩
    · cases hkept
      exact ⟨i', ho, rfl, fun values hvalues => ⟨values, hvalues, rfl, fun _ _ => rfl⟩⟩
    · exact absurd hlt (Nat.not_lt_of_le hle)

end Changes

/-! ### Upvalues -/

/-- What a form of the law lets through: reports as events like others, and variables that are
captured and upvalues that are closed. -/
structure Latitude where
  reports : Bool
  upvalues : Bool

/-- The form for whole instructions, in which an error is the end. -/
abbrev Latitude.strict : Latitude := ⟨false, true⟩

/-- The form for natives that go on after an error. -/
abbrev Latitude.lax : Latitude := ⟨true, true⟩

/-- An error has been reported between two states. -/
def VM.Reports (vm vm' : VM) : Prop :=
  ∃ events message, vm'.trace = events ++ vm.trace ∧ .report message ∈ events

/-- The upvalues that are open are on the list, once, and those on the list are open. -/
structure Memory.ListsOpen (memory : Memory) : Prop where
  mem : ∀ r u, memory.gc.heap r = some (.upvalue u) → u.location ≠ .closed →
    r ∈ memory.openUpvalues
  isOpen : ∀ r ∈ memory.openUpvalues, ∀ u, memory.gc.heap r = some (.upvalue u) →
    u.location ≠ .closed
  nodup : memory.openUpvalues.Nodup
  lt : ∀ r ∈ memory.openUpvalues, r < memory.gc.nextRef

/-- What becomes of the upvalues: they stay where they are or are closed, and only new ones are
opened. As long as nothing is reported, the list stays that of the open ones. -/
structure VM.KeepsUpvalues (lax : Latitude) (vm vm' : VM) : Prop where
  nextRef : vm.gc.nextRef ≤ vm'.gc.nextRef
  heap : ∀ r u', vm'.gc.heap r = some (.upvalue u') →
    (∃ u, vm.gc.heap r = some (.upvalue u) ∧
      (u'.location = u.location ∨ lax.upvalues = true ∧ u'.location = .closed)) ∨
    lax.upvalues = true ∧ vm.gc.nextRef ≤ r
  openUpvalues : lax.upvalues = false → vm'.openUpvalues ⊆ vm.openUpvalues
  lists : ¬ vm.Reports vm' → vm.ListsOpen → vm'.ListsOpen

section Upvalues

variable {lax : Latitude} {vm vm' vm'' : VM}

/-- Nothing becomes of them. -/
theorem VM.KeepsUpvalues.of_heap (hnext : vm.gc.nextRef ≤ vm'.gc.nextRef)
    (hopen : vm'.openUpvalues = vm.openUpvalues)
    (hheap : ∀ r u', vm'.gc.heap r = some (.upvalue u') →
      ∃ u, vm.gc.heap r = some (.upvalue u) ∧ u'.location = u.location) :
    vm.KeepsUpvalues lax vm' := by
  refine ⟨hnext, fun r u' hu' => ?_, fun _ => hopen ▸ List.Subset.refl _, fun _ hlists => ?_⟩
  · obtain ⟨u, hu, hlocation⟩ := hheap r u' hu'
    exact .inl ⟨u, hu, .inl hlocation⟩
  · refine ⟨fun r u' hu' hclosed => ?_, fun r hr u' hu' => ?_, hopen ▸ hlists.nodup, fun r hr => ?_⟩
    · obtain ⟨u, hu, hlocation⟩ := hheap r u' hu'
      exact hopen ▸ hlists.mem r u hu (hlocation ▸ hclosed)
    · obtain ⟨u, hu, hlocation⟩ := hheap r u' hu'
      exact hlocation ▸ hlists.isOpen r (hopen ▸ hr) u hu
    · exact Nat.lt_of_lt_of_le (hlists.lt r (hopen ▸ hr)) hnext

theorem VM.KeepsUpvalues.trans (htrace : ∃ events, vm'.trace = events ++ vm.trace)
    (htrace' : ∃ events, vm''.trace = events ++ vm'.trace) (h : vm.KeepsUpvalues lax vm')
    (h' : vm'.KeepsUpvalues lax vm'') : vm.KeepsUpvalues lax vm'' := by
  refine ⟨Nat.le_trans h.nextRef h'.nextRef, fun r u'' hu'' => ?_,
    fun hlax r hr => h.openUpvalues hlax (h'.openUpvalues hlax hr), fun hreports hlists => ?_⟩
  · rcases h'.heap r u'' hu'' with ⟨u', hu', hlocation'⟩ | ⟨hlax, hle⟩
    · rcases h.heap r u' hu' with ⟨u, hu, hlocation⟩ | hnew
      · refine .inl ⟨u, hu, ?_⟩
        rcases hlocation' with hsame | hclosed
        · rcases hlocation with hsame' | ⟨hlax, hclosed⟩
          · exact .inl (hsame.trans hsame')
          · exact .inr ⟨hlax, hsame.trans hclosed⟩
        · exact .inr hclosed
      · exact .inr hnew
    · exact .inr ⟨hlax, Nat.le_trans h.nextRef hle⟩
  · obtain ⟨events, htrace⟩ := htrace
    obtain ⟨events', htrace'⟩ := htrace'
    refine h'.lists (fun ⟨newer, message, hnewer, hmem⟩ => hreports ?_)
      (h.lists (fun ⟨older, message, holder, hmem⟩ => hreports ?_) hlists)
    · refine ⟨newer ++ events, message, ?_, List.mem_append_left _ hmem⟩
      rw [hnewer, htrace, List.append_assoc]
    · refine ⟨events' ++ older, message, ?_, List.mem_append_right _ hmem⟩
      rw [htrace', holder, List.append_assoc]

/-- A report keeps the upvalues as they are, but takes them off the list. -/
theorem VM.KeepsUpvalues.afterError (vm : VM) (message : Bytes) :
    vm.KeepsUpvalues lax (vm.afterError message) :=
  ⟨Nat.le_refl _, fun _ u hu => .inl ⟨u, hu, .inl rfl⟩, fun _ => List.nil_subset _,
    fun hreports => absurd ⟨[.report message], message, rfl, List.mem_singleton_self _⟩ hreports⟩

end Upvalues

/-! ### The law -/

/-- From one place of a program to a later one. -/
structure VM.Goes (lax : Latitude) (vm vm' : VM) : Prop where
  trace : ∃ events, vm'.trace = events ++ vm.trace ∧ ∀ e ∈ events, e.Allowed lax.reports
  fits : vm.gc.Fits → vm'.gc.Fits
  changes : vm.gc.Fits → vm.gc.Changes vm'.gc
  upvalues : vm.KeepsUpvalues lax vm'
  strings : vm.toMemory.Interns vm'.toMemory

/-- An error has been reported, and nothing has happened since. -/
def VM.Fails (lax : Latitude) (vm vm' : VM) : Prop :=
  ∃ erring message, vm.Goes lax erring ∧ vm' = erring.afterError message

/-- The process has ended; after an error it has not ended by accident. -/
def VM.Stops (lax : Latitude) (stop : Stop) (vm vm' : VM) : Prop :=
  vm.Goes lax vm' ∨ (vm.Fails lax vm' ∧ stop ≠ .fault)

variable {lax : Latitude} {vm vm' vm'' : VM}

theorem VM.Goes.ofSame (htrace : vm'.trace = vm.trace) (hgc : vm'.gc = vm.gc)
    (hopen : vm'.openUpvalues = vm.openUpvalues) (htop : vm'.stackTop = vm.stackTop) :
    vm.Goes lax vm' :=
  ⟨⟨[], htrace, by simp⟩, fun h => hgc ▸ h, fun _ => hgc ▸ .refl _,
    .of_heap (Nat.le_of_eq (hgc ▸ rfl)) hopen fun _ u hu => ⟨u, hgc ▸ hu, rfl⟩,
    .ofSame (htrace ▸ List.suffix_refl _) (fun _ hbase => htop ▸ hbase) hgc⟩

theorem VM.Goes.refl (vm : VM) : vm.Goes lax vm := .ofSame rfl rfl rfl rfl

theorem VM.Goes.trans (h : vm.Goes lax vm') (h' : vm'.Goes lax vm'') : vm.Goes lax vm'' := by
  obtain ⟨events, htrace, hevents⟩ := h.trace
  obtain ⟨events', htrace', hevents'⟩ := h'.trace
  refine ⟨⟨events' ++ events, by rw [htrace', htrace, List.append_assoc], fun e he => ?_⟩,
    fun hfits => h'.fits (h.fits hfits), fun hfits => (h.changes hfits).trans hfits
      (h'.changes (h.fits hfits)), h.upvalues.trans ⟨events, htrace⟩ ⟨events', htrace'⟩ h'.upvalues,
    h.strings.trans h'.strings⟩
  rcases List.mem_append.mp he with he | he
  · exact hevents' e he
  · exact hevents e he

theorem VM.Goes.ofAdvances {memory : Memory} (h : vm.toMemory.Advances memory)
    (hstrings : vm.toMemory.Interns memory) : vm.Goes lax { vm with toMemory := memory } := by
  obtain ⟨events, htrace, hevents⟩ := h.trace
  refine ⟨⟨events, htrace, fun e he => (hevents e he).allowed⟩, h.fits, fun _ => h.changes,
    .of_heap h.nextRef h.openUpvalues fun r u' hu' => ?_, hstrings⟩
  rcases h.heap r _ hu' with ⟨o, ho, hkept⟩ | ⟨-, hother⟩
  · obtain ⟨u, rfl, hlocation⟩ := hkept.of_upvalue
    exact ⟨u, ho, hlocation⟩
  · exact absurd rfl (hother u')

theorem VM.Goes.logged {event : Event} (h : event.Allowed lax.reports) :
    vm.Goes lax (vm.logged event) :=
  ⟨⟨[event], rfl, by simpa using h⟩, id, fun _ => .refl _,
    .of_heap (Nat.le_refl _) rfl fun _ u hu => ⟨u, hu, rfl⟩,
    .ofSame (List.suffix_cons _ _) (fun _ hbase => hbase) rfl⟩

/-- A report is an event like others when reports are let through. -/
theorem VM.Goes.afterError (hlax : lax.reports = true) (vm : VM) (message : Bytes) :
    vm.Goes lax (vm.afterError message) :=
  ⟨⟨[.report message], rfl, by simpa [Event.Allowed] using hlax⟩, id, fun _ => .refl _,
    .afterError vm message, .ofSame (List.suffix_cons _ _) (fun _ _ => Int.le_refl 0) rfl⟩

/-- The law of the machine. -/
def machineLaw (lax : Latitude) : Law VM Stop where
  goes := VM.Goes lax
  fails := VM.Fails lax
  stops := VM.Stops lax
  refl := VM.Goes.refl
  trans := VM.Goes.trans
  trans_fails := fun h ⟨erring, message, h', heq⟩ => ⟨erring, message, h.trans h', heq⟩
  trans_stops := fun h h' => h'.elim (fun h' => .inl (h.trans h'))
    fun ⟨⟨erring, message, h', heq⟩, hstop⟩ => .inr ⟨⟨erring, message, h.trans h', heq⟩, hstop⟩

section Programs

variable {α β : Type} {failed : α → Prop}

/-- A program that changes nothing. -/
def Reads (p : M α) : Prop := ∀ vm, (p vm).2 = vm

theorem Reads.obeys {p : M α} (h : Reads p) : (machineLaw lax).Obeys never p := by
  intro vm
  rcases hp : p vm with ⟨e | a, vm'⟩
  · have heq : vm' = vm := by simpa [hp] using h vm
    exact obeysFrom_error hp (heq ▸ .inl (.refl _))
  · have heq : vm' = vm := by simpa [hp] using h vm
    exact obeysFrom_ok hp (fun hfalse => hfalse) (heq ▸ .refl _)

theorem Reads.bind {p : M α} {f : α → M β} (hp : Reads p) (hf : ∀ a, Reads (f a)) :
    Reads (p >>= f) := by
  intro vm
  rcases h : p vm with ⟨e | a, vm'⟩
  · rw [bind_error h]
    simpa [h] using hp vm
  · have heq : vm' = vm := by simpa [h] using hp vm
    rw [bind_ok h, heq]
    exact hf a vm

theorem reads_pure (a : α) : Reads (pure a) := fun _ => rfl

theorem reads_get {f : VM → M β} (hf : ∀ vm, Reads (f vm)) : Reads (get >>= f) :=
  fun vm => hf vm vm

theorem reads_fault : Reads (fault : M α) := fun _ => rfl

theorem reads_orFault (a : Option α) : Reads (orFault a) := by
  cases a <;> exact fun _ => rfl

theorem orFault_ok {a : α} {x : Option α} (h : orFault x vm = (.ok a, vm')) :
    x = some a ∧ vm' = vm := by
  cases x with
  | none => cases h
  | some b =>
    cases h
    exact ⟨rfl, rfl⟩

theorem Reads.ok {p : M α} {a : α} (hp : Reads p) (h : p vm = (.ok a, vm')) : vm' = vm := by
  simpa [h] using hp vm

theorem reads_deref (r : Ref) : Reads (deref r) := reads_get fun _ => reads_orFault _

theorem reads_structAt (r : Ref) : Reads (structAt r) := reads_get fun _ => reads_orFault _

theorem reads_closureAt (r : Ref) : Reads (closureAt r) := reads_get fun _ => reads_orFault _

theorem reads_functionOfClosure (r : Ref) : Reads (functionOfClosure r) :=
  (reads_closureAt r).bind fun _ => reads_get fun _ => reads_orFault _

theorem reads_instanceAt (r : Ref) : Reads (instanceAt r) := reads_get fun _ => reads_orFault _

theorem reads_stringAt (r : Ref) : Reads (stringAt r) := reads_get fun _ => reads_orFault _

theorem reads_upvalueAt (r : Ref) : Reads (upvalueAt r) := reads_get fun _ => reads_orFault _

theorem reads_objectOf (value : Value) : Reads (objectOf value) := by
  cases value with
  | obj r => exact (reads_deref r).bind fun _ => reads_pure _
  | _ => exact reads_pure _

theorem reads_asClosure (value : Value) : Reads (asClosure value) := by
  cases value with
  | obj r => exact (reads_closureAt r).bind fun _ => reads_pure _
  | _ => exact reads_fault

theorem reads_asStringRef (value : Value) : Reads (asStringRef value) := by
  cases value with
  | obj r => exact (reads_stringAt r).bind fun _ => reads_pure _
  | _ => exact reads_fault

theorem reads_textOf (r : Ref) : Reads (textOf r) :=
  (reads_stringAt r).bind fun _ => reads_pure _

theorem reads_lookup (table : Table Ref Value) (key : Ref) : Reads (lookup table key) :=
  reads_get fun _ => reads_orFault _

theorem reads_peekStack (distance : ℤ) : Reads (peekStack distance) :=
  reads_get fun _ => reads_pure _

theorem reads_printedText (libc : Libc) (toErr : Bool) (value : Value) :
    Reads (printedText libc toErr value) := reads_get fun _ => reads_orFault _

/-! ### Commands -/

theorem obeys_fault : (machineLaw lax).Obeys failed (fault : M α) :=
  fun _ => obeysFrom_throw (.inl (.refl _))

theorem obeys_exit (code : ℤ) : (machineLaw lax).Obeys failed (exit code : M α) :=
  fun _ => obeysFrom_throw (.inl (.refl _))

theorem obeys_liftMem {p : Mem α} (h : p.Advancing) (hstrings : p.Interning) :
    (machineLaw lax).Obeys never (liftMem p) := by
  intro vm
  rcases hp : p vm.toMemory with _ | ⟨a, memory⟩
  · have hrun : liftMem p vm = (.error .fault, vm) := by simp only [liftMem, hp]
    exact obeysFrom_error hrun (.inl (.refl _))
  · have hrun : liftMem p vm = (.ok a, { vm with toMemory := memory }) := by simp only [liftMem, hp]
    have hgoes : vm.Goes lax { vm with toMemory := memory } := .ofAdvances (h _ _ _ hp) (hstrings _ _ _ hp)
    exact obeysFrom_ok hrun (fun hfalse => hfalse) hgoes

theorem obeys_push (value : Value) : (machineLaw lax).Obeys never (push value) :=
  obeys_liftMem (Mem.advancing_push value) (Mem.interning_push value)

theorem obeys_pop : (machineLaw lax).Obeys never pop :=
  obeys_liftMem Mem.advancing_pop Mem.interning_pop

theorem obeys_popN (count : ℤ) : (machineLaw lax).Obeys never (popN count) := by
  refine obeys_liftMem (fun memory a memory' h => ?_) (Mem.interning_popN count)
  cases h
  exact .popped memory count

/-- A change that the heap, the trace, the open upvalues and the stack pointer do not see. -/
theorem obeys_modify {f : VM → VM} (htrace : ∀ vm, (f vm).trace = vm.trace)
    (hgc : ∀ vm, (f vm).gc = vm.gc) (hopen : ∀ vm, (f vm).openUpvalues = vm.openUpvalues)
    (htop : ∀ vm, (f vm).stackTop = vm.stackTop) :
    (machineLaw lax).Obeys never (modify f : M Unit) :=
  fun vm => obeysFrom_modify (.ofSame (htrace vm) (hgc vm) (hopen vm) (htop vm))

theorem obeys_setSlot (slot : ℤ) (value : Value) : (machineLaw lax).Obeys never (setSlot slot value) :=
  obeys_modify (fun _ => rfl) (fun _ => rfl) (fun _ => rfl) fun _ => rfl

theorem obeys_runtimeError (message : Bytes) :
    (machineLaw lax).Obeys (fun _ => True) (runtimeError message) := by
  intro vm
  exact ⟨fun _ => ⟨vm, message, .refl vm, rfl⟩, fun h => absurd trivial h⟩

theorem obeys_refuse (message : Bytes) :
    (machineLaw lax).Obeys (fun b => b = false) (refuse message) :=
  (obeys_runtimeError message).bind_failed (fun _ _ => ⟨false, rfl, rfl⟩)
    fun _ h => absurd trivial h

theorem obeys_die (message : Bytes) : (machineLaw lax).Obeys failed (die message : M α) := by
  intro vm
  exact obeysFrom_error rfl (.inr ⟨⟨vm, message, .refl vm, rfl⟩, by simp⟩)

/-! ### Natives -/

/-- A change that only the world sees. -/
theorem obeys_outside (libc : Libc) {goesOn : Bool} (f : World → α × World) :
    (machineLaw lax).Obeys never ((.outside f : Prog goesOn α).run libc) := by
  intro vm
  exact obeysFrom_ok rfl (fun hfalse => hfalse) (VM.Goes.ofSame rfl rfl rfl rfl)

/-- A native that ends the process when it reports an error obeys the law. -/
theorem obeys_prog (libc : Libc) {goesOn : Bool} (p : Prog goesOn α)
    (h : goesOn = true → lax.reports = true) :
    (machineLaw lax).Obeys never (p.run libc) := by
  induction p with
  | pure a => exact obeys_pure fun hfalse => hfalse
  | bind p f ihp ihf => exact ihp.bind ihf
  | load object => exact (reads_deref object).obeys
  | takeString chars =>
    exact obeys_liftMem (Mem.evolving_takeString chars).advancing (Mem.interning_takeString chars)
  | copyString chars =>
    exact obeys_liftMem (Mem.evolving_copyString chars).advancing (Mem.interning_copyString chars)
  | reallocate oldSize newSize =>
    exact obeys_liftMem (@Mem.evolving_reallocate 0 oldSize newSize).advancing
      (Mem.interning_reallocate oldSize newSize)
  | newList => exact obeys_liftMem (@Mem.evolving_newList 0).advancing Mem.stays_newList
  | newArray count =>
    exact obeys_liftMem (@Mem.evolving_newArray 0 count).advancing (Mem.stays_newArray count)
  | writeValueToListObj list value =>
    exact obeys_liftMem (@Mem.evolving_writeValueToListObj 0 list value).advancing
      (Mem.stays_writeValueToListObj list value)
  | setListValues list values =>
    exact obeys_liftMem (@Mem.evolving_setListValues 0 list values).advancing
      (Mem.stays_setListValues list values)
  | setArrayValues array values =>
    exact obeys_liftMem (@Mem.evolving_setArrayValues 0 array values).advancing
      (Mem.stays_setArrayValues array values)
  | holding value p ih =>
    exact (obeys_push value).bind fun _ => ih.bind fun a => obeys_pop.bind fun _ =>
      obeys_pure fun hfalse => hfalse
  | printed toErr value => exact (reads_printedText libc toErr value).obeys
  | typeName value =>
    exact (reads_get (f := fun vm => orFault (valueTypeToString vm.gc value))
      fun _ => reads_orFault _).obeys
  | outside f => exact obeys_outside libc f
  | exit code => exact obeys_exit code
  | fail message => exact obeys_die message
  | report hgoes message =>
    intro vm
    exact obeysFrom_ok rfl (fun hfalse => hfalse) (.afterError (h hgoes) vm message)
  | fault => exact obeys_fault

end Programs

end KirbyLang.Vm
