import KirbyLang.InterpreterLaw

/-!
# Every instruction obeys the law

What is left of the interpreter: upvalues, the instructions, and runs.

* `VM.Goes.opened`, `VM.Goes.closed`: variables are captured and upvalues closed;
* `VM.Goes.setField`, `VM.Goes.addField`: the writes to instances and structs;
* `obeys_execute`: one lemma for each opcode, put together;
* `VM.StepFails`: the next instruction calls `@prompt` or `@stdin`, which reports an error;
* `step_obeys`: one instruction; `run_obeys`: a run.
-/

namespace KirbyLang.Vm

open Laws

variable {lax : Latitude} {vm vm' : VM} {failed : Option InterpretResult → Prop} [TellsErrors failed]

/-! ### Results -/

section Results

variable {p : M Bool}

theorem orFailed_obeysFrom (h : (machineLaw lax).ObeysFrom refused p vm) :
    (machineLaw lax).ObeysFrom failed (orFailed p) vm := by
  refine h.bind_failed (fun b hb => ⟨some .runtimeError, ?_, TellsErrors.error⟩) fun b vm' _ hb => ?_
  · rw [show b = false from hb]
    rfl
  · cases b with
    | false => exact absurd rfl hb
    | true => exact obeys_none vm'

theorem obeys_orFailed (h : (machineLaw lax).Obeys refused p) :
    (machineLaw lax).Obeys failed (orFailed p) := fun vm => orFailed_obeysFrom (h vm)

theorem obeys_failWith (message : Bytes) : (machineLaw lax).Obeys failed (failWith message) :=
  (obeys_runtimeError message).bind_failed (fun _ _ => ⟨some .runtimeError, rfl, TellsErrors.error⟩)
    fun _ h => absurd trivial h

theorem obeys_next {p : M Unit} (h : (machineLaw lax).Obeys never p) :
    (machineLaw lax).Obeys failed (next p) := h.bind fun _ => obeys_none

theorem next_obeysFrom {p : M Unit} (h : (machineLaw lax).ObeysFrom never p vm) :
    (machineLaw lax).ObeysFrom failed (next p) vm := h.bind fun _ vm' _ => obeys_none vm'

end Results

/-! ### Writing over objects -/

theorem writeObj_obeys {r : Ref} {o o' : Obj} (ho : vm.gc.heap r = some o) (hkept : o.Kept o')
    (hstring : o'.NoString) : (machineLaw lax).ObeysFrom never (liftMem (writeObj r o')) vm :=
  obeysFrom_ok rfl (fun hfalse => hfalse)
    (VM.Goes.ofAdvances (@Memory.Evolves.setObj vm.toMemory 0 r o o' ho hkept).toAdvances
      (.setObj ho (hkept.noString hstring) hstring))

theorem closure?_eq_some {gc : GC} {r : Ref} {o : ObjClosure} (h : gc.closure? r = some o) :
    gc.heap r = some (.closure o) := by
  obtain ⟨o', ho', h⟩ := Option.bind_eq_some_iff.mp h
  cases o' <;> cases h
  exact ho'

theorem upvalue?_eq_some {gc : GC} {r : Ref} {o : ObjUpvalue} (h : gc.upvalue? r = some o) :
    gc.heap r = some (.upvalue o) := by
  obtain ⟨o', ho', h⟩ := Option.bind_eq_some_iff.mp h
  cases o' <;> cases h
  exact ho'

/-- A closure is read and written over. -/
theorem obeys_updateClosure {β : Type} {failed' : β → Prop} (closure : Ref)
    (f : ObjClosure → ObjClosure) {g : M β} (hg : (machineLaw lax).Obeys failed' g) :
    (machineLaw lax).Obeys failed' (do
      let o ← closureAt closure
      liftMem (writeObj closure (.closure (f o)))
      g) := by
  intro vm
  refine ((reads_closureAt closure).obeys vm).bind fun o vm' ho => ?_
  obtain ⟨hread, rfl⟩ := orFault_ok ho
  exact (writeObj_obeys (closure?_eq_some hread) (.closure _ _) (by simp [Obj.NoString])).bind
    fun _ vm'' _ => hg vm''

/-! ### Upvalues -/

/-- A change that only upvalues see. -/
theorem VM.Goes.of_upvalues (htrace : vm'.trace = vm.trace)
    (hfresh : vm.gc.Fits → ∀ r, vm'.gc.nextRef ≤ r → vm'.gc.heap r = none)
    (hheap : ∀ r o, vm'.gc.heap r = some o → (∀ u, o ≠ .upvalue u) → vm.gc.heap r = some o)
    (hupvalues : vm.KeepsUpvalues lax vm') (hstrings : vm.toMemory.Interns vm'.toMemory) :
    vm.Goes lax vm' := by
  refine ⟨⟨[], htrace, by simp⟩, fun hfits => ⟨hfresh hfits, fun r i hi values hvalues => ?_⟩,
    fun _ => ⟨hupvalues.nextRef, fun r o' _ ho' => ?_, fun r i' _ hi' => ?_⟩, hupvalues, hstrings⟩
  · obtain ⟨hlt, hlength⟩ := hfits.fields r i (hheap r _ hi (by simp)) values hvalues
    exact ⟨Nat.lt_of_lt_of_le hlt hupvalues.nextRef, fun o ho =>
      hlength o (hheap _ _ ho (by simp))⟩
  · exact ⟨o', hheap r _ ho' (by simp), Nat.le_refl _, fun _ _ => ⟨rfl, rfl⟩⟩
  · exact ⟨i', hheap r _ hi' (by simp), rfl, fun values hvalues =>
      ⟨values, hvalues, rfl, fun _ _ => rfl⟩⟩

/-- A new upvalue is put into the list of open upvalues. -/
theorem VM.Goes.opened (hlax : lax.upvalues = true) {slot : ℤ} {above rest : List Ref}
    (hlist : vm.openUpvalues = above ++ rest) :
    vm.Goes lax { vm with
      gc := vm.gc.link (.upvalue { location := .stack slot })
      openUpvalues := above ++ vm.gc.nextRef :: rest } := by
  have hself : (vm.gc.link (.upvalue { location := .stack slot })).heap vm.gc.nextRef =
      some (.upvalue { location := .stack slot }) := Function.update_self ..
  have hother : ∀ r ≠ vm.gc.nextRef,
      (vm.gc.link (.upvalue { location := .stack slot })).heap r = vm.gc.heap r :=
    fun r hne => Function.update_of_ne hne _ _
  have hmem : ∀ r, r ∈ above ++ vm.gc.nextRef :: rest ↔ r = vm.gc.nextRef ∨ r ∈ vm.openUpvalues := by
    intro r
    rw [hlist]
    simp only [List.mem_append, List.mem_cons]
    tauto
  have hstrings : vm.toMemory.Interns { vm.toMemory with
      gc := vm.gc.link (.upvalue { location := .stack slot })
      openUpvalues := above ++ vm.gc.nextRef :: rest } :=
    (Memory.Interns.link vm.toMemory (by simp [Obj.NoString])).trans
      (.ofSame (List.suffix_refl _) (fun _ hbase => hbase) rfl)
  refine .of_upvalues rfl (fun hfits r hr => ?_) (fun r o ho hno => ?_)
    ⟨Nat.le_succ _, fun r u' hu' => ?_, fun hkeep => ?_, fun _ hlists => ⟨fun r u hu hopen => ?_,
      fun r hr u hu => ?_, ?_, fun r hr => ?_⟩⟩ hstrings
  · have hlt : vm.gc.nextRef + 1 ≤ r := hr
    exact (hother r (Nat.ne_of_gt hlt)).trans (hfits.fresh r (Nat.le_of_succ_le hlt))
  · by_cases heq : r = vm.gc.nextRef
    · rw [heq] at ho
      exact absurd (Option.some.inj (ho.symm.trans hself)) (hno _)
    · exact (hother r heq).symm.trans ho
  · by_cases heq : r = vm.gc.nextRef
    · exact .inr ⟨hlax, Nat.le_of_eq heq.symm⟩
    · exact .inl ⟨u', (hother r heq).symm.trans hu', .inl rfl⟩
  · rw [hlax] at hkeep
    cases hkeep
  · by_cases heq : r = vm.gc.nextRef
    · exact (hmem r).mpr (.inl heq)
    · exact (hmem r).mpr (.inr (hlists.mem r u ((hother r heq).symm.trans hu) hopen))
  · rcases (hmem r).mp hr with rfl | hr
    · cases Option.some.inj (hself.symm.trans hu)
      simp
    · have hne : r ≠ vm.gc.nextRef := Nat.ne_of_lt (hlists.lt r hr)
      exact hlists.isOpen r hr u ((hother r hne).symm.trans hu)
  · refine List.nodup_middle.mpr (List.nodup_cons.mpr ⟨fun hin => ?_, hlist ▸ hlists.nodup⟩)
    exact Nat.lt_irrefl _ (hlists.lt _ (hlist ▸ hin))
  · show r < vm.gc.nextRef + 1
    rcases (hmem r).mp hr with rfl | hr
    · exact Nat.lt_succ_self _
    · exact Nat.lt_succ_of_lt (hlists.lt r hr)

theorem create_obeys (hlax : lax.upvalues = true) (slot : ℤ) {above rest : List Ref}
    (hlist : vm.openUpvalues = above ++ rest) :
    (machineLaw lax).ObeysFrom never (captureUpvalue.create slot above rest) vm := by
  rcases hnew : newUpvalue slot vm.toMemory with _ | ⟨upvalue, memory⟩
  · have hlift : liftMem (newUpvalue slot) vm = (.error .fault, vm) := by simp only [liftMem, hnew]
    exact obeysFrom_error (bind_error hlift) (.inl (.refl _))
  · have hlift : liftMem (newUpvalue slot) vm = (.ok upvalue, { vm with toMemory := memory }) := by
      simp only [liftMem, hnew]
    obtain ⟨memory₁, hmade, rfl, rfl⟩ := Mem.newUpvalue_made hnew
    have hevolves := @Mem.evolving_reallocate 0 _ _ _ _ _ hmade
    have hgoes : vm.Goes lax { vm with toMemory := memory₁ } :=
      .ofAdvances hevolves.toAdvances (Mem.interning_reallocate _ _ _ _ _ hmade)
    refine obeysFrom_ok (bind_ok hlift) (fun hfalse => hfalse) (hgoes.trans (.opened hlax ?_))
    exact hevolves.openUpvalues.trans hlist

theorem obeys_captureUpvalue (hlax : lax.upvalues = true) (slot : ℤ) :
    (machineLaw lax).Obeys never (captureUpvalue slot) := by
  intro vm
  have hlist : vm.openUpvalues = vm.openUpvalues.takeWhile (vm.gc.isAbove slot) ++
      vm.openUpvalues.dropWhile (vm.gc.isAbove slot) := List.takeWhile_append_dropWhile.symm
  refine obeysFrom_get ?_
  dsimp only
  split
  · split
    · exact obeysFrom_pure fun hfalse => hfalse
    · exact create_obeys hlax slot hlist
  · exact create_obeys hlax slot hlist

theorem upvalueSlot_eq_some {gc : GC} {upvalue : Ref} {slot : ℤ}
    (h : gc.upvalueSlot upvalue = some slot) : ∃ o, gc.heap upvalue = some (.upvalue o) := by
  unfold GC.upvalueSlot at h
  split at h
  next hupvalue => exact ⟨_, upvalue?_eq_some hupvalue⟩
  next => cases h

/-- The first upvalue of the list is closed and taken off it. -/
theorem VM.Goes.closed (hlax : lax.upvalues = true) {upvalue : Ref} {rest : List Ref} {o : ObjUpvalue}
    (hlist : vm.openUpvalues = upvalue :: rest) (ho : vm.gc.heap upvalue = some (.upvalue o))
    (value : Value) :
    vm.Goes lax { vm with toMemory :=
      { vm.toMemory.setObj upvalue (.upvalue { location := .closed, closed := value }) with
        openUpvalues := rest } } := by
  let o' : ObjUpvalue := { location := .closed, closed := value }
  have hself : (vm.toMemory.setObj upvalue (.upvalue o')).gc.heap upvalue = some (.upvalue o') :=
    Function.update_self ..
  have hother : ∀ r ≠ upvalue, (vm.toMemory.setObj upvalue (.upvalue o')).gc.heap r = vm.gc.heap r :=
    fun r hne => Function.update_of_ne hne _ _
  have hsub : ∀ r ∈ rest, r ∈ vm.openUpvalues := fun r hr => hlist ▸ List.mem_cons_of_mem _ hr
  have hstrings : vm.toMemory.Interns
      { vm.toMemory.setObj upvalue (.upvalue o') with openUpvalues := rest } :=
    (Memory.Interns.setObj ho (by simp [Obj.NoString]) (by simp [Obj.NoString])).trans
      (.ofSame (List.suffix_refl _) (fun _ hbase => hbase) rfl)
  refine .of_upvalues rfl (fun hfits r hr => ?_) (fun r o₁ ho₁ hno => ?_)
    ⟨Nat.le_refl _, fun r u' hu' => ?_, fun _ => hsub, fun _ hlists => ⟨fun r u hu hopen => ?_,
      fun r hr u hu => ?_, ?_, fun r hr => hlists.lt r (hsub r hr)⟩⟩ hstrings
  · have hne : r ≠ upvalue := fun heq => absurd (hfits.lt ho) (Nat.not_lt_of_le (heq ▸ hr))
    exact (hother r hne).trans (hfits.fresh r hr)
  · by_cases heq : r = upvalue
    · rw [heq] at ho₁
      exact absurd (Option.some.inj (ho₁.symm.trans hself)) (hno _)
    · exact (hother r heq).symm.trans ho₁
  · by_cases heq : r = upvalue
    · subst heq
      cases Option.some.inj (hself.symm.trans hu')
      exact .inl ⟨o, ho, .inr ⟨hlax, rfl⟩⟩
    · exact .inl ⟨u', (hother r heq).symm.trans hu', .inl rfl⟩
  · by_cases heq : r = upvalue
    · subst heq
      cases Option.some.inj (hself.symm.trans hu)
      exact absurd rfl hopen
    · have hmem := hlists.mem r u ((hother r heq).symm.trans hu) hopen
      rw [hlist] at hmem
      exact (List.mem_cons.mp hmem).resolve_left heq
  · have hnodup := hlists.nodup
    rw [hlist] at hnodup
    have hne : r ≠ upvalue := fun heq => (List.nodup_cons.mp hnodup).1 (heq ▸ hr)
    exact hlists.isOpen r (hsub r hr) u ((hother r hne).symm.trans hu)
  · have hnodup := hlists.nodup
    rw [hlist] at hnodup
    exact (List.nodup_cons.mp hnodup).2

/-- The loop goes by the list that it is given. -/
theorem closeUpvaluesLoop_list (last : ℤ) (upvalues openUpvalues : List Ref) (memory : Memory) :
    closeUpvaluesLoop last upvalues { memory with openUpvalues } =
      closeUpvaluesLoop last upvalues memory := by
  induction upvalues generalizing memory with
  | nil => rfl
  | cons upvalue rest ih =>
    unfold closeUpvaluesLoop
    cases memory.gc.upvalueSlot upvalue with
    | none => rfl
    | some slot =>
      by_cases hle : last ≤ slot
      · simp only [if_pos hle]
        exact ih (memory.setObj upvalue
          (.upvalue { location := .closed, closed := memory.stack slot }))
      · simp only [if_neg hle]

theorem closeUpvaluesLoop_goes (hlax : lax.upvalues = true) (last : ℤ) {upvalues : List Ref}
    (hlist : vm.openUpvalues = upvalues) :
    vm.Goes lax { vm with toMemory := closeUpvaluesLoop last upvalues vm.toMemory } := by
  induction upvalues generalizing vm with
  | nil => exact VM.Goes.ofSame rfl rfl hlist.symm rfl
  | cons upvalue rest ih =>
    unfold closeUpvaluesLoop
    cases hslot : vm.gc.upvalueSlot upvalue with
    | none => exact VM.Goes.ofSame rfl rfl hlist.symm rfl
    | some slot =>
      by_cases hle : last ≤ slot
      · simp only [if_pos hle]
        obtain ⟨o, ho⟩ := upvalueSlot_eq_some hslot
        refine (VM.Goes.closed hlax hlist ho (vm.stack slot)).trans ?_
        rw [← closeUpvaluesLoop_list last rest rest]
        exact ih rfl
      · simp only [if_neg hle]
        exact VM.Goes.ofSame rfl rfl hlist.symm rfl

theorem obeys_closeUpvalues (hlax : lax.upvalues = true) (last : ℤ) :
    (machineLaw lax).Obeys never (closeUpvalues last) :=
  fun _ => obeysFrom_modify (closeUpvaluesLoop_goes hlax last rfl)

theorem reads_upvalueOf (closure : Ref) (index : ℕ) : Reads (upvalueOf closure index) :=
  (reads_closureAt closure).bind fun _ => reads_orFault _

theorem reads_readUpvalue (upvalue : Ref) : Reads (readUpvalue upvalue) := by
  refine (reads_upvalueAt upvalue).bind fun o => ?_
  cases o.location with
  | stack slot => exact reads_get fun _ => reads_pure _
  | closed => exact reads_pure _

theorem obeys_writeUpvalue (upvalue : Ref) (value : Value) :
    (machineLaw lax).Obeys never (writeUpvalue upvalue value) := by
  intro vm
  refine ((reads_upvalueAt upvalue).obeys vm).bind fun o vm' ho => ?_
  obtain ⟨hread, rfl⟩ := orFault_ok ho
  cases hlocation : o.location with
  | stack slot => exact obeys_setSlot _ _ vm'
  | closed => exact writeObj_obeys (upvalue?_eq_some hread) (.upvalue hlocation.symm) (by simp [Obj.NoString])

/-! ### Reading instructions -/

theorem reads_currentFrame : Reads currentFrame := reads_get fun _ => reads_orFault _

theorem obeys_setIp (ip : ℤ) : (machineLaw lax).Obeys never (setIp ip) := by
  refine obeys_modify (fun vm => ?_) (fun vm => ?_) (fun vm => ?_) fun vm => ?_
  · split <;> rfl
  · split <;> rfl
  · split <;> rfl
  · split <;> rfl

theorem obeys_readByte : (machineLaw lax).Obeys never readByte := by
  refine reads_currentFrame.obeys.bind fun frame => ?_
  refine (reads_functionOfClosure _).obeys.bind fun function => ?_
  split
  · exact obeys_fault
  · exact (reads_orFault _).obeys.bind fun _ => (obeys_setIp _).bind fun _ =>
      obeys_pure fun hfalse => hfalse

theorem obeys_readShort : (machineLaw lax).Obeys never readShort :=
  obeys_readByte.bind fun _ => obeys_readByte.bind fun _ => obeys_pure fun hfalse => hfalse

theorem obeys_readConstant : (machineLaw lax).Obeys never readConstant :=
  obeys_readByte.bind fun _ => reads_currentFrame.obeys.bind fun _ =>
    (reads_functionOfClosure _).obeys.bind fun _ => (reads_orFault _).obeys

theorem obeys_readString : (machineLaw lax).Obeys never readString :=
  obeys_readConstant.bind fun value => (reads_asStringRef value).obeys

/-- A value takes the place of the one on top. -/
def VM.topped (vm : VM) (value : Value) : VM := { vm with toMemory := (vm.toMemory.popped 1).pushed value }

theorem topped_eq (value : Value) :
    (do let _ ← pop; push value : M Unit) vm = (.ok (), vm.topped value) := rfl

@[simp] theorem VM.topped_top (vm : VM) (value : Value) :
    (vm.topped value).stack ((vm.topped value).stackTop - 1) = value := by
  simp [VM.topped, Memory.popped, Memory.pushed]

theorem functionOfClosure_eq_ok {closure : Ref} {function : ObjFunction} :
    functionOfClosure closure vm = (.ok function, vm') ↔
      vm' = vm ∧ ∃ o, vm.gc.closure? closure = some o ∧ vm.gc.function? o.function = some function := by
  constructor
  · intro h
    obtain ⟨o, vm₁, ho, hfunction⟩ := bind_eq_ok h
    obtain ⟨ho, rfl⟩ := orFault_ok ho
    obtain ⟨hfunction, rfl⟩ := orFault_ok hfunction
    exact ⟨rfl, o, ho, hfunction⟩
  · rintro ⟨rfl, o, ho, hfunction⟩
    refine (bind_ok (show closureAt closure vm' = (.ok o, vm') from ?_)).trans ?_
    · show orFault (vm'.gc.closure? closure) vm' = _
      rw [ho]
      rfl
    · show orFault (vm'.gc.function? o.function) vm' = _
      rw [hfunction]
      rfl

/-- The next byte of the running function. -/
def VM.NextByte (vm : VM) (byte : UInt8) (frame : CallFrame) (rest : List CallFrame) : Prop :=
  vm.frames = frame :: rest ∧ 0 ≤ frame.ip ∧ ∃ function code,
    functionOfClosure frame.closure vm = (.ok function, vm) ∧
      function.chunk.code[frame.ip.toNat]? = some code ∧ code.byte = byte

theorem readByte_eq_ok {byte : UInt8} : readByte vm = (.ok byte, vm') ↔
    ∃ frame rest, vm.NextByte byte frame rest ∧
      vm' = { vm with frames := { frame with ip := frame.ip + 1 } :: rest } := by
  constructor
  · intro h
    obtain ⟨frame, vm₁, hframe, hread⟩ := bind_eq_ok h
    obtain ⟨hhead, rfl⟩ := orFault_ok hframe
    obtain ⟨function, vm₂, hfunction, hcheck⟩ := bind_eq_ok hread
    obtain rfl : vm₂ = vm₁ := (reads_functionOfClosure _).ok hfunction
    obtain ⟨rest, hrest⟩ := List.head?_eq_some_iff.mp hhead
    by_cases hip : frame.ip < 0
    · rw [if_pos hip] at hcheck
      cases hcheck
    · rw [if_neg hip] at hcheck
      obtain ⟨code, vm₃, hcode, hmove⟩ := bind_eq_ok hcheck
      obtain ⟨hthere, rfl⟩ := orFault_ok hcode
      obtain ⟨_, vm₄, hset, hbyte⟩ := bind_eq_ok hmove
      cases hset
      cases hbyte
      refine ⟨frame, rest, ⟨hrest, not_lt.mp hip, function, code, hfunction, hthere, rfl⟩, ?_⟩
      simp only [hrest]
  · rintro ⟨frame, rest, ⟨hframes, hip, function, code, hfunction, hcode, rfl⟩, rfl⟩
    refine (bind_ok (show currentFrame vm = (.ok frame, vm) from ?_)).trans
      ((bind_ok hfunction).trans ?_)
    · show orFault vm.frames.head? vm = _
      rw [hframes]
      rfl
    · rw [if_neg (not_lt.mpr hip), hcode]
      have hset : setIp (frame.ip + 1) vm =
          (.ok (), { vm with frames := { frame with ip := frame.ip + 1 } :: rest }) := by
        have hmodify : ∀ f : VM → VM, (modify f : M Unit) vm = (.ok (), f vm) := fun _ => rfl
        rw [setIp, hmodify, hframes]
      exact (bind_ok (show orFault (some code) vm = (.ok code, vm) from rfl)).trans
        ((bind_ok hset).trans rfl)

/-- Reading the code moves on in the running frame. -/
theorem readByte_ok {byte : UInt8} (h : readByte vm = (.ok byte, vm')) :
    ∃ frames, vm' = { vm with frames } := by
  obtain ⟨frame, rest, -, rfl⟩ := readByte_eq_ok.mp h
  exact ⟨_, rfl⟩

theorem readConstant_ok {value : Value} (h : readConstant vm = (.ok value, vm')) :
    ∃ frames, vm' = { vm with frames } := by
  obtain ⟨index, vm₁, hindex, hrest⟩ := bind_eq_ok h
  obtain ⟨frame, vm₂, hframe, hfunctionRest⟩ := bind_eq_ok hrest
  obtain rfl : vm₂ = vm₁ := reads_currentFrame.ok hframe
  obtain ⟨function, vm₃, hfunction, hconstant⟩ := bind_eq_ok hfunctionRest
  obtain rfl : vm₃ = vm₂ := (reads_functionOfClosure _).ok hfunction
  obtain rfl : vm' = vm₃ := (reads_orFault _).ok hconstant
  exact readByte_ok hindex

theorem readString_ok {r : Ref} (h : readString vm = (.ok r, vm')) :
    ∃ frames, vm' = { vm with frames } := by
  obtain ⟨value, vm₁, hvalue, hstring⟩ := bind_eq_ok h
  obtain rfl : vm' = vm₁ := (reads_asStringRef value).ok hstring
  exact readConstant_ok hvalue

/-! ### Operators -/

theorem obeys_concatenate : (machineLaw lax).Obeys never concatenate := by
  refine (reads_peekStack _).obeys.bind fun b => (reads_asStringRef b).obeys.bind fun rb =>
    (reads_stringAt rb).obeys.bind fun sb => (reads_peekStack _).obeys.bind fun a =>
    (reads_asStringRef a).obeys.bind fun ra => (reads_stringAt ra).obeys.bind fun sa => ?_
  dsimp only
  split
  · exact obeys_fault
  · exact (obeys_liftMem (@Mem.evolving_reallocate 0 _ _).advancing
        (Mem.interning_reallocate _ _)).bind fun _ =>
      (obeys_liftMem (Mem.evolving_takeString _).advancing
        (Mem.interning_takeString _)).bind fun _ => obeys_pop.bind fun _ =>
      obeys_pop.bind fun _ => obeys_push _

variable (host : Host)

theorem obeys_assertNonZeroNumber (function : String) (kind : NumberKind) (payload : NumberPayload)
    (index : ℤ) :
    (machineLaw lax).Obeys never (assertNonZeroNumber host function kind payload index) := by
  unfold assertNonZeroNumber
  split
  · exact obeys_pure fun hfalse => hfalse
  · exact obeys_die _

theorem obeys_replaceTwo (value : Value) : (machineLaw lax).Obeys refused (do
    let _ ← pop
    let _ ← pop
    push value
    return true) :=
  obeys_pop.bind fun _ => obeys_pop.bind fun _ => (obeys_push value).bind fun _ => obeys_true

theorem obeys_numberBinary (op : NumberOp) (mismatchMessage : Bytes) :
    (machineLaw lax).Obeys refused (numberBinary host op mismatchMessage) := by
  refine (reads_peekStack _).obeys.bind fun b => (reads_peekStack _).obeys.bind fun a => ?_
  split
  next => exact obeys_refused _
  next kind x y _ =>
    dsimp only
    by_cases hzero : op = .divide ∨ (op = .modulo ∧ kind.info.isFloat = false)
    · rw [if_pos hzero]
      refine (obeys_assertNonZeroNumber host _ _ _ _).bind fun _ => ?_
      cases numberArithmetic host.libc kind op x y with
      | none => exact obeys_refused _
      | some result => exact obeys_replaceTwo _
    · rw [if_neg hzero]
      cases numberArithmetic host.libc kind op x y with
      | none => exact obeys_refused _
      | some result => exact obeys_replaceTwo _

theorem obeys_numberCompare (greater : Bool) :
    (machineLaw lax).Obeys refused (numberCompare greater) := by
  refine (reads_peekStack _).obeys.bind fun b => (reads_peekStack _).obeys.bind fun a => ?_
  split
  · exact obeys_refused _
  · exact obeys_replaceTwo _

theorem obeys_castNumber (source : NumberKind) (payload : NumberPayload) (target : NumberKind) :
    (machineLaw lax).Obeys refused (castNumber host source payload target) := by
  unfold castNumber
  dsimp only
  split
  · exact (obeys_push _).bind fun _ => obeys_true
  · split
    · exact obeys_refused _
    · exact obeys_refused _

theorem obeys_opAdd : (machineLaw lax).Obeys failed (opAdd host) := by
  refine (reads_peekStack _).obeys.bind fun b => (reads_objectOf b).obeys.bind fun b' =>
    (reads_peekStack _).obeys.bind fun a => (reads_objectOf a).obeys.bind fun a' => ?_
  split
  · exact obeys_next obeys_concatenate
  · exact obeys_orFailed (obeys_numberBinary host _ _)

theorem obeys_replaceTop (value : Value) : (machineLaw lax).Obeys never (do
    let _ ← pop
    push value) :=
  obeys_pop.bind fun _ => obeys_push value

theorem obeys_opNegate : (machineLaw lax).Obeys failed (opNegate host) := by
  refine (reads_peekStack _).obeys.bind fun value => ?_
  cases value with
  | number kind payload =>
    dsimp only
    cases numberNegateValue kind payload with
    | none => exact obeys_failWith _
    | some result => exact obeys_next (obeys_replaceTop _)
  | _ => exact obeys_failWith _

theorem obeys_opCast : (machineLaw lax).Obeys failed (opCast host) := by
  refine obeys_readByte.bind fun target => obeys_pop.bind fun value => ?_
  cases NumberKind.ofByte? target with
  | none => exact obeys_failWith _
  | some target =>
    cases value with
    | number kind payload => exact obeys_orFailed (obeys_castNumber host _ _ _)
    | _ => exact obeys_failWith _

theorem obeys_opPrint : (machineLaw lax).Obeys failed (opPrint host) := by
  refine obeys_next (obeys_pop.bind fun value => (reads_printedText _ _ _).obeys.bind fun printed => ?_)
  refine obeys_modify ?_ ?_ ?_ ?_
  · exact fun _ => rfl
  · exact fun _ => rfl
  · exact fun _ => rfl
  · exact fun _ => rfl

/-! ### Functions -/

theorem obeys_opReturn (hlax : lax.upvalues = true) : (machineLaw lax).Obeys erred opReturn := by
  refine reads_currentFrame.obeys.bind fun frame => obeys_pop.bind fun result =>
    (obeys_closeUpvalues hlax _).bind fun _ => ?_
  refine Law.Obeys.bind (obeys_modify ?_ ?_ ?_ ?_) fun _ => obeys_read fun vm => ?_
  · exact fun _ => rfl
  · exact fun _ => rfl
  · exact fun _ => rfl
  · exact fun _ => rfl
  · split
    · exact obeys_pop.bind fun _ => obeys_pure (by simp [erred])
    · exact obeys_next (obeys_read fun _ => (obeys_popN _).bind fun _ => obeys_push _)

theorem obeys_captureLoop (hlax : lax.upvalues = true) (frame : CallFrame) (closure : Ref) (i : ℕ) :
    (machineLaw lax).Obeys never (captureLoop frame closure i) := by
  refine obeys_readByte.bind fun isLocal => obeys_readByte.bind fun index => ?_
  have hwrite : ∀ upvalue, (machineLaw lax).Obeys never (do
      let o ← closureAt closure
      liftMem (writeObj closure (.closure { o with upvalues := o.upvalues.set i upvalue }))) := by
    intro upvalue vm
    refine ((reads_closureAt closure).obeys vm).bind fun o vm' ho => ?_
    obtain ⟨hread, rfl⟩ := orFault_ok ho
    exact writeObj_obeys (closure?_eq_some hread) (.closure _ _) (by simp [Obj.NoString])
  dsimp only
  split
  · exact (obeys_captureUpvalue hlax _).bind fun upvalue => hwrite upvalue
  · exact (reads_upvalueOf _ _).obeys.bind fun upvalue => hwrite upvalue

theorem obeys_opClosure (hlax : lax.upvalues = true) : (machineLaw lax).Obeys failed opClosure := by
  refine obeys_next (obeys_readConstant.bind fun value => ?_)
  cases value with
  | obj function =>
    refine reads_currentFrame.obeys.bind fun frame =>
      (obeys_liftMem (@Mem.evolving_newClosure 0 function).advancing
        (Mem.stays_newClosure function)).bind fun closure =>
      (reads_closureAt _).obeys.bind fun running => ?_
    intro vm
    refine ((reads_closureAt closure).obeys vm).bind fun o vm' ho => ?_
    obtain ⟨hread, rfl⟩ := orFault_ok ho
    exact (writeObj_obeys (closure?_eq_some hread) (.closure _ _)
      (by simp [Obj.NoString])).bind fun _ vm'' _ =>
      ((obeys_push _).bind fun _ => obeys_forM fun i => obeys_captureLoop hlax frame closure i) vm''
  | _ => exact obeys_fault

theorem obeys_opGetUpvalue : (machineLaw lax).Obeys failed opGetUpvalue :=
  obeys_next (obeys_readByte.bind fun _ => reads_currentFrame.obeys.bind fun _ =>
    (reads_upvalueOf _ _).obeys.bind fun upvalue => (reads_readUpvalue upvalue).obeys.bind fun value =>
    obeys_push value)

theorem obeys_opSetUpvalue : (machineLaw lax).Obeys failed opSetUpvalue :=
  obeys_next (obeys_readByte.bind fun _ => reads_currentFrame.obeys.bind fun _ =>
    (reads_upvalueOf _ _).obeys.bind fun upvalue => (reads_peekStack _).obeys.bind fun value =>
    obeys_writeUpvalue upvalue value)

theorem opCall_obeys (h : lax.reports = true ∨ ∀ argCount vm', readByte vm = (.ok argCount, vm') →
      ¬ vm'.CallFails (vm'.stack (vm'.stackTop - 1 - argCount.toNat)) argCount.toNat) :
    (machineLaw lax).ObeysFrom failed (opCall host) vm := by
  refine (obeys_readByte vm).bind fun argCount vm' hread => ?_
  refine ((reads_peekStack _).obeys vm').bind fun callee vm'' hcallee => ?_
  cases hcallee
  exact orFailed_obeysFrom (callValue_obeys host (h.imp_right fun hnot => hnot argCount vm' hread))

/-! ### Globals and jumps -/

theorem obeys_opGetGlobal : (machineLaw lax).Obeys failed opGetGlobal := by
  refine obeys_readString.bind fun name => obeys_read fun vm => (reads_lookup _ _).obeys.bind fun found => ?_
  rcases found with _ | value
  · exact (reads_textOf _).obeys.bind fun _ => obeys_failWith _
  · exact obeys_next (obeys_push value)

theorem obeys_opSetGlobal : (machineLaw lax).Obeys failed opSetGlobal := by
  refine obeys_readString.bind fun name => (reads_peekStack _).obeys.bind fun value =>
    (obeys_liftMem (@Mem.evolving_tableSet 0 .globals name value).advancing
      (Mem.interning_tableSet (by simp) name value)).bind fun isNewKey => ?_
  cases isNewKey with
  | false => exact obeys_none
  | true =>
    refine obeys_read fun vm => (reads_orFault _).obeys.bind fun deleted => ?_
    refine Law.Obeys.bind (obeys_modify ?_ ?_ ?_ ?_) fun _ => (reads_textOf _).obeys.bind fun _ =>
      obeys_failWith _
    · exact fun _ => rfl
    · exact fun _ => rfl
    · exact fun _ => rfl
    · exact fun _ => rfl

theorem obeys_opDefineGlobal : (machineLaw lax).Obeys failed opDefineGlobal :=
  obeys_next (obeys_readString.bind fun name => (reads_peekStack _).obeys.bind fun value =>
    (obeys_liftMem (@Mem.evolving_tableSet 0 .globals name value).advancing
      (Mem.interning_tableSet (by simp) name value)).bind fun _ =>
    obeys_pop.bind fun _ => obeys_pure fun hfalse => hfalse)

theorem obeys_jumpIf (condition : Value → Bool) : (machineLaw lax).Obeys failed (jumpIf condition) := by
  refine obeys_next (obeys_readShort.bind fun jumpOffset => (reads_peekStack _).obeys.bind fun value => ?_)
  split
  · exact reads_currentFrame.obeys.bind fun _ => obeys_setIp _
  · exact obeys_pure fun hfalse => hfalse

/-! ### Structs and instances -/

/-- Nothing becomes of the upvalues when another object is written over. -/
theorem VM.KeepsUpvalues.setObj {r : Ref} {o : Obj} (hother : ∀ u, o ≠ .upvalue u) :
    vm.KeepsUpvalues lax { vm with toMemory := vm.toMemory.setObj r o } := by
  refine .of_heap (Nat.le_refl _) rfl fun r' u hu => ?_
  by_cases heq : r' = r
  · subst heq
    have hself : (vm.toMemory.setObj r' o).gc.heap r' = some o := Function.update_self ..
    exact absurd (Option.some.inj (hself.symm.trans hu)) (hother u)
  · exact ⟨u, (Function.update_of_ne heq _ _).symm.trans hu, rfl⟩

/-- A field of an instance gets another value. Of an instance that was there before, it may be changed. -/
theorem VM.Goes.setField {before : VM} (h : before.Goes lax vm) {r : Ref} {i : ObjInstance}
    {values : List Value} {slot : ℕ} (value : Value) (hr : vm.gc.heap r = some (.instance_ i))
    (hvalues : i.fields = some values)
    (hmutable : r < before.gc.nextRef → before.gc.Fits → before.gc.IsMutable i.struct_ slot) :
    before.Goes lax { vm with
      toMemory := vm.toMemory.setObj r (.instance_ { i with fields := some (values.set slot value) }) } := by
  have hself : (vm.toMemory.setObj r
      (.instance_ { i with fields := some (values.set slot value) })).gc.heap r =
      some (.instance_ { i with fields := some (values.set slot value) }) := Function.update_self ..
  have hother : ∀ r' ≠ r, (vm.toMemory.setObj r
      (.instance_ { i with fields := some (values.set slot value) })).gc.heap r' = vm.gc.heap r' :=
    fun r' hne => Function.update_of_ne hne _ _
  have hstruct : ∀ r' o, (vm.toMemory.setObj r
      (.instance_ { i with fields := some (values.set slot value) })).gc.heap r' =
      some (.struct_ o) → vm.gc.heap r' = some (.struct_ o) := by
    intro r' o ho
    by_cases heq : r' = r
    · rw [heq, hself] at ho
      cases ho
    · exact (hother r' heq).symm.trans ho
  refine ⟨h.trace, fun hfits => ⟨fun r' hr' => ?_, fun r' i' hi' values' hvalues' => ?_⟩,
    fun hfits => ⟨(h.changes hfits).nextRef, fun r' o' hlt ho' => ?_, fun r' i' hlt hi' => ?_⟩,
    h.upvalues.trans (h.trace.imp fun _ => And.left) ⟨[], rfl⟩ (.setObj (by simp)),
    h.strings.trans (.setObj hr (by simp [Obj.NoString]) (by simp [Obj.NoString]))⟩
  · have hne : r' ≠ r := fun heq => absurd ((h.fits hfits).lt hr) (Nat.not_lt_of_le (heq ▸ hr'))
    exact (hother r' hne).trans ((h.fits hfits).fresh r' hr')
  · by_cases heq : r' = r
    · rw [heq, hself] at hi'
      cases hi'
      cases hvalues'
      obtain ⟨hltStruct, hlength⟩ := (h.fits hfits).fields r i hr values hvalues
      refine ⟨hltStruct, fun o ho => ?_⟩
      rw [List.length_set]
      exact hlength o (hstruct _ o ho)
    · rw [hother r' heq] at hi'
      obtain ⟨hltStruct, hlength⟩ := (h.fits hfits).fields r' i' hi' values' hvalues'
      exact ⟨hltStruct, fun o ho => hlength o (hstruct _ o ho)⟩
  · exact (h.changes hfits).struct_ r' o' hlt (hstruct r' o' ho')
  · by_cases heq : r' = r
    · subst heq
      rw [hself] at hi'
      cases hi'
      obtain ⟨i₀, hi₀, hsame, hkeep⟩ := (h.changes hfits).instance_ r' i hlt hr
      refine ⟨i₀, hi₀, hsame, fun values₀ hvalues₀ => ?_⟩
      obtain ⟨values', hvalues', hlength, hvalue⟩ := hkeep values₀ hvalues₀
      cases hvalues.symm.trans hvalues'
      refine ⟨_, rfl, List.length_set.trans hlength, fun slot' hslot' => ?_⟩
      have hne : slot ≠ slot' := by
        rintro rfl
        exact hslot' (hsame ▸ hmutable hlt hfits)
      rw [List.getElem?_set_ne hne]
      exact hvalue slot' hslot'
    · rw [hother r' heq] at hi'
      exact (h.changes hfits).instance_ r' i' hlt hi'

/-- A struct gets another field. -/
theorem VM.Goes.addField {r : Ref} {o : ObjStruct} (isPublic isMutable : Bool)
    (hr : vm.gc.heap r = some (.struct_ o)) :
    vm.Goes lax { vm with
      toMemory := vm.toMemory.setObj r (.struct_ { o with
        fieldPublic := Function.update o.fieldPublic o.fieldCount isPublic
        fieldMutable := Function.update o.fieldMutable o.fieldCount isMutable
        fieldCount := o.fieldCount + 1 }) } := by
  let o' : ObjStruct := { o with
    fieldPublic := Function.update o.fieldPublic o.fieldCount isPublic
    fieldMutable := Function.update o.fieldMutable o.fieldCount isMutable
    fieldCount := o.fieldCount + 1 }
  have hself : (vm.toMemory.setObj r (.struct_ o')).gc.heap r = some (.struct_ o') :=
    Function.update_self ..
  have hother : ∀ r' ≠ r, (vm.toMemory.setObj r (.struct_ o')).gc.heap r' = vm.gc.heap r' :=
    fun r' hne => Function.update_of_ne hne _ _
  have hinstance : ∀ r' i, (vm.toMemory.setObj r (.struct_ o')).gc.heap r' =
      some (.instance_ i) → vm.gc.heap r' = some (.instance_ i) := by
    intro r' i hi
    by_cases heq : r' = r
    · rw [heq, hself] at hi
      cases hi
    · exact (hother r' heq).symm.trans hi
  refine ⟨⟨[], rfl, by simp⟩, fun hfits => ⟨fun r' hr' => ?_, fun r' i hi values hvalues => ?_⟩,
    fun hfits => ⟨Nat.le_refl _, fun r' o'' hlt ho'' => ?_, fun r' i hlt hi => ?_⟩,
    .setObj (by simp), .setObj hr (by simp [Obj.NoString]) (by simp [Obj.NoString])⟩
  · have hne : r' ≠ r := fun heq => absurd (hfits.lt hr) (Nat.not_lt_of_le (heq ▸ hr'))
    exact (hother r' hne).trans (hfits.fresh r' hr')
  · obtain ⟨hltStruct, hlength⟩ := hfits.fields r' i (hinstance r' i hi) values hvalues
    refine ⟨hltStruct, fun o'' ho'' => ?_⟩
    by_cases heq : i.struct_ = r
    · rw [heq, hself] at ho''
      cases ho''
      exact Nat.le_succ_of_le (hlength o (heq ▸ hr))
    · exact hlength o'' ((hother _ heq).symm.trans ho'')
  · by_cases heq : r' = r
    · rw [heq, hself] at ho''
      cases ho''
      refine ⟨o, heq ▸ hr, Nat.le_succ _, fun slot hslot => ?_⟩
      have hne : slot ≠ o.fieldCount := Nat.ne_of_lt hslot
      exact ⟨Function.update_of_ne hne _ _, Function.update_of_ne hne _ _⟩
    · exact ⟨o'', (hother r' heq).symm.trans ho'', Nat.le_refl _, fun _ _ => ⟨rfl, rfl⟩⟩
  · exact ⟨i, hinstance r' i hi, rfl, fun values hvalues => ⟨values, hvalues, rfl, fun _ _ => rfl⟩⟩

theorem setField_since {before : VM} (h : before.Goes lax vm) {r : Ref} {slot : ℕ} (value : Value)
    (hmutable : ∀ i values, vm.gc.heap r = some (.instance_ i) → i.fields = some values →
      slot < values.length → r < before.gc.nextRef → before.gc.Fits →
      before.gc.IsMutable i.struct_ slot) :
    (machineLaw lax).ObeysSince before never (setField r slot value) vm := by
  refine (((reads_instanceAt r).obeys vm).since h).bind fun i vm₁ hi _ => ?_
  obtain ⟨hread, rfl⟩ := orFault_ok hi
  refine (((reads_orFault i.fields).obeys vm₁).since h).bind fun values vm₂ hvalues _ => ?_
  obtain ⟨hfields, rfl⟩ := orFault_ok hvalues
  by_cases hslot : slot < values.length
  · rw [if_pos hslot]
    have hr := Mem.instance?_eq_some hread
    exact obeysSince_ok rfl (fun hfalse => hfalse)
      (h.setField value hr hfields (hmutable i values hr hfields hslot))
  · rw [if_neg hslot]
    exact (obeys_fault vm₂).since h

/-- `initFields` reports an error when it has no result. -/
def unprovided (result : Option (ℕ → Bool)) : Prop := result = none

/-- The fields of an instance that was not there before are set. -/
theorem initFields_since {before : VM} (struct_ : Ref) {instance_ : Ref} (pairs : ℤ) {rest : List ℕ}
    {provided : ℕ → Bool} (hnew : before.gc.nextRef ≤ instance_) (h : before.Goes lax vm) :
    (machineLaw lax).ObeysSince before unprovided (initFields struct_ instance_ pairs rest provided)
      vm := by
  induction rest generalizing vm provided with
  | nil => exact obeysSince_ok rfl (by simp [unprovided]) h
  | cons i rest ih =>
    have hfail : ∀ message vm', before.Goes lax vm' → (machineLaw lax).ObeysSince before unprovided (do
        runtimeError message
        return none) vm' := fun message vm' h' =>
      Law.ObeysFrom.since (((obeys_runtimeError message).bind_failed
        (fun _ _ => ⟨none, rfl, rfl⟩) fun _ hfalse => absurd trivial hfalse) vm') h'
    refine (((reads_asStringRef _).obeys vm).since h).bind fun field vm₁ _ h₁ => ?_
    refine (((reads_structFieldSlot _ _).obeys vm₁).since h₁).bind fun slot vm₂ _ h₂ => ?_
    rcases slot with _ | slot
    · exact (((reads_textOf _).obeys vm₂).since h₂).bind fun _ vm₃ _ h₃ => hfail _ vm₃ h₃
    · refine (((reads_structAt _).obeys vm₂).since h₂).bind fun o vm₃ _ h₃ => ?_
      refine (((reads_canAccess _ _).obeys vm₃).since h₃).bind fun b vm₄ hb h₄ => ?_
      obtain ⟨rfl, hiff⟩ := canAccess_ok hb
      cases b with
      | false =>
        exact (((reads_privateMessage _ _ _).obeys vm₄).since h₄).bind fun _ vm₅ _ h₅ =>
          hfail _ vm₅ h₅
      | true =>
        refine ((logAccess_obeys (hiff.mp rfl)).since h₄).bind fun _ vm₅ _ h₅ => ?_
        refine (setField_since h₅ _ fun _ _ _ _ _ hold => ?_).bind fun _ vm₆ _ h₆ => ih h₆
        exact absurd hold (Nat.not_lt_of_le hnew)

theorem newInstance_new {struct_ r : Ref} {memory memory' : Memory}
    (h : newInstance struct_ memory = some (r, memory')) : memory.gc.nextRef ≤ r := by
  obtain ⟨made, memory₁, h₁, h⟩ := Mem.bind_eq_some h
  obtain ⟨hnew, -, -⟩ := Mem.allocateObject_new h₁
  obtain ⟨_, memory₂, -, h⟩ := Mem.bind_eq_some h
  obtain ⟨o, memory₃, -, h⟩ := Mem.bind_eq_some h
  dsimp only at h
  split at h
  · obtain ⟨_, memory₄, -, h⟩ := Mem.bind_eq_some h
    obtain ⟨_, memory₅, -, h⟩ := Mem.bind_eq_some h
    obtain ⟨_, memory₆, -, h⟩ := Mem.bind_eq_some h
    obtain ⟨_, memory₇, -, h⟩ := Mem.bind_eq_some h
    cases h
    exact hnew
  · obtain ⟨_, memory₄, -, h⟩ := Mem.bind_eq_some h
    cases h
    exact hnew

theorem liftMem_ok {α : Type} {p : Mem α} {a : α} (h : liftMem p vm = (.ok a, vm')) :
    ∃ memory, p vm.toMemory = some (a, memory) ∧ vm' = { vm with toMemory := memory } := by
  unfold liftMem at h
  split at h
  next hp =>
    cases h
    exact ⟨_, hp, rfl⟩
  next => cases h

theorem obeys_opStructInit : (machineLaw lax).Obeys failed opStructInit := by
  refine obeys_readByte.bind fun fieldCount => obeys_read fun vm => obeys_read fun vm =>
    (reads_objectOf _).obeys.bind fun found => ?_
  rcases found with _ | ⟨struct_, o⟩
  · exact obeys_failWith _
  · cases o with
    | struct_ _ =>
      intro before
      have hinstance : (machineLaw lax).ObeysFrom never (liftMem (newInstance struct_)) before :=
        obeys_liftMem (Mem.evolving_newInstance struct_).advancing
          (Mem.interning_newInstance struct_) before
      refine (hinstance.since (VM.Goes.refl before)).bind fun instance_ vm₁ h₁ hgoes => ?_
      obtain ⟨memory, hmade, rfl⟩ := liftMem_ok h₁
      refine (initFields_since struct_ _ (newInstance_new hmade) hgoes).bind_failed ?_ ?_
      · rintro _ rfl
        exact ⟨some .runtimeError, rfl, TellsErrors.error⟩
      · intro provided vm₂ _ hprovided hgoes₂
        refine Law.ObeysFrom.since ?_ hgoes₂
        rcases provided with _ | provided
        · exact absurd rfl hprovided
        · refine ((reads_structAt struct_).obeys.bind fun o => ?_) vm₂
          cases missingField o provided with
          | some slot =>
            dsimp only
            cases structFieldName o.fields slot with
            | some name => exact (reads_textOf name).obeys.bind fun _ => obeys_failWith _
            | none => exact (reads_pure (text "?")).obeys.bind fun _ => obeys_failWith _
          | none => exact obeys_next (obeys_read fun _ => (obeys_popN _).bind fun _ => obeys_push _)
    | _ => exact obeys_failWith _

/-! ### Members -/

theorem obeys_defineMethod (name : Ref) : (machineLaw lax).Obeys refused (defineMethod name) := by
  refine (reads_peekStack _).obeys.bind fun method => (reads_peekStack _).obeys.bind fun target =>
    (reads_objectOf _).obeys.bind fun found => ?_
  rcases found with _ | ⟨struct_, o⟩
  · exact obeys_refused _
  · cases o with
    | struct_ _ =>
      refine (reads_asClosure method).obeys.bind fun closure => obeys_updateClosure closure
        (fun o => { o with owner := struct_ }) ?_
      exact (obeys_liftMem (@Mem.evolving_tableSet 0 (.methods struct_) name method).advancing
        (Mem.interning_tableSet (by simp) name method)).bind fun _ => obeys_pop.bind fun _ => obeys_true
    | _ => exact obeys_refused _

/-- A result of `bindMethod` that means that an error has been reported. -/
def unbound (result : BindResult) : Prop := result = .error

theorem obeys_bindMethod (struct_ name : Ref) :
    (machineLaw lax).Obeys unbound (bindMethod struct_ name) := by
  refine (reads_structAt struct_).obeys.bind fun o => (reads_lookup _ _).obeys.bind fun found => ?_
  rcases found with _ | value
  · exact obeys_pure (by simp [unbound])
  · refine (reads_asClosure value).obeys.bind fun method => ?_
    have hkind := reads_staticMessage "Access"
    intro vm
    refine ((reads_methodError hkind).obeys vm).bind fun error vm' herror => ?_
    obtain rfl : vm' = vm := (reads_methodError hkind).ok herror
    rcases error with _ | message
    · obtain ⟨function, hfunction, hallowed⟩ := methodError_none herror
      refine (logMethod_obeys hfunction hallowed).bind fun _ vm'' _ => ?_
      exact ((reads_peekStack _).obeys.bind fun receiver =>
        (obeys_liftMem (@Mem.evolving_newBoundMethod 0 receiver method).advancing
          (Mem.stays_newBoundMethod receiver method)).bind fun bound =>
        obeys_pop.bind fun _ => (obeys_push _).bind fun _ => obeys_pure (by simp [unbound])) vm''
    · exact ((obeys_runtimeError message).bind_failed (fun _ _ => ⟨.error, rfl, rfl⟩)
        fun _ hfalse => absurd trivial hfalse) vm'

theorem obeys_getMethod (struct_ name : Ref) : (machineLaw lax).Obeys failed (getMethod struct_ name) := by
  refine (obeys_bindMethod struct_ name).bind_failed ?_ fun result hresult => ?_
  · rintro _ rfl
    exact ⟨some .runtimeError, rfl, TellsErrors.error⟩
  · cases result with
    | notFound => exact (reads_undefinedProperty name).obeys.bind fun _ => obeys_failWith _
    | ok => exact obeys_none
    | error => exact absurd rfl hresult

theorem obeys_getStaticMethod (struct_ : Ref) : (machineLaw lax).Obeys failed (getStaticMethod struct_) := by
  refine obeys_readString.bind fun name => (reads_structAt struct_).obeys.bind fun o =>
    (reads_lookup _ _).obeys.bind fun found => ?_
  rcases found with _ | value
  · exact (reads_undefinedProperty name).obeys.bind fun _ => obeys_failWith _
  · refine (reads_asClosure value).obeys.bind fun method => ?_
    intro vm
    refine ((reads_methodError reads_instanceMessage).obeys vm).bind fun error vm' herror => ?_
    obtain rfl : vm' = vm := (reads_methodError reads_instanceMessage).ok herror
    rcases error with _ | message
    · obtain ⟨function, hfunction, hallowed⟩ := methodError_none herror
      exact next_obeysFrom ((logMethod_obeys hfunction hallowed).bind fun _ vm'' _ =>
        obeys_replaceTop value vm'')
    · exact obeys_failWith message vm'

theorem obeys_opGetProperty : (machineLaw lax).Obeys failed opGetProperty := by
  refine (reads_peekStack _).obeys.bind fun target => (reads_objectOf _).obeys.bind fun found => ?_
  rcases found with _ | ⟨r, o⟩
  · exact obeys_failWith _
  · cases o with
    | struct_ _ => exact obeys_getStaticMethod r
    | instance_ i =>
      refine obeys_readString.bind fun name => (reads_structFieldSlot _ _).obeys.bind fun slot => ?_
      rcases slot with _ | slot
      · exact obeys_getMethod _ _
      · refine (reads_structAt _).obeys.bind fun o vm => ?_
        refine ((reads_canAccess _ _).obeys vm).bind fun b vm' hb => ?_
        obtain ⟨rfl, hiff⟩ := canAccess_ok hb
        cases b with
        | true =>
          exact next_obeysFrom ((logAccess_obeys (hiff.mp rfl)).bind fun _ vm'' _ =>
            ((reads_fieldAt _ _).obeys.bind fun value => obeys_replaceTop value) vm'')
        | false =>
          refine ((reads_lookup _ _).obeys.bind fun method => ?_) vm'
          rcases method with _ | method
          · exact (reads_privateMessage _ _ _).obeys.bind fun _ => obeys_failWith _
          · exact obeys_getMethod _ _
    | _ => exact obeys_failWith _

theorem setField_mutable {r slot : ℕ} {i : ObjInstance} {o : ObjStruct} (value : Value)
    (hr : vm.gc.heap r = some (.instance_ i)) (ho : vm.gc.heap i.struct_ = some (.struct_ o))
    (hmutable : o.fieldMutable slot = true) :
    (machineLaw lax).ObeysFrom never (setField r slot value) vm := by
  refine setField_since (VM.Goes.refl vm) value fun i' values hi' hvalues hslot _ hfits => ?_
  cases hr.symm.trans hi'
  obtain ⟨-, hlength⟩ := hfits.fields r i hr values hvalues
  exact ⟨o, ho, Nat.lt_of_lt_of_le hslot (hlength o ho), hmutable⟩

theorem obeys_opSetProperty : (machineLaw lax).Obeys failed opSetProperty := by
  intro vm
  refine ((reads_peekStack _).obeys vm).bind fun target vm₁ htarget => ?_
  obtain rfl : vm₁ = vm := (reads_peekStack _).ok htarget
  refine ((reads_objectOf target).obeys vm₁).bind fun found vm₂ hfound => ?_
  obtain ⟨rfl, hobj⟩ := objectOf_ok hfound
  rcases found with _ | ⟨r, o⟩
  · exact obeys_failWith _ vm₂
  · cases o with
    | instance_ i =>
      obtain ⟨-, hr⟩ := hobj r _ rfl
      refine (obeys_readString vm₂).bind fun name vm₃ hname => ?_
      obtain ⟨frames, rfl⟩ := readString_ok hname
      refine ((reads_structFieldSlot _ _).obeys _).bind fun slot vm₄ hslot => ?_
      obtain rfl := (reads_structFieldSlot _ _).ok hslot
      rcases slot with _ | slot
      · exact ((reads_textOf _).obeys.bind fun _ => obeys_failWith _) _
      · refine ((reads_structAt _).obeys _).bind fun o vm₅ ho => ?_
        obtain ⟨hstruct, rfl⟩ := orFault_ok ho
        refine ((reads_canAccess _ _).obeys _).bind fun b vm₆ hb => ?_
        obtain ⟨rfl, hiff⟩ := canAccess_ok hb
        cases b with
        | false => exact ((reads_privateMessage _ _ _).obeys.bind fun _ => obeys_failWith _) _
        | true =>
          by_cases hmutable : o.fieldMutable slot = true
          · simp only [hmutable, Bool.not_true, Bool.false_eq_true, if_false]
            refine next_obeysFrom ((logAccess_obeys (hiff.mp rfl)).bind fun _ vm₇ hlog => ?_)
            have hgc : vm₇.gc = vm₂.gc := by
              cases hlog
              rfl
            refine ((reads_peekStack _).obeys _).bind fun value vm₈ hvalue => ?_
            obtain rfl := (reads_peekStack _).ok hvalue
            have hwrite := @setField_mutable lax vm₈ r slot i o value (hgc ▸ hr)
              (hgc ▸ GC.struct?_eq_some.mp hstruct) hmutable
            exact hwrite.bind fun _ vm₉ _ =>
              (obeys_pop.bind fun value => obeys_pop.bind fun _ => obeys_push value) vm₉
          · simp only [hmutable, Bool.not_false, if_true]
            exact ((reads_textOf _).obeys.bind fun _ => obeys_failWith _) _
    | _ => exact obeys_failWith _ vm₂

theorem obeys_opField : (machineLaw lax).Obeys failed opField := by
  refine obeys_readString.bind fun name => obeys_readByte.bind fun isPublic =>
    obeys_readByte.bind fun isMutable => (reads_peekStack _).obeys.bind fun target =>
    (reads_objectOf _).obeys.bind fun found => ?_
  rcases found with _ | ⟨r, o⟩
  · exact obeys_failWith _
  · cases o with
    | struct_ o =>
      refine (reads_lookup _ _).obeys.bind fun found => ?_
      rcases found with _ | slot
      · dsimp only
        split
        · exact obeys_failWith _
        · refine obeys_next ((obeys_liftMem (@Mem.evolving_tableSet 0 _ _ _).advancing
            (Mem.interning_tableSet (by simp) _ _)).bind fun _ vm => ?_)
          refine ((reads_structAt r).obeys vm).bind fun o' vm' ho => ?_
          obtain ⟨hread, rfl⟩ := orFault_ok ho
          have hwrite : vm'.Goes lax _ := VM.Goes.addField (isPublic != 0) (isMutable != 0)
            (GC.struct?_eq_some.mp hread)
          have hrun : (machineLaw lax).ObeysFrom never (liftMem (writeObj r (.struct_ { o' with
              fieldPublic := Function.update o'.fieldPublic o'.fieldCount (isPublic != 0)
              fieldMutable := Function.update o'.fieldMutable o'.fieldCount (isMutable != 0)
              fieldCount := o'.fieldCount + 1 }))) vm' := obeysFrom_ok rfl (fun hfalse => hfalse) hwrite
          exact hrun.bind fun _ vm'' _ =>
            (obeys_pop.bind fun _ => obeys_pure fun hfalse => hfalse) vm''
      · exact (reads_textOf _).obeys.bind fun _ => obeys_failWith _
    | _ => exact obeys_failWith _

/-! ### Lists and arrays -/

theorem obeys_opList : (machineLaw lax).Obeys failed opList := by
  refine obeys_next (obeys_readByte.bind fun count =>
    (obeys_liftMem (@Mem.evolving_newList 0).advancing Mem.stays_newList).bind fun list =>
    (obeys_push _).bind fun _ =>
    Law.Obeys.bind (obeys_forM fun i => ?_) fun _ => obeys_pop.bind fun arrayValue =>
    (obeys_popN _).bind fun _ => obeys_push _)
  exact (reads_peekStack _).obeys.bind fun value =>
    obeys_liftMem (@Mem.evolving_writeValueToListObj 0 list value).advancing
      (Mem.stays_writeValueToListObj list value)

theorem obeys_opArray : (machineLaw lax).Obeys failed opArray :=
  obeys_next (obeys_readByte.bind fun count =>
    (obeys_liftMem (@Mem.evolving_newArray 0 count.toNat).advancing
      (Mem.stays_newArray count.toNat)).bind fun array => obeys_read fun _ =>
    (obeys_liftMem (@Mem.evolving_setArrayValues 0 array _).advancing
      (Mem.stays_setArrayValues array _)).bind fun _ =>
    (obeys_popN _).bind fun _ => obeys_push _)

theorem reads_indexed (target index : Value) : Reads (indexed target index) := by
  refine (reads_objectOf target).bind fun found => ?_
  rcases found with _ | ⟨r, o⟩
  · exact reads_pure _
  · dsimp only
    cases elements o with
    | none => exact reads_pure _
    | some values =>
      cases index with
      | number kind payload =>
        dsimp only
        cases arrayPosition kind payload values.length with
        | ok i => exact reads_pure _
        | error message => exact reads_pure _
      | _ => exact reads_pure _

theorem indexed_ok {target index : Value} {r : Ref} {o : Obj} {values : List Value} {i : ℕ}
    (h : indexed target index vm = (.ok (.ok (r, o, values, i)), vm')) :
    vm.gc.heap r = some o ∧ elements o = some values := by
  obtain ⟨found, vm₁, hfound, h⟩ := bind_eq_ok h
  obtain ⟨rfl, hobj⟩ := objectOf_ok hfound
  rcases found with _ | ⟨r', o'⟩
  · cases h
  · obtain ⟨-, hr⟩ := hobj r' o' rfl
    dsimp only at h
    cases helements : elements o' with
    | none =>
      rw [helements] at h
      cases h
    | some values' =>
      rw [helements] at h
      cases index with
      | number kind payload =>
        dsimp only at h
        cases hposition : arrayPosition kind payload values'.length with
        | ok i' =>
          rw [hposition] at h
          cases h
          exact ⟨hr, helements⟩
        | error message =>
          rw [hposition] at h
          cases h
      | _ => cases h

theorem Obj.Kept.setElement (o : Obj) (i : ℕ) (value : Value) : o.Kept (setElement o i value) := by
  cases o with
  | list list => exact .list _ _
  | array array => exact .array _ _
  | _ => exact .refl _

theorem setElement_noString {o : Obj} {values : List Value} (h : elements o = some values) (i : ℕ)
    (value : Value) : (setElement o i value).NoString := by
  cases o with
  | list list => simp [setElement, Obj.NoString]
  | array array => simp [setElement, Obj.NoString]
  | _ => cases h

theorem obeys_opGetIndex : (machineLaw lax).Obeys failed opGetIndex := by
  refine obeys_pop.bind fun index => obeys_pop.bind fun target =>
    (reads_indexed target index).obeys.bind fun result => ?_
  rcases result with message | ⟨_, _, values, i⟩
  · exact obeys_failWith message
  · exact obeys_next ((reads_orFault _).obeys.bind fun value => obeys_push value)

theorem obeys_opSetIndex : (machineLaw lax).Obeys failed opSetIndex := by
  refine obeys_pop.bind fun value => obeys_pop.bind fun index => obeys_pop.bind fun target vm => ?_
  refine ((reads_indexed target index).obeys vm).bind fun result vm' hresult => ?_
  obtain rfl : vm' = vm := (reads_indexed target index).ok hresult
  rcases result with message | ⟨r, o, values, i⟩
  · exact obeys_failWith message vm'
  · dsimp only
    by_cases hi : i < values.length
    · rw [if_pos hi]
      obtain ⟨hr, helements⟩ := indexed_ok hresult
      exact next_obeysFrom ((writeObj_obeys hr (.setElement o i value)
        (setElement_noString helements i value)).bind fun _ vm'' _ => obeys_push value vm'')
    · rw [if_neg hi]
      exact next_obeysFrom (obeys_fault vm')

theorem obeys_opCloseBlockExpr (hlax : lax.upvalues = true) : (machineLaw lax).Obeys failed opCloseBlockExpr :=
  obeys_next (obeys_readByte.bind fun _ => obeys_pop.bind fun _ => obeys_read fun _ =>
    (obeys_closeUpvalues hlax _).bind fun _ => (obeys_popN _).bind fun _ => obeys_push _)

/-! ### Instructions -/

/-- The instructions that capture variables or close upvalues. -/
def movesUpvalues : OpCode → Bool
  | .closure | .closeUpvalue | .closeBlockExpr | .return_ => true
  | _ => false

/-- Every instruction that calls no value and does not return. -/
theorem obeys_execute {op : OpCode} (hcall : op ≠ .call) (hinvoke : op ≠ .invoke)
    (hreturn : op ≠ .return_) (hlax : movesUpvalues op = true → lax.upvalues = true) :
    (machineLaw lax).Obeys failed (execute host op) := by
  cases op with
  | constant => exact obeys_next (obeys_readConstant.bind fun value => obeys_push value)
  | nil => exact obeys_next (obeys_push _)
  | true_ => exact obeys_next (obeys_push _)
  | false_ => exact obeys_next (obeys_push _)
  | add => exact obeys_opAdd host
  | subtract => exact obeys_orFailed (obeys_numberBinary host _ _)
  | multiply => exact obeys_orFailed (obeys_numberBinary host _ _)
  | divide => exact obeys_orFailed (obeys_numberBinary host _ _)
  | modulo => exact obeys_orFailed (obeys_numberBinary host _ _)
  | negate => exact obeys_opNegate host
  | print => exact obeys_opPrint host
  | return_ => exact absurd rfl hreturn
  | equal => exact obeys_next (obeys_pop.bind fun _ => obeys_pop.bind fun _ => obeys_push _)
  | not_ => exact obeys_next (obeys_pop.bind fun _ => obeys_push _)
  | pop => exact obeys_next (obeys_pop.bind fun _ => obeys_pure fun hfalse => hfalse)
  | closeUpvalue =>
    exact obeys_next (obeys_read fun _ => (obeys_closeUpvalues (hlax rfl) _).bind fun _ => obeys_pop.bind fun _ =>
      obeys_pure fun hfalse => hfalse)
  | defineGlobal => exact obeys_opDefineGlobal
  | getGlobal => exact obeys_opGetGlobal
  | setGlobal => exact obeys_opSetGlobal
  | getUpvalue => exact obeys_opGetUpvalue
  | setUpvalue => exact obeys_opSetUpvalue
  | getLocal =>
    exact obeys_next (obeys_readByte.bind fun _ => obeys_read fun _ => reads_currentFrame.obeys.bind
      fun _ => obeys_push _)
  | setLocal =>
    exact obeys_next (obeys_readByte.bind fun _ => reads_currentFrame.obeys.bind fun _ =>
      (reads_peekStack _).obeys.bind fun _ => obeys_setSlot _ _)
  | jumpIfFalse => exact obeys_jumpIf _
  | jumpIfNotNil => exact obeys_jumpIf _
  | jump => exact obeys_jumpIf _
  | loop =>
    exact obeys_next (obeys_readShort.bind fun _ => reads_currentFrame.obeys.bind fun _ => obeys_setIp _)
  | greater => exact obeys_orFailed (obeys_numberCompare _)
  | less => exact obeys_orFailed (obeys_numberCompare _)
  | call => exact absurd rfl hcall
  | closure => exact obeys_opClosure (hlax rfl)
  | struct_ =>
    exact obeys_next (obeys_readString.bind fun name =>
      (obeys_liftMem (@Mem.evolving_newStruct 0 name).advancing
        (Mem.stays_newStruct name)).bind fun _ => obeys_push _)
  | structInit => exact obeys_opStructInit
  | field => exact obeys_opField
  | getProperty => exact obeys_opGetProperty
  | setProperty => exact obeys_opSetProperty
  | method => exact obeys_readString.bind fun name => obeys_orFailed (obeys_defineMethod name)
  | invoke => exact absurd rfl hinvoke
  | list => exact obeys_opList
  | getIndex => exact obeys_opGetIndex
  | setIndex => exact obeys_opSetIndex
  | closeBlockExpr => exact obeys_opCloseBlockExpr (hlax rfl)
  | cast => exact obeys_opCast host
  | array => exact obeys_opArray

/-- What the next instruction calls, when it calls a value: the value and the number of arguments.
It reads what `step` reads. -/
def calledNext : M (Option (Value × ℕ)) := do
  match OpCode.ofByte? (← readByte) with
  | some .call => do
    modify fun vm => vm.logged (.instruction .call)
    let argCount := (← readByte).toNat
    return some (← peekStack argCount, argCount)
  | some .invoke => do
    modify fun vm => vm.logged (.instruction .invoke)
    let method ← readString
    let argCount := (← readByte).toNat
    return (← invokedField method argCount).map fun value => (value, argCount)
  | _ => return none

/-- The next instruction calls `@prompt` or `@stdin`, which reports an error. -/
def VM.StepFails (vm : VM) : Prop :=
  ∃ callee argCount vm', calledNext vm = (.ok (some (callee, argCount)), vm') ∧
    vm'.CallFails callee argCount

/-- The next instruction has this opcode. -/
def VM.NextIs (vm : VM) (op : OpCode) : Prop :=
  ∃ byte vm₁, readByte vm = (.ok byte, vm₁) ∧ OpCode.ofByte? byte = some op

theorem step_call_obeys {vm₁ : VM} {byte : UInt8} (hbyte : readByte vm = (.ok byte, vm₁))
    (hop : OpCode.ofByte? byte = some .call) (h : lax.reports = true ∨ ¬ vm.StepFails) :
    (machineLaw lax).ObeysFrom failed (opCall host) (vm₁.logged (.instruction .call)) := by
  refine opCall_obeys host (h.imp_right fun hnot argCount vm' hread hfails => hnot ?_)
  refine ⟨_, argCount.toNat, vm', (bind_ok hbyte).trans ?_, hfails⟩
  rw [hop]
  exact (bind_ok hread).trans rfl

theorem step_invoke_obeys {vm₁ : VM} {byte : UInt8} (hbyte : readByte vm = (.ok byte, vm₁))
    (hop : OpCode.ofByte? byte = some .invoke) (h : lax.reports = true ∨ ¬ vm.StepFails) :
    (machineLaw lax).ObeysFrom failed (execute host .invoke) (vm₁.logged (.instruction .invoke)) := by
  refine (obeys_readString _).bind fun method vm₂ hmethod => ?_
  refine (obeys_readByte vm₂).bind fun argCount vm₃ hargCount => ?_
  refine orFailed_obeysFrom (invoke_obeys host (h.imp_right fun hnot value hinvoked hfails => hnot ?_))
  refine ⟨value, argCount.toNat, vm₃, (bind_ok hbyte).trans ?_, hfails⟩
  rw [hop]
  exact (bind_ok hmethod).trans ((bind_ok hargCount).trans ((bind_ok hinvoked).trans rfl))

/-- One instruction. -/
theorem step_obeys (h : lax.reports = true ∨ ¬ vm.StepFails)
    (hlax : ∀ op, vm.NextIs op → movesUpvalues op = true → lax.upvalues = true) :
    (machineLaw lax).ObeysFrom erred (step host) vm := by
  refine (obeys_readByte vm).bind fun byte vm₁ hbyte => ?_
  cases hop : OpCode.ofByte? byte with
  | none => exact obeys_none vm₁
  | some op =>
    have hnext := hlax op ⟨byte, vm₁, hbyte, hop⟩
    have hlogged : (machineLaw lax).ObeysFrom never
        (modify fun vm => vm.logged (.instruction op) : M Unit) vm₁ :=
      obeysFrom_modify (VM.Goes.logged (show Event.Allowed lax.reports (.instruction op) from trivial))
    refine hlogged.bind fun _ vm₂ hlog => ?_
    cases hlog
    by_cases hcall : op = .call
    · subst hcall
      exact step_call_obeys host hbyte hop h
    by_cases hinvoke : op = .invoke
    · subst hinvoke
      exact step_invoke_obeys host hbyte hop h
    by_cases hreturn : op = .return_
    · subst hreturn
      exact obeys_opReturn (hnext rfl) _
    exact obeys_execute host hcall hinvoke hreturn hnext _

/-! ### Runs -/

/-- One instruction after which there are more to come. -/
def Steps (vm vm' : VM) : Prop := step host vm = (.ok none, vm')

/-- The places of a run at which an instruction is read. -/
def Reaches : VM → VM → Prop := Relation.ReflTransGen (Steps host)

theorem run_obeys (rounds : ℕ) (hlax : lax.upvalues = true)
    (h : lax.reports = true ∨ ∀ vm', Reaches host vm vm' → ¬ vm'.StepFails) :
    (machineLaw lax).ObeysFrom erred (run host rounds) vm := by
  induction rounds generalizing vm with
  | zero => exact obeys_none vm
  | succ rounds ih =>
    have hstep : (machineLaw lax).ObeysFrom erred (step host) vm :=
      step_obeys host (h.imp_right fun hnot => hnot vm .refl) fun _ _ _ => hlax
    refine hstep.bind_failed ?_ fun result vm' hresult hgoes => ?_
    · rintro _ rfl
      exact ⟨some .runtimeError, rfl, rfl⟩
    · cases result with
      | some result => exact obeysFrom_pure hgoes
      | none => exact ih (h.imp_right fun hnot vm'' hreach => hnot vm'' (.head hresult hreach))

end KirbyLang.Vm
