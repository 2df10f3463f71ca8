import KirbyLang.StackRoom
import KirbyLang.StepLaw

/-!
# Room for instructions

What every function of the interpreter and every instruction does with the height of the stack, from
a height at which there is room for what it keeps there.

* `within_call`: a call pushes nothing, and the new frame begins below the limit;
* `within_callNative`: a native needs room for what it keeps on the stack;
* `roomFor`: the room an instruction needs; `within_execute`: one lemma for each opcode, put
  together.
-/

namespace KirbyLang.Vm

open Laws

variable {limit b c : ℕ} {vm : VM}

theorem within_room {p : Mem α} (h : p.Evolving 0) (hroom : b ≤ limit) :
    Within limit b b (liftMem p) := within_liftMem h.balancing hroom

/-! ### Results -/

section Results

variable {p : M Bool}

theorem within_orFailed (h : Within limit b c p) : Within limit b c (orFailed p) := by
  refine h.bind fun result => ?_
  cases result with
  | false => exact within_pure _ (Nat.le_refl c)
  | true => exact within_pure _ (Nat.le_refl c)

theorem within_failWith (message : Bytes) : Within limit b c (failWith message) :=
  (within_runtimeError message).bind fun _ => within_pure _ (Nat.le_refl c)

theorem within_next {p : M Unit} (h : Within limit b c p) : Within limit b c (next p) :=
  h.bind fun _ => within_pure _ (Nat.le_refl c)

end Results

/-! ### Reading instructions -/

theorem within_setIp (ip : ℤ) : Within limit b b (setIp ip) := by
  refine within_modify fun vm => ?_
  rcases vm with ⟨⟨gc, stack, stackTop, frames, globals, openUpvalues, trace⟩, world⟩
  cases frames with
  | nil => exact ⟨rfl, rfl, fun hvm => hvm.frames⟩
  | cons frame frames =>
    refine ⟨rfl, rfl, fun hvm => ⟨fun frame' hframe' => ?_, hvm.frames.2⟩⟩
    rcases List.mem_cons.mp hframe' with rfl | hframe'
    · exact hvm.frames.1 frame List.mem_cons_self
    · exact hvm.frames.1 frame' (List.mem_cons_of_mem _ hframe')

theorem within_readByte : Within limit b b readByte := by
  refine (within_reads reads_currentFrame).bind fun frame => ?_
  refine (within_reads (reads_functionOfClosure _)).bind fun function => ?_
  split
  · exact within_fault
  · exact (within_reads (reads_orFault _)).bind fun _ => (within_setIp _).bind fun _ =>
      within_pure _ (Nat.le_refl b)

theorem within_readShort : Within limit b b readShort :=
  within_readByte.bind fun _ => within_readByte.bind fun _ => within_pure _ (Nat.le_refl b)

theorem within_readConstant : Within limit b b readConstant :=
  within_readByte.bind fun _ => (within_reads reads_currentFrame).bind fun _ =>
    (within_reads (reads_functionOfClosure _)).bind fun _ => within_reads (reads_orFault _)

theorem within_readString : Within limit b b readString :=
  within_readConstant.bind fun value => within_reads (reads_asStringRef value)

/-! ### Upvalues -/

theorem within_captureUpvalue (slot : ℤ) (hb : b ≤ limit) :
    Within limit b b (captureUpvalue slot) := by
  have hcreate : ∀ above rest, Within limit b b (captureUpvalue.create slot above rest) := by
    intro above rest
    refine (within_liftMem (Mem.balancing_newUpvalue slot) hb).bind fun upvalue => ?_
    refine Within.bind (within_modify fun vm => ?_) fun _ => within_pure _ (Nat.le_refl b)
    exact ⟨rfl, rfl, fun hvm => hvm.frames⟩
  refine within_read fun vm => ?_
  dsimp only
  split
  · split
    · exact within_pure _ (Nat.le_refl b)
    · exact hcreate _ _
  · exact hcreate _ _

theorem closeUpvaluesLoop_stack (last : ℤ) (upvalues : List Ref) (memory : Memory) :
    (closeUpvaluesLoop last upvalues memory).trace = memory.trace ∧
      (closeUpvaluesLoop last upvalues memory).stackTop = memory.stackTop ∧
      (closeUpvaluesLoop last upvalues memory).frames = memory.frames := by
  induction upvalues generalizing memory with
  | nil => exact ⟨rfl, rfl, rfl⟩
  | cons upvalue rest ih =>
    unfold closeUpvaluesLoop
    cases memory.gc.upvalueSlot upvalue with
    | none => exact ⟨rfl, rfl, rfl⟩
    | some slot =>
      by_cases hle : last ≤ slot
      · simp only [if_pos hle]
        exact ih _
      · simp only [if_neg hle]
        exact ⟨trivial, trivial, trivial⟩

theorem within_closeUpvalues (last : ℤ) : Within limit b b (closeUpvalues last) := by
  refine within_modify fun vm => ?_
  obtain ⟨htrace, htop, hframes⟩ := closeUpvaluesLoop_stack last vm.openUpvalues vm.toMemory
  exact ⟨htrace, htop, fun hvm => hframes ▸ hvm.frames⟩

theorem within_writeUpvalue (upvalue : Ref) (value : Value) (hb : b ≤ limit) :
    Within limit b b (writeUpvalue upvalue value) := by
  refine (within_reads (reads_upvalueAt upvalue)).bind fun o => ?_
  cases o.location with
  | stack slot => exact within_setSlot _ _
  | closed => exact within_liftMem (Mem.balancing_writeObj _ _) hb

/-! ### Operators -/

theorem within_concatenate (hb : b + 1 ≤ limit) : Within limit b limit concatenate := by
  refine (within_reads (reads_peekStack _)).bind fun b' => (within_reads (reads_asStringRef b')).bind
    fun rb => (within_reads (reads_stringAt rb)).bind fun sb => (within_reads (reads_peekStack _)).bind
    fun a => (within_reads (reads_asStringRef a)).bind fun ra => (within_reads (reads_stringAt ra)).bind
    fun sa => ?_
  dsimp only
  split
  · exact within_fault
  · exact (within_room (Mem.evolving_reallocate _ _) (by omega)).bind fun _ =>
      (within_liftMem (Mem.evolving_takeString _).balancing hb).bind fun _ => within_pop.bind fun _ =>
      within_pop.bind fun _ => (within_push _ (by omega)).mono (by omega)

/-- Two values give way to one. -/
theorem within_replaceTwo (value : Value) (hb : b ≤ limit) (hlimit : 1 ≤ limit) :
    Within limit b limit (do
      let _ ← pop
      let _ ← pop
      push value
      return true) :=
  within_pop.bind fun _ => within_pop.bind fun _ => (within_push value (by omega)).bind fun _ =>
    within_pure _ (by omega)

theorem within_replaceTop (value : Value) (hb : b ≤ limit) (hlimit : 1 ≤ limit) :
    Within limit b limit (do
      let _ ← pop
      push value) :=
  within_pop.bind fun _ => (within_push value (by omega)).mono (by omega)

variable (host : Host)

theorem within_assertNonZeroNumber (function : String) (kind : NumberKind) (payload : NumberPayload)
    (index : ℤ) : Within limit b b (assertNonZeroNumber host function kind payload index) := by
  unfold assertNonZeroNumber
  split
  · exact within_pure _ (Nat.le_refl b)
  · exact within_die _

theorem within_numberBinary (op : NumberOp) (mismatchMessage : Bytes) (hb : b ≤ limit)
    (hlimit : 1 ≤ limit) : Within limit b limit (numberBinary host op mismatchMessage) := by
  refine (within_reads (reads_peekStack _)).bind fun value => (within_reads (reads_peekStack _)).bind
    fun value' => ?_
  split
  next => exact within_refuse _
  next kind x y _ =>
    dsimp only
    by_cases hzero : op = .divide ∨ (op = .modulo ∧ kind.info.isFloat = false)
    · rw [if_pos hzero]
      refine (within_assertNonZeroNumber host _ _ _ _).bind fun _ => ?_
      cases numberArithmetic host.libc kind op x y with
      | none => exact within_refuse _
      | some result => exact within_replaceTwo _ hb hlimit
    · rw [if_neg hzero]
      cases numberArithmetic host.libc kind op x y with
      | none => exact within_refuse _
      | some result => exact within_replaceTwo _ hb hlimit

theorem within_numberCompare (greater : Bool) (hb : b ≤ limit) (hlimit : 1 ≤ limit) :
    Within limit b limit (numberCompare greater) := by
  refine (within_reads (reads_peekStack _)).bind fun value => (within_reads (reads_peekStack _)).bind
    fun value' => ?_
  split
  · exact within_refuse _
  · exact within_replaceTwo _ hb hlimit

theorem within_castNumber (source : NumberKind) (payload : NumberPayload) (target : NumberKind)
    (hb : b + 1 ≤ limit) : Within limit b limit (castNumber host source payload target) := by
  unfold castNumber
  dsimp only
  split
  · exact (within_push _ hb).bind fun _ => within_pure _ hb
  · split
    · exact within_refuse _
    · exact within_refuse _

theorem within_opAdd (hb : b + 1 ≤ limit) : Within limit b limit (opAdd host) := by
  refine (within_reads (reads_peekStack _)).bind fun value => (within_reads (reads_objectOf value)).bind
    fun _ => (within_reads (reads_peekStack _)).bind fun value' =>
    (within_reads (reads_objectOf value')).bind fun _ => ?_
  split
  · exact within_next (within_concatenate hb)
  · exact within_orFailed (within_numberBinary host _ _ (by omega) (by omega))

theorem within_opNegate (hb : b ≤ limit) (hlimit : 1 ≤ limit) :
    Within limit b limit (opNegate host) := by
  refine (within_reads (reads_peekStack _)).bind fun value => ?_
  cases value with
  | number kind payload =>
    dsimp only
    cases numberNegateValue kind payload with
    | none => exact within_failWith _
    | some result => exact within_next (within_replaceTop _ hb hlimit)
  | _ => exact within_failWith _

theorem within_opCast (hb : b ≤ limit) (hlimit : 1 ≤ limit) : Within limit b limit (opCast host) := by
  refine within_readByte.bind fun target => within_pop.bind fun value => ?_
  cases NumberKind.ofByte? target with
  | none => exact within_failWith _
  | some target =>
    cases value with
    | number kind payload => exact within_orFailed (within_castNumber host _ _ _ (by omega))
    | _ => exact within_failWith _

theorem within_opPrint (hb : b ≤ limit) : Within limit b limit (opPrint host) := by
  refine within_next (within_pop.bind fun value => (within_reads (reads_printedText _ _ _)).bind
    fun printed => ?_)
  refine (within_modify fun vm => ?_).mono (by omega)
  exact ⟨rfl, rfl, fun hvm => hvm.frames⟩

/-! ### Calls -/

/-- A frame that is entered is one more than there were, of which there are less than
`FRAMES_MAX`. -/
theorem within_call (closure : Ref) (argCount : ℕ) (hb : b ≤ limit) :
    Within limit b b (call closure argCount) := by
  refine (within_reads (reads_functionOfClosure closure)).bind fun function => ?_
  split
  · exact within_refuse _
  · refine triple_get fun vm hvm => ?_
    by_cases hfull : vm.frames.length = framesMax
    · rw [if_pos hfull]
      exact (within_refuse _).from hvm
    · rw [if_neg hfull]
      intro vm' hsame
      obtain rfl : vm' = vm := hsame
      have htop := hvm.stackTop
      refine ⟨.ofSame rfl, htop, fun frame hframe => ?_, ?_⟩
      · rcases List.mem_cons.mp hframe with rfl | hframe
        · show vm'.stackTop - argCount - 1 < limit
          omega
        · exact hvm.frames.1 frame hframe
      · have hle := hvm.frames.2
        show vm'.frames.length + 1 ≤ framesMax
        omega

/-- The natives that the interpreter finds keep at most two values on the stack. -/
theorem findNative_depth {function : Bytes} {native : Native}
    (h : findNative host function = some native) : native.DepthAtMost 2 := by
  obtain ⟨definition, hfind, rfl⟩ := Option.map_eq_some_iff.mp h
  exact natives_depth host.libc host.version definition (List.mem_of_find?_eq_some hfind)

theorem within_native {native : Native} {argCount : ℕ} {args : ℕ → Value}
    (h : native.DepthAtMost 2) (hb : b + 2 ≤ limit) :
    Within limit b b (native.run host.libc argCount args) := by
  cases native with
  | stops fn => exact within_prog host.libc (h argCount args) hb
  | goesOn fn => exact within_prog host.libc (h argCount args) hb

theorem within_callNative (native : ObjNative) (argCount : ℕ) (hb : b + 2 ≤ limit) :
    Within limit b limit (callNative host native argCount) := by
  refine within_read fun vm => ?_
  split
  next => exact within_fault
  next native' hfind =>
    refine (within_native host (findNative_depth host hfind) hb).bind fun result => ?_
    -- the arguments and the callee give way to the result
    refine (within_popped (c := b) _ fun vm hvm => by omega).bind fun _ => ?_
    exact (within_push result (by omega)).bind fun _ => within_pure _ (by omega)

theorem within_callValue (callee : Value) (argCount : ℕ) (hb : b + 2 ≤ limit) :
    Within limit b limit (callValue host callee argCount) := by
  refine (within_reads (reads_objectOf callee)).bind fun found => ?_
  rcases found with _ | ⟨r, o⟩
  · exact within_refuse _
  · cases o with
    | boundMethod bound =>
      exact within_read fun vm => (within_setSlot _ _).bind fun _ =>
        (within_call _ _ (by omega)).mono (by omega)
    | closure closure => exact (within_call _ _ (by omega)).mono (by omega)
    | native native => exact within_callNative host native argCount hb
    | _ => exact within_refuse _

theorem within_logAccess (struct_ : Ref) (isPublic : Bool) :
    Within limit b b (logAccess struct_ isPublic) :=
  triple_modify (fun _ _ => .logged (show Event.UpTo limit (.access _ _ _) from trivial))
    fun _ hvm => ⟨hvm.stackTop, hvm.frames⟩

theorem within_logMethod (struct_ method : Ref) : Within limit b b (logMethod struct_ method) :=
  (within_reads (reads_functionOfClosure method)).bind fun _ => within_logAccess _ _

theorem within_invokeMethod {isStatic : Bool} {wrongKind : Ref → Ref → M Bytes}
    (hkind : ∀ name struct_, Reads (wrongKind name struct_)) (struct_ name : Ref) (argCount : ℕ)
    (hb : b ≤ limit) : Within limit b b (invokeMethod isStatic wrongKind struct_ name argCount) := by
  refine (within_reads (reads_structAt struct_)).bind fun o => (within_reads (reads_lookup _ _)).bind
    fun found => ?_
  rcases found with _ | value
  · exact (within_reads (reads_undefinedProperty name)).bind fun _ => within_refuse _
  · refine (within_reads (reads_asClosure value)).bind fun method =>
      (within_reads (reads_methodError hkind)).bind fun error => ?_
    rcases error with _ | message
    · exact (within_logMethod _ _).bind fun _ => within_call _ _ hb
    · exact within_refuse message

theorem within_invokeFromStruct (struct_ name : Ref) (argCount : ℕ) (hb : b ≤ limit) :
    Within limit b b (invokeFromStruct struct_ name argCount) :=
  within_invokeMethod (reads_staticMessage "Call") struct_ name argCount hb

theorem within_invokeStatic (struct_ name : Ref) (argCount : ℕ) (hb : b ≤ limit) :
    Within limit b b (invokeStatic struct_ name argCount) :=
  within_invokeMethod reads_instanceMessage struct_ name argCount hb

theorem within_invoke (name : Ref) (argCount : ℕ) (hb : b + 2 ≤ limit) :
    Within limit b limit (invoke host name argCount) := by
  refine (within_reads (reads_peekStack argCount)).bind fun receiver =>
    (within_reads (reads_objectOf receiver)).bind fun found => ?_
  rcases found with _ | ⟨r, o⟩
  · exact within_refuse _
  · cases o with
    | struct_ o => exact (within_invokeStatic _ _ _ (by omega)).mono (by omega)
    | instance_ instance_ =>
      refine (within_reads (reads_structFieldSlot _ _)).bind fun slot => ?_
      rcases slot with _ | slot
      · exact (within_invokeFromStruct _ _ _ (by omega)).mono (by omega)
      · refine (within_reads (reads_structAt _)).bind fun struct_ =>
          (within_reads (reads_canAccess _ _)).bind fun accessible => ?_
        cases accessible with
        | false =>
          refine (within_reads (reads_lookup _ _)).bind fun method => ?_
          rcases method with _ | method
          · exact (within_reads (reads_privateMessage _ _ _)).bind fun _ => within_refuse _
          · exact (within_invokeFromStruct _ _ _ (by omega)).mono (by omega)
        | true =>
          exact (within_logAccess _ _).bind fun _ => (within_reads (reads_fieldAt _ _)).bind
            fun value => within_read fun vm => (within_setSlot _ _).bind fun _ =>
            within_callValue host value argCount hb
    | _ => exact within_refuse _

theorem within_opCall (hb : b + 2 ≤ limit) : Within limit b limit (opCall host) :=
  within_readByte.bind fun _ => (within_reads (reads_peekStack _)).bind fun callee =>
    within_orFailed (within_callValue host callee _ hb)

/-! ### Functions -/

/-- A frame that is running begins below the limit. -/
theorem triple_currentFrame : (stackLaw limit).Triple (VM.Below limit b) currentFrame
    fun frame vm => frame.slots < limit ∧ vm.Below limit b := by
  intro vm hvm
  rcases hrun : currentFrame vm with ⟨e | frame, vm'⟩
  · obtain rfl : vm' = vm := by simpa [hrun] using reads_currentFrame vm
    exact .ofSame rfl
  · obtain ⟨hframe, rfl⟩ := orFault_ok hrun
    exact ⟨.ofSame rfl, hvm.frames.1 frame (List.mem_of_head? hframe), hvm⟩

theorem within_opReturn (hb : b ≤ limit) (hlimit : 1 ≤ limit) : Within limit b limit opReturn := by
  refine Law.Triple.bind triple_currentFrame fun frame vm ⟨hslots, hvm⟩ => ?_
  have hrest : Within limit b limit (do
      let result ← pop
      closeUpvalues frame.slots
      modify fun vm => { vm with frames := vm.frames.tail }
      if (← get).frames = [] then
        let _ ← pop
        return some .ok
      else next do
        popN ((← get).stackTop - frame.slots)
        push result) := by
    refine within_pop.bind fun result => (within_closeUpvalues _).bind fun _ => ?_
    refine Within.bind (within_modify fun vm => ⟨rfl, rfl, fun hvm => ⟨fun frame hframe => ?_, ?_⟩⟩)
      fun _ => within_read fun vm => ?_
    · exact hvm.frames.1 frame (List.mem_of_mem_tail hframe)
    · exact Nat.le_trans (by simp) hvm.frames.2
    · split
      · exact within_pop.bind fun _ => within_pure _ (by omega)
      · have hpush : Within limit (limit - 1) limit (push result) :=
          (within_push result (by omega)).mono (by omega)
        exact within_next (within_popTo (by omega) hpush)
  exact hrest vm hvm

theorem within_captureLoop (frame : CallFrame) (closure : Ref) (i : ℕ) (hb : b ≤ limit) :
    Within limit b b (captureLoop frame closure i) := by
  have hwrite : ∀ upvalue, Within limit b b (do
      let o ← closureAt closure
      liftMem (writeObj closure (.closure { o with upvalues := o.upvalues.set i upvalue }))) :=
    fun upvalue => (within_reads (reads_closureAt closure)).bind fun o =>
      within_liftMem (Mem.balancing_writeObj _ _) hb
  refine within_readByte.bind fun isLocal => within_readByte.bind fun index => ?_
  dsimp only
  split
  · exact (within_captureUpvalue _ hb).bind fun upvalue => hwrite upvalue
  · exact (within_reads (reads_upvalueOf _ _)).bind fun upvalue => hwrite upvalue

theorem within_opClosure (hb : b + 1 ≤ limit) : Within limit b limit opClosure := by
  refine within_next (within_readConstant.bind fun value => ?_)
  cases value with
  | obj function =>
    refine (within_reads reads_currentFrame).bind fun frame =>
      (within_room (Mem.evolving_newClosure function) (by omega)).bind fun closure =>
      (within_reads (reads_closureAt _)).bind fun running =>
      (within_reads (reads_closureAt closure)).bind fun o =>
      (within_liftMem (Mem.balancing_writeObj _ _) (by omega)).bind fun _ => ?_
    exact (within_push _ hb).bind fun _ =>
      (within_forM fun i => within_captureLoop frame closure i hb).mono hb
  | _ => exact within_fault

theorem within_opGetUpvalue (hb : b + 1 ≤ limit) : Within limit b limit opGetUpvalue :=
  within_next (within_readByte.bind fun _ => (within_reads reads_currentFrame).bind fun _ =>
    (within_reads (reads_upvalueOf _ _)).bind fun upvalue =>
    (within_reads (reads_readUpvalue upvalue)).bind fun value => (within_push value hb).mono hb)

theorem within_opSetUpvalue (hb : b ≤ limit) : Within limit b limit opSetUpvalue :=
  within_next (within_readByte.bind fun _ => (within_reads reads_currentFrame).bind fun _ =>
    (within_reads (reads_upvalueOf _ _)).bind fun upvalue => (within_reads (reads_peekStack _)).bind
    fun value => (within_writeUpvalue upvalue value hb).mono hb)

/-! ### Globals and jumps -/

theorem within_opGetGlobal (hb : b + 1 ≤ limit) : Within limit b limit opGetGlobal := by
  refine within_readString.bind fun name => within_read fun vm =>
    (within_reads (reads_lookup _ _)).bind fun found => ?_
  rcases found with _ | value
  · exact (within_reads (reads_textOf _)).bind fun _ => within_failWith _
  · exact within_next ((within_push value hb).mono hb)

theorem within_opSetGlobal (hb : b ≤ limit) : Within limit b limit opSetGlobal := by
  refine within_readString.bind fun name => (within_reads (reads_peekStack _)).bind fun value =>
    (within_room (Mem.evolving_tableSet .globals name value) hb).bind fun isNewKey => ?_
  cases isNewKey with
  | false => exact within_pure _ hb
  | true =>
    refine within_read fun vm => (within_reads (reads_orFault _)).bind fun deleted => ?_
    refine Within.bind (within_modify fun vm => ⟨rfl, rfl, fun hvm => hvm.frames⟩) fun _ => ?_
    exact (within_reads (reads_textOf _)).bind fun _ => within_failWith _

theorem within_opDefineGlobal (hb : b ≤ limit) : Within limit b limit opDefineGlobal :=
  within_next (within_readString.bind fun name => (within_reads (reads_peekStack _)).bind fun value =>
    (within_room (Mem.evolving_tableSet .globals name value) hb).bind fun _ => within_pop.bind fun _ =>
    within_pure _ (by omega))

theorem within_jumpIf (condition : Value → Bool) (hb : b ≤ limit) :
    Within limit b limit (jumpIf condition) := by
  refine within_next (within_readShort.bind fun jumpOffset =>
    (within_reads (reads_peekStack _)).bind fun value => ?_)
  split
  · exact (within_reads reads_currentFrame).bind fun _ => (within_setIp _).mono hb
  · exact within_pure _ hb

/-! ### Structs and instances -/

theorem within_setField (instance_ : Ref) (slot : ℕ) (value : Value) (hb : b ≤ limit) :
    Within limit b b (setField instance_ slot value) := by
  refine (within_reads (reads_instanceAt instance_)).bind fun o =>
    (within_reads (reads_orFault _)).bind fun fields => ?_
  split
  · exact within_liftMem (Mem.balancing_writeObj _ _) hb
  · exact within_fault

theorem within_initFields (struct_ instance_ : Ref) (pairs : ℤ) (rest : List ℕ) (provided : ℕ → Bool)
    (hb : b ≤ limit) : Within limit b b (initFields struct_ instance_ pairs rest provided) := by
  induction rest generalizing provided with
  | nil => exact within_pure _ (Nat.le_refl b)
  | cons i rest ih =>
    have hfail : ∀ message, Within limit b b (do
        runtimeError message
        return none : M (Option (ℕ → Bool))) := fun message =>
      (within_runtimeError message).bind fun _ => within_pure _ (Nat.le_refl b)
    refine within_read fun vm => (within_reads (reads_asStringRef _)).bind fun field =>
      (within_reads (reads_structFieldSlot _ _)).bind fun slot => ?_
    rcases slot with _ | slot
    · exact (within_reads (reads_textOf _)).bind fun _ => hfail _
    · refine (within_reads (reads_structAt _)).bind fun o =>
        (within_reads (reads_canAccess _ _)).bind fun accessible => ?_
      cases accessible with
      | false => exact (within_reads (reads_privateMessage _ _ _)).bind fun _ => hfail _
      | true =>
        exact (within_logAccess _ _).bind fun _ => within_read fun vm =>
          (within_setField _ _ _ hb).bind fun _ => ih _

/-- The end of `OP_STRUCT_INIT`: the struct and the pairs give way to the instance. -/
theorem within_finishInit {struct_ instance_ : Ref} {pairs : ℤ} {provided : ℕ → Bool}
    (hpairs : pairs ≤ limit) (hlimit : 1 ≤ limit) : Within limit b limit (do
      let o ← structAt struct_
      match missingField o provided with
      | some slot => do
        let name ← match structFieldName o.fields slot with
          | some name => textOf name
          | none => pure (text "?")
        failWith (text "Missing required field '" ++ name ++ text "'.")
      | none => next do
        popN ((← get).stackTop - (pairs - 1))
        push (.obj instance_)) := by
  refine (within_reads (reads_structAt struct_)).bind fun o => ?_
  cases missingField o provided with
  | some slot =>
    dsimp only
    cases structFieldName o.fields slot with
    | some name => exact (within_reads (reads_textOf name)).bind fun _ => within_failWith _
    | none => exact (within_reads (reads_pure (text "?"))).bind fun _ => within_failWith _
  | none =>
    have hpush : Within limit (limit - 1) limit (push (.obj instance_)) :=
      (within_push _ (by omega)).mono (by omega)
    exact within_next (within_popTo (by omega) hpush)

theorem within_opStructInit (hb : b + 1 ≤ limit) : Within limit b limit opStructInit := by
  refine within_readByte.bind fun fieldCount => triple_get fun vm hvm => ?_
  have htop := hvm.stackTop
  refine Within.from (b := b) ?_ hvm
  refine within_read fun vm' => (within_reads (reads_objectOf _)).bind fun found => ?_
  rcases found with _ | ⟨struct_, o⟩
  · exact within_failWith _
  · cases o with
    | struct_ _ =>
      refine (within_liftMem (Mem.evolving_newInstance struct_).balancing hb).bind fun instance_ =>
        (within_initFields struct_ instance_ _ _ _ (by omega)).bind fun provided => ?_
      rcases provided with _ | provided
      · exact within_pure _ (by omega)
      · exact within_finishInit (by omega) (by omega)
    | _ => exact within_failWith _

theorem within_defineMethod (name : Ref) (hb : b ≤ limit) : Within limit b b (defineMethod name) := by
  refine (within_reads (reads_peekStack _)).bind fun method => (within_reads (reads_peekStack _)).bind
    fun target => (within_reads (reads_objectOf _)).bind fun found => ?_
  rcases found with _ | ⟨struct_, o⟩
  · exact within_refuse _
  · cases o with
    | struct_ _ =>
      exact (within_reads (reads_asClosure method)).bind fun closure =>
        (within_reads (reads_closureAt closure)).bind fun o =>
        (within_liftMem (Mem.balancing_writeObj _ _) hb).bind fun _ =>
        (within_room (Mem.evolving_tableSet (.methods struct_) name method) hb).bind fun _ =>
        within_pop.bind fun _ => within_pure _ (by omega)
    | _ => exact within_refuse _

theorem within_bindMethod (struct_ name : Ref) (hb : b ≤ limit) (hlimit : 1 ≤ limit) :
    Within limit b limit (bindMethod struct_ name) := by
  refine (within_reads (reads_structAt struct_)).bind fun o => (within_reads (reads_lookup _ _)).bind
    fun found => ?_
  rcases found with _ | value
  · exact within_pure _ hb
  · refine (within_reads (reads_asClosure value)).bind fun method =>
      (within_reads (reads_methodError (reads_staticMessage "Access"))).bind fun error => ?_
    rcases error with _ | message
    · exact (within_logMethod _ _).bind fun _ => (within_reads (reads_peekStack _)).bind fun receiver =>
        (within_room (Mem.evolving_newBoundMethod receiver method) hb).bind fun bound =>
        within_pop.bind fun _ => (within_push _ (by omega)).bind fun _ => within_pure _ (by omega)
    · exact (within_runtimeError message).bind fun _ => within_pure _ (Nat.le_refl limit)

theorem within_getMethod (struct_ name : Ref) (hb : b ≤ limit) (hlimit : 1 ≤ limit) :
    Within limit b limit (getMethod struct_ name) := by
  refine (within_bindMethod struct_ name hb hlimit).bind fun result => ?_
  cases result with
  | notFound => exact (within_reads (reads_undefinedProperty name)).bind fun _ => within_failWith _
  | ok => exact within_pure _ (Nat.le_refl limit)
  | error => exact within_pure _ (Nat.le_refl limit)

theorem within_getStaticMethod (struct_ : Ref) (hb : b ≤ limit) (hlimit : 1 ≤ limit) :
    Within limit b limit (getStaticMethod struct_) := by
  refine within_readString.bind fun name => (within_reads (reads_structAt struct_)).bind fun o =>
    (within_reads (reads_lookup _ _)).bind fun found => ?_
  rcases found with _ | value
  · exact (within_reads (reads_undefinedProperty name)).bind fun _ => within_failWith _
  · refine (within_reads (reads_asClosure value)).bind fun method =>
      (within_reads (reads_methodError reads_instanceMessage)).bind fun error => ?_
    rcases error with _ | message
    · exact within_next ((within_logMethod _ _).bind fun _ => within_replaceTop value hb hlimit)
    · exact within_failWith message

theorem within_opGetProperty (hb : b ≤ limit) (hlimit : 1 ≤ limit) :
    Within limit b limit opGetProperty := by
  refine (within_reads (reads_peekStack _)).bind fun target => (within_reads (reads_objectOf _)).bind
    fun found => ?_
  rcases found with _ | ⟨r, o⟩
  · exact within_failWith _
  · cases o with
    | struct_ _ => exact within_getStaticMethod r hb hlimit
    | instance_ i =>
      refine within_readString.bind fun name => (within_reads (reads_structFieldSlot _ _)).bind
        fun slot => ?_
      rcases slot with _ | slot
      · exact within_getMethod _ _ hb hlimit
      · refine (within_reads (reads_structAt _)).bind fun o =>
          (within_reads (reads_canAccess _ _)).bind fun accessible => ?_
        cases accessible with
        | true =>
          exact within_next ((within_logAccess _ _).bind fun _ => (within_reads (reads_fieldAt _ _)).bind
            fun value => within_replaceTop value hb hlimit)
        | false =>
          refine (within_reads (reads_lookup _ _)).bind fun method => ?_
          rcases method with _ | method
          · exact (within_reads (reads_privateMessage _ _ _)).bind fun _ => within_failWith _
          · exact within_getMethod _ _ hb hlimit
    | _ => exact within_failWith _

theorem within_opSetProperty (hb : b ≤ limit) (hlimit : 1 ≤ limit) :
    Within limit b limit opSetProperty := by
  refine (within_reads (reads_peekStack _)).bind fun target => (within_reads (reads_objectOf _)).bind
    fun found => ?_
  rcases found with _ | ⟨r, o⟩
  · exact within_failWith _
  · cases o with
    | instance_ i =>
      refine within_readString.bind fun name => (within_reads (reads_structFieldSlot _ _)).bind
        fun slot => ?_
      rcases slot with _ | slot
      · exact (within_reads (reads_textOf _)).bind fun _ => within_failWith _
      · refine (within_reads (reads_structAt _)).bind fun o =>
          (within_reads (reads_canAccess _ _)).bind fun accessible => ?_
        cases accessible with
        | false => exact (within_reads (reads_privateMessage _ _ _)).bind fun _ => within_failWith _
        | true =>
          by_cases hmutable : o.fieldMutable slot = true
          · simp only [hmutable, Bool.not_true, Bool.false_eq_true, if_false]
            exact within_next ((within_logAccess _ _).bind fun _ =>
              (within_reads (reads_peekStack _)).bind fun value => (within_setField _ _ _ hb).bind
              fun _ => within_pop.bind fun value => within_pop.bind fun _ =>
              (within_push value (by omega)).mono (by omega))
          · simp only [hmutable, Bool.not_false, if_true]
            exact (within_reads (reads_textOf _)).bind fun _ => within_failWith _
    | _ => exact within_failWith _

theorem within_opField (hb : b ≤ limit) : Within limit b limit opField := by
  refine within_readString.bind fun name => within_readByte.bind fun isPublic =>
    within_readByte.bind fun isMutable => (within_reads (reads_peekStack _)).bind fun target =>
    (within_reads (reads_objectOf _)).bind fun found => ?_
  rcases found with _ | ⟨r, o⟩
  · exact within_failWith _
  · cases o with
    | struct_ o =>
      refine (within_reads (reads_lookup _ _)).bind fun found => ?_
      rcases found with _ | slot
      · dsimp only
        split
        · exact within_failWith _
        · exact within_next ((within_room (Mem.evolving_tableSet _ _ _) hb).bind fun _ =>
            (within_reads (reads_structAt r)).bind fun o' =>
            (within_liftMem (Mem.balancing_writeObj _ _) hb).bind fun _ => within_pop.bind fun _ =>
            within_pure _ (by omega))
      · exact (within_reads (reads_textOf _)).bind fun _ => within_failWith _
    | _ => exact within_failWith _

/-! ### Lists and arrays -/

theorem within_opList (hb : b + 1 ≤ limit) : Within limit b limit opList := by
  have happend : ∀ (list : Ref) (i : ℕ), Within limit (b + 1) (b + 1) (do
      liftMem (writeValueToListObj list (← peekStack (i + 1)))) := fun list i =>
    (within_reads (reads_peekStack _)).bind fun value =>
      within_room (Mem.evolving_writeValueToListObj list value) hb
  exact within_next (within_readByte.bind fun count =>
    (within_room Mem.evolving_newList (by omega)).bind fun list => (within_push _ hb).bind fun _ =>
    (within_forM (happend list)).bind fun _ => within_pop.bind fun arrayValue =>
    (within_popN _).bind fun _ => (within_push _ (by omega)).mono (by omega))

theorem within_opArray (hb : b + 1 ≤ limit) : Within limit b limit opArray :=
  within_next (within_readByte.bind fun count =>
    (within_room (Mem.evolving_newArray count.toNat) (by omega)).bind fun array =>
    within_read fun _ => (within_room (Mem.evolving_setArrayValues array _) (by omega)).bind fun _ =>
    (within_popN _).bind fun _ => (within_push _ (by omega)).mono (by omega))

theorem within_opGetIndex (hb : b ≤ limit) (hlimit : 1 ≤ limit) :
    Within limit b limit opGetIndex := by
  refine within_pop.bind fun index => within_pop.bind fun target =>
    (within_reads (reads_indexed target index)).bind fun result => ?_
  rcases result with message | ⟨_, _, values, i⟩
  · exact within_failWith message
  · exact within_next ((within_reads (reads_orFault _)).bind fun value =>
      (within_push value (by omega)).mono (by omega))

theorem within_opSetIndex (hb : b ≤ limit) (hlimit : 1 ≤ limit) :
    Within limit b limit opSetIndex := by
  refine within_pop.bind fun value => within_pop.bind fun index => within_pop.bind fun target =>
    (within_reads (reads_indexed target index)).bind fun result => ?_
  rcases result with message | ⟨r, o, values, i⟩
  · exact within_failWith message
  · refine within_next ?_
    split
    · exact (within_liftMem (Mem.balancing_writeObj _ _) (by omega)).bind fun _ =>
        (within_push value (by omega)).mono (by omega)
    · exact within_fault

theorem within_opCloseBlockExpr (hb : b ≤ limit) (hlimit : 1 ≤ limit) :
    Within limit b limit opCloseBlockExpr :=
  within_next (within_readByte.bind fun _ => within_pop.bind fun _ => within_read fun _ =>
    (within_closeUpvalues _).bind fun _ => (within_popN _).bind fun _ =>
    (within_push _ (by omega)).mono (by omega))

/-! ### Instructions -/

/-- The room an instruction needs on the stack: for what it pushes before it pops, for the strings and
instances that are on the stack while they are made, and for what a native keeps there that it
calls. -/
def roomFor : OpCode → ℕ
  | .constant | .nil | .true_ | .false_ | .add | .getGlobal | .getUpvalue | .getLocal | .closure
  | .struct_ | .structInit | .list | .array => 1
  | .call | .invoke => 2
  | _ => 0

theorem within_execute {op : OpCode} (hb : b + roomFor op ≤ limit) (hlimit : 1 ≤ limit) :
    Within limit b limit (execute host op) := by
  cases op with
  | constant =>
    exact within_next (within_readConstant.bind fun value => (within_push value hb).mono hb)
  | nil => exact within_next ((within_push _ hb).mono hb)
  | true_ => exact within_next ((within_push _ hb).mono hb)
  | false_ => exact within_next ((within_push _ hb).mono hb)
  | add => exact within_opAdd host hb
  | subtract => exact within_orFailed (within_numberBinary host _ _ hb hlimit)
  | multiply => exact within_orFailed (within_numberBinary host _ _ hb hlimit)
  | divide => exact within_orFailed (within_numberBinary host _ _ hb hlimit)
  | modulo => exact within_orFailed (within_numberBinary host _ _ hb hlimit)
  | negate => exact within_opNegate host hb hlimit
  | print => exact within_opPrint host hb
  | return_ => exact within_opReturn hb hlimit
  | equal =>
    exact within_next (within_pop.bind fun _ => within_pop.bind fun _ =>
      (within_push _ (show b - 1 - 1 + 1 ≤ limit by omega)).mono (by omega))
  | not_ => exact within_next (within_pop.bind fun _ => (within_push _ (by omega)).mono (by omega))
  | pop => exact within_next (within_pop.bind fun _ => within_pure _ (by omega))
  | closeUpvalue =>
    exact within_next (within_read fun _ => (within_closeUpvalues _).bind fun _ => within_pop.bind
      fun _ => within_pure _ (by omega))
  | defineGlobal => exact within_opDefineGlobal hb
  | getGlobal => exact within_opGetGlobal hb
  | setGlobal => exact within_opSetGlobal hb
  | getUpvalue => exact within_opGetUpvalue hb
  | setUpvalue => exact within_opSetUpvalue hb
  | getLocal =>
    exact within_next (within_readByte.bind fun _ => within_read fun _ =>
      (within_reads reads_currentFrame).bind fun _ => (within_push _ hb).mono hb)
  | setLocal =>
    exact within_next (within_readByte.bind fun _ => (within_reads reads_currentFrame).bind fun _ =>
      (within_reads (reads_peekStack _)).bind fun _ => (within_setSlot _ _).mono hb)
  | jumpIfFalse => exact within_jumpIf _ hb
  | jumpIfNotNil => exact within_jumpIf _ hb
  | jump => exact within_jumpIf _ hb
  | loop =>
    exact within_next (within_readShort.bind fun _ => (within_reads reads_currentFrame).bind fun _ =>
      (within_setIp _).mono hb)
  | greater => exact within_orFailed (within_numberCompare _ hb hlimit)
  | less => exact within_orFailed (within_numberCompare _ hb hlimit)
  | call => exact within_opCall host hb
  | closure => exact within_opClosure hb
  | struct_ =>
    exact within_next (within_readString.bind fun name =>
      (within_room (Mem.evolving_newStruct name) (Nat.le_of_succ_le hb)).bind fun _ =>
      (within_push _ hb).mono hb)
  | structInit => exact within_opStructInit hb
  | field => exact within_opField hb
  | getProperty => exact within_opGetProperty hb hlimit
  | setProperty => exact within_opSetProperty hb hlimit
  | method =>
    exact within_readString.bind fun name => within_orFailed ((within_defineMethod name hb).mono hb)
  | invoke =>
    exact within_readString.bind fun name => within_readByte.bind fun _ =>
      within_orFailed (within_invoke host name _ hb)
  | list => exact within_opList hb
  | getIndex => exact within_opGetIndex hb hlimit
  | setIndex => exact within_opSetIndex hb hlimit
  | closeBlockExpr => exact within_opCloseBlockExpr hb hlimit
  | cast => exact within_opCast host hb hlimit
  | array => exact within_opArray hb

end KirbyLang.Vm
