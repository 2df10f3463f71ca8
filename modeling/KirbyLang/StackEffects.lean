import KirbyLang.InstructionRoom

/-!
# What an instruction does with its frame

`opInfos` says how many operand bytes an instruction has and how it changes the height of the stack.
The compiler counts on the table; here the instructions of `run` are shown to keep to it.

* `ObjFunction.byteAt`, `GC.instructionLength`, `instructionCount`: the table applied to the code of
  a function;
* `VM.Shifts`: the running frame has read some bytes and the stack has become higher or lower;
* `shifts_execute`: one lemma for each opcode, put together;
* `VM.Ends`: what a whole instruction does, `step_ends`.

An instruction that reports an error takes all frames away, and nothing is said about it.
-/

namespace KirbyLang.Vm

open Laws

/-! ### The table and the code of a function -/

def ObjFunction.byteAt (function : ObjFunction) (offset : ℕ) : UInt8 :=
  ((function.chunk.code[offset]?).map CodeByte.byte).getD 0

/-- The operand of a jump, `READ_SHORT`. -/
def ObjFunction.shortAt (function : ObjFunction) (offset : ℕ) : ℕ :=
  (function.byteAt offset).toNat * 256 + (function.byteAt (offset + 1)).toNat

/-- The count that the instruction at `offset` has, 0 if it has none. -/
def ObjFunction.instructionCount (function : ObjFunction) (offset : ℕ) (op : OpCode) : ℕ :=
  match (opInfo op).countOperand with
  | some i => (function.byteAt (offset + 1 + i)).toNat
  | none => 0

/-- How many variables the closure that the instruction at `offset` makes captures. -/
def GC.capturedAt (gc : GC) (function : ObjFunction) (offset : ℕ) : ℕ :=
  match function.chunk.constants.values[(function.byteAt (offset + 1)).toNat]? with
  | some (.obj r) => ((gc.function? r).map fun captured => captured.upvalueCount.toNat).getD 0
  | _ => 0

/-- The length of the instruction at `offset`. A closure has two more bytes for each variable its
function captures. -/
def GC.instructionLength (gc : GC) (function : ObjFunction) (offset : ℕ) (op : OpCode) : ℕ :=
  1 + (opInfo op).operandBytes + if op = .closure then 2 * gc.capturedAt function offset else 0

/-! ### Moving -/

variable {vm vm' vm'' : VM} {used used' used'' : ℕ} {up up' up'' : ℤ}

/-- The frames are the same, except that the running one has read `used` bytes, and the stack is
higher by `up`. -/
def VM.Shifts (used : ℕ) (up : ℤ) (vm vm' : VM) : Prop :=
  ∀ frame rest, vm.frames = frame :: rest →
    vm'.frames = { frame with ip := frame.ip + used } :: rest ∧ vm'.stackTop = vm.stackTop + up

theorem VM.Shifts.ofSame (hframes : vm'.frames = vm.frames)
    (htop : vm'.stackTop = vm.stackTop + up) : vm.Shifts 0 up vm' := by
  intro frame rest hframe
  exact ⟨by simp [hframes, hframe], htop⟩

theorem VM.Shifts.refl (vm : VM) : vm.Shifts 0 0 vm := .ofSame rfl (by simp)

theorem VM.Shifts.trans (h : vm.Shifts used up vm') (h' : vm'.Shifts used' up' vm'')
    (hused : used + used' = used'') (hup : up + up' = up'') : vm.Shifts used'' up'' vm'' := by
  intro frame rest hframe
  obtain ⟨hframe', htop⟩ := h frame rest hframe
  obtain ⟨hframe'', htop'⟩ := h' _ rest hframe'
  subst hused hup
  refine ⟨?_, ?_⟩
  · rw [hframe'']
    push_cast
    rw [add_assoc]
  · rw [htop', htop, add_assoc]

section Programs

variable {α β : Type} {ok : α → Prop} {ok' : β → Prop} {p : M α} {f : α → M β}

/-- What a program does from a state when it gives a result that `ok` accepts. -/
def ShiftsFrom (ok : α → Prop) (used : ℕ) (up : ℤ) (p : M α) (vm : VM) : Prop :=
  ∀ a vm', p vm = (.ok a, vm') → ok a → vm.Shifts used up vm'

def Shifts (ok : α → Prop) (used : ℕ) (up : ℤ) (p : M α) : Prop := ∀ vm, ShiftsFrom ok used up p vm

/-- Every result. -/
def always (_ : α) : Prop := True

theorem ShiftsFrom.bind (hp : ShiftsFrom always used up p vm)
    (hf : ∀ a vm', p vm = (.ok a, vm') → ShiftsFrom ok' used' up' (f a) vm')
    (hused : used + used' = used'') (hup : up + up' = up'') :
    ShiftsFrom ok' used'' up'' (p >>= f) vm := by
  intro b vm'' h hb
  obtain ⟨a, vm', ha, hrest⟩ := bind_eq_ok h
  exact (hp a vm' ha trivial).trans (hf a vm' ha b vm'' hrest hb) hused hup

theorem Shifts.bind (hp : Shifts always used up p) (hf : ∀ a, Shifts ok' used' up' (f a))
    (hused : used + used' = used'') (hup : up + up' = up'') : Shifts ok' used'' up'' (p >>= f) :=
  fun vm => (hp vm).bind (fun a vm' _ => hf a vm') hused hup

/-- A part that leaves the frame and the height alone comes first. -/
theorem Shifts.next (hp : Shifts always 0 0 p) (hf : ∀ a, Shifts ok' used up (f a)) :
    Shifts ok' used up (p >>= f) :=
  hp.bind hf (Nat.zero_add used) (Int.zero_add up)

theorem shifts_pure (a : α) : Shifts ok 0 0 (pure a) := by
  intro vm b vm' h _
  cases h
  exact .refl vm

/-- A program whose results are none of those that something is said about. -/
def Refuses (ok : α → Prop) (p : M α) : Prop := ∀ vm a vm', p vm = (.ok a, vm') → ¬ ok a

theorem Refuses.shifts (h : Refuses ok p) : Shifts ok used up p :=
  fun vm a vm' hp ha => absurd ha (h vm a vm' hp)

theorem Refuses.bind (hf : ∀ a, Refuses ok' (f a)) : Refuses ok' (p >>= f) := by
  intro vm b vm'' h
  obtain ⟨a, vm', -, hb⟩ := bind_eq_ok h
  exact hf a vm' b vm'' hb

/-- The first part tells in its result whether it has failed. -/
theorem Shifts.bind_ok (hp : Shifts ok used up p) (hf : ∀ a, ok a → Shifts ok' used' up' (f a))
    (hrefuses : ∀ a, ¬ ok a → Refuses ok' (f a))
    (hused : used + used' = used'') (hup : up + up' = up'') : Shifts ok' used'' up'' (p >>= f) := by
  intro vm b vm'' h hb
  obtain ⟨a, vm', ha, hrest⟩ := bind_eq_ok h
  by_cases hok : ok a
  · exact (hp vm a vm' ha hok).trans (hf a hok vm' b vm'' hrest hb) hused hup
  · exact absurd hb (hrefuses a hok vm' b vm'' hrest)

theorem shifts_reads (h : Reads p) : Shifts ok 0 0 p := by
  intro vm a vm' hp _
  obtain rfl : vm' = vm := h.ok hp
  exact .refl vm'

theorem Reads.shifts (h : Reads p) (hf : ∀ a, Shifts ok' used up (f a)) :
    Shifts ok' used up (p >>= f) :=
  (shifts_reads h).next hf

theorem shiftsFrom_get {g : VM → M β} (h : ShiftsFrom ok' used up (g vm) vm) :
    ShiftsFrom ok' used up (get >>= g) vm := h

theorem shifts_read {g : VM → M β} (h : ∀ vm, Shifts ok' used up (g vm)) :
    Shifts ok' used up (get >>= g) := fun vm => h vm vm

theorem shifts_modify {g : VM → VM} (hframes : ∀ vm, (g vm).frames = vm.frames)
    (htop : ∀ vm, (g vm).stackTop = vm.stackTop) : Shifts always 0 0 (modify g : M Unit) := by
  intro vm a vm' h _
  cases h
  exact .ofSame (hframes vm) (by rw [htop, Int.add_zero])

theorem shifts_throw (stop : Stop) : Shifts ok used up (throw stop : M α) := by
  intro vm a vm' h
  cases h

theorem shifts_liftMem {p : Mem α} (h : ∀ memory a memory', p memory = some (a, memory') →
    memory'.frames = memory.frames ∧ memory'.stackTop = memory.stackTop + up) :
    Shifts always 0 up (liftMem p) := by
  intro vm a vm' hrun _
  obtain ⟨memory, hp, rfl⟩ := liftMem_ok hrun
  obtain ⟨hframes, htop⟩ := h _ _ _ hp
  exact .ofSame hframes htop

theorem Mem.Balancing.shifts {p : Mem α} {depth : ℕ} (h : p.Balancing depth) :
    Shifts always 0 0 (liftMem p) :=
  shifts_liftMem fun _ _ _ hp => ⟨(h _ _ _ hp).frames, (h _ _ _ hp).stackTop⟩

theorem Mem.Evolving.shifts {p : Mem α} {depth : ℕ} (h : p.Evolving depth) :
    Shifts always 0 0 (liftMem p) :=
  h.balancing.shifts

theorem shifts_writeObj (r : Ref) (o : Obj) : Shifts always 0 0 (liftMem (writeObj r o)) :=
  (Mem.balancing_writeObj r o).shifts

/-! ### The stack -/

theorem shifts_push (value : Value) : Shifts always 0 1 (push value) :=
  shifts_liftMem fun _ _ _ h => (by cases h; exact ⟨rfl, rfl⟩)

theorem shifts_pop : Shifts always 0 (-1) pop :=
  shifts_liftMem fun _ _ _ h => (by cases h; exact ⟨rfl, rfl⟩)

theorem shifts_popN (count : ℤ) : Shifts always 0 (-count) (popN count) :=
  shifts_liftMem fun _ _ _ h => (by cases h; exact ⟨rfl, rfl⟩)

theorem shifts_setSlot (slot : ℤ) (value : Value) : Shifts always 0 0 (setSlot slot value) :=
  shifts_modify (fun _ => rfl) fun _ => rfl

theorem Shifts.push {value : Value} {f : Unit → M β} (hf : ∀ a, Shifts ok' used (up - 1) (f a)) :
    Shifts ok' used up (Vm.push value >>= f) :=
  (shifts_push value).bind hf (Nat.zero_add used) (by omega)

theorem Shifts.pop {f : Value → M β} (hf : ∀ a, Shifts ok' used (up + 1) (f a)) :
    Shifts ok' used up (Vm.pop >>= f) :=
  shifts_pop.bind hf (Nat.zero_add used) (by omega)

theorem Shifts.popN {count : ℤ} {f : Unit → M β} (hf : ∀ a, Shifts ok' used (up + count) (f a)) :
    Shifts ok' used up (Vm.popN count >>= f) :=
  (shifts_popN count).bind hf (Nat.zero_add used) (by omega)

theorem Shifts.last {p : M Unit} (h : Shifts always used up' p) (hup : up' = up) :
    Shifts always used up p :=
  hup ▸ h

theorem shifts_forM (xs : List β) {g : β → M PUnit} (h : ∀ x, Shifts always used 0 (g x)) :
    Shifts always (xs.length * used) 0 (xs.forM g) := by
  induction xs with
  | nil => simpa using @shifts_pure _ always PUnit.unit
  | cons x xs ih =>
    refine (h x).bind (fun _ => ih) ?_ (Int.zero_add 0)
    rw [List.length_cons, Nat.add_one_mul, Nat.add_comm]

end Programs

/-! ### Reading instructions -/

theorem readByte_shifts {byte : UInt8} (h : readByte vm = (.ok byte, vm')) : vm.Shifts 1 0 vm' := by
  obtain ⟨frame, rest, hnext, rfl⟩ := readByte_eq_ok.mp h
  intro frame' rest' hframes
  cases hnext.1.symm.trans hframes
  exact ⟨rfl, (Int.add_zero _).symm⟩

section Reading

variable {β : Type} {ok' : β → Prop}

theorem Shifts.readByte {f : UInt8 → M β} (hf : ∀ byte, Shifts ok' used up (f byte)) :
    Shifts ok' (used + 1) up (Vm.readByte >>= f) := by
  have hread : Shifts always 1 0 Vm.readByte := fun vm byte vm' h _ => readByte_shifts h
  exact hread.bind hf (Nat.add_comm 1 used) (Int.zero_add up)

theorem Shifts.readShort {f : ℕ → M β} (hf : ∀ short, Shifts ok' used up (f short)) :
    Shifts ok' (used + 2) up (Vm.readShort >>= f) := by
  have hread : Shifts always 2 0 Vm.readShort :=
    Shifts.readByte fun _ => Shifts.readByte fun _ => shifts_pure _
  exact hread.bind hf (Nat.add_comm 2 used) (Int.zero_add up)

theorem Shifts.readConstant {f : Value → M β} (hf : ∀ value, Shifts ok' used up (f value)) :
    Shifts ok' (used + 1) up (Vm.readConstant >>= f) := by
  have hread : Shifts always 1 0 Vm.readConstant :=
    Shifts.readByte fun _ => reads_currentFrame.shifts fun _ =>
      (reads_functionOfClosure _).shifts fun _ => shifts_reads (reads_orFault _)
  exact hread.bind hf (Nat.add_comm 1 used) (Int.zero_add up)

theorem Shifts.readString {f : Ref → M β} (hf : ∀ name, Shifts ok' used up (f name)) :
    Shifts ok' (used + 1) up (Vm.readString >>= f) := by
  have hread : Shifts always 1 0 Vm.readString :=
    Shifts.readConstant fun value => shifts_reads (reads_asStringRef value)
  exact hread.bind hf (Nat.add_comm 1 used) (Int.zero_add up)

end Reading

/-! ### Errors -/

/-- A `false` result has reported an error. -/
def accepted (result : Bool) : Prop := result = true

/-- There are more instructions to come. -/
def continues (result : Option InterpretResult) : Prop := result = none

theorem refuses_refuse (message : Bytes) : Refuses accepted (refuse message) := by
  intro vm b vm' h hb
  cases h
  cases hb

theorem refuses_failWith (message : Bytes) : Refuses continues (failWith message) := by
  intro vm result vm' h hnone
  cases h
  cases hnone

theorem refuses_error : Refuses continues (pure (some .runtimeError)) := by
  intro vm result vm' h hnone
  cases h
  cases hnone

theorem shifts_refuse (message : Bytes) : Shifts accepted used up (refuse message) :=
  (refuses_refuse message).shifts

theorem shifts_failWith (message : Bytes) : Shifts continues used up (failWith message) :=
  (refuses_failWith message).shifts

theorem shifts_die {α : Type} {ok : α → Prop} (message : Bytes) :
    Shifts ok used up (die message) := by
  intro vm a vm' h
  cases h

theorem shifts_orFailed {p : M Bool} (h : Shifts accepted used up p) :
    Shifts continues used up (orFailed p) := by
  refine h.bind_ok (fun b hb => ?_) (fun b hb => ?_) (Nat.add_zero used) (Int.add_zero up)
  · rw [show b = true from hb]
    exact shifts_pure none
  · rw [show b = false from Bool.eq_false_iff.mpr hb]
    exact refuses_error

theorem shifts_next {p : M Unit} (h : Shifts always used up p) :
    Shifts continues used up (next p) :=
  h.bind (fun _ => shifts_pure none) (Nat.add_zero used) (Int.add_zero up)

theorem shifts_fault {α : Type} {ok : α → Prop} : Shifts ok used up (fault : M α) :=
  shifts_throw _

/-! ### Upvalues -/

theorem shifts_captureUpvalue (slot : ℤ) : Shifts always 0 0 (captureUpvalue slot) := by
  have hcreate : ∀ above rest, Shifts always 0 0 (captureUpvalue.create slot above rest) := by
    intro above rest
    refine (Mem.balancing_newUpvalue slot).shifts.next fun upvalue => ?_
    refine Shifts.next (shifts_modify ?_ ?_) fun _ => shifts_pure _
    · exact fun _ => rfl
    · exact fun _ => rfl
  refine shifts_read fun vm => ?_
  dsimp only
  split
  · split
    · exact shifts_pure _
    · exact hcreate _ _
  · exact hcreate _ _

theorem shifts_closeUpvalues (last : ℤ) : Shifts always 0 0 (closeUpvalues last) :=
  shifts_modify (fun vm => (closeUpvaluesLoop_stack last vm.openUpvalues vm.toMemory).2.2)
    fun vm => (closeUpvaluesLoop_stack last vm.openUpvalues vm.toMemory).2.1

theorem shifts_writeUpvalue (upvalue : Ref) (value : Value) :
    Shifts always 0 0 (writeUpvalue upvalue value) := by
  refine (reads_upvalueAt upvalue).shifts fun o => ?_
  cases o.location with
  | stack slot => exact shifts_setSlot _ _
  | closed => exact shifts_writeObj _ _

/-! ### Operators -/

theorem shifts_concatenate : Shifts always 0 (-1) concatenate := by
  refine (reads_peekStack _).shifts fun b => (reads_asStringRef b).shifts fun rb =>
    (reads_stringAt rb).shifts fun sb => (reads_peekStack _).shifts fun a =>
    (reads_asStringRef a).shifts fun ra => (reads_stringAt ra).shifts fun sa => ?_
  dsimp only
  split
  · exact shifts_fault
  · exact (@Mem.evolving_reallocate 0 _ _).shifts.next fun _ =>
      (Mem.evolving_takeString _).shifts.next fun _ => .pop fun _ => .pop fun _ =>
      (shifts_push _).last rfl

/-- Two values give way to one. -/
theorem shifts_replaceTwo (value : Value) : Shifts accepted 0 (-1) (do
    let _ ← pop
    let _ ← pop
    push value
    return true) :=
  .pop fun _ => .pop fun _ => .push fun _ => shifts_pure true

theorem shifts_replaceTop (value : Value) : Shifts always 0 0 (do
    let _ ← pop
    push value) :=
  .pop fun _ => shifts_push value

variable (host : Host)

theorem shifts_assertNonZeroNumber (function : String) (kind : NumberKind) (payload : NumberPayload)
    (index : ℤ) : Shifts always 0 0 (assertNonZeroNumber host function kind payload index) := by
  unfold assertNonZeroNumber
  split
  · exact shifts_pure _
  · exact shifts_die _

theorem shifts_numberBinary (op : NumberOp) (mismatchMessage : Bytes) :
    Shifts accepted 0 (-1) (numberBinary host op mismatchMessage) := by
  refine (reads_peekStack _).shifts fun b => (reads_peekStack _).shifts fun a => ?_
  split
  next => exact shifts_refuse _
  next kind x y _ =>
    dsimp only
    by_cases hzero : op = .divide ∨ (op = .modulo ∧ kind.info.isFloat = false)
    · rw [if_pos hzero]
      refine (shifts_assertNonZeroNumber host _ _ _ _).next fun _ => ?_
      cases numberArithmetic host.libc kind op x y with
      | none => exact shifts_refuse _
      | some result => exact shifts_replaceTwo _
    · rw [if_neg hzero]
      cases numberArithmetic host.libc kind op x y with
      | none => exact shifts_refuse _
      | some result => exact shifts_replaceTwo _

theorem shifts_numberCompare (greater : Bool) : Shifts accepted 0 (-1) (numberCompare greater) := by
  refine (reads_peekStack _).shifts fun b => (reads_peekStack _).shifts fun a => ?_
  split
  · exact shifts_refuse _
  · exact shifts_replaceTwo _

theorem shifts_castNumber (source : NumberKind) (payload : NumberPayload) (target : NumberKind) :
    Shifts accepted 0 1 (castNumber host source payload target) := by
  unfold castNumber
  dsimp only
  split
  · exact .push fun _ => shifts_pure _
  · split
    · exact shifts_refuse _
    · exact shifts_refuse _

theorem shifts_opAdd : Shifts continues 0 (-1) (opAdd host) := by
  refine (reads_peekStack _).shifts fun b => (reads_objectOf b).shifts fun _ =>
    (reads_peekStack _).shifts fun a => (reads_objectOf a).shifts fun _ => ?_
  split
  · exact shifts_next shifts_concatenate
  · exact shifts_orFailed (shifts_numberBinary host _ _)

theorem shifts_opNegate : Shifts continues 0 0 (opNegate host) := by
  refine (reads_peekStack _).shifts fun value => ?_
  cases value with
  | number kind payload =>
    dsimp only
    cases numberNegateValue kind payload with
    | none => exact shifts_failWith _
    | some result => exact shifts_next (shifts_replaceTop _)
  | _ => exact shifts_failWith _

theorem shifts_opCast : Shifts continues 1 0 (opCast host) := by
  refine .readByte fun target => .pop fun value => ?_
  cases NumberKind.ofByte? target with
  | none => exact shifts_failWith _
  | some target =>
    cases value with
    | number kind payload => exact shifts_orFailed (shifts_castNumber host _ _ _)
    | _ => exact shifts_failWith _

theorem shifts_opPrint : Shifts continues 0 (-1) (opPrint host) := by
  refine shifts_next (.pop fun value => (reads_printedText _ _ _).shifts fun printed => ?_)
  exact shifts_modify (fun _ => rfl) fun _ => rfl

/-! ### Calls -/

/-- The frames and the height are the same. -/
def VM.Level (vm vm' : VM) : Prop := vm'.frames = vm.frames ∧ vm'.stackTop = vm.stackTop

/-- What a call does when it reports no error in its result: a native that goes on after an error
leaves no frame, other natives give their result for the callee and its arguments, and a function is
entered. -/
inductive VM.Called (argCount : ℕ) (vm vm' : VM) : Prop
  | failed (frames : vm'.frames = [])
  | returned (shifts : vm.Shifts 0 (-argCount) vm')
  | entered (closure : Ref)
      (frames : vm'.frames =
        { closure, ip := 0, slots := vm.stackTop - argCount - 1 } :: vm.frames)
      (stackTop : vm'.stackTop = vm.stackTop)

theorem VM.Called.ofLevel {argCount : ℕ} (hlevel : vm.Level vm') (h : vm'.Called argCount vm'') :
    vm.Called argCount vm'' := by
  obtain ⟨hframes, htop⟩ := hlevel
  cases h with
  | failed hnone => exact .failed hnone
  | returned hshifts =>
    exact .returned ((VM.Shifts.ofSame hframes (by simp [htop])).trans hshifts rfl (Int.zero_add _))
  | entered closure hframes' htop' =>
    exact .entered closure (by rw [hframes', hframes, htop]) (htop'.trans htop)

/-- A program that calls a value. -/
def Calls (argCount : ℕ) (p : M Bool) : Prop :=
  ∀ vm vm', p vm = (.ok true, vm') → vm.Called argCount vm'

section Calls

variable {α : Type} {argCount : ℕ} {p : M α} {f : α → M Bool}

theorem calls_refuse (message : Bytes) : Calls argCount (refuse message) := by
  intro vm vm' h
  cases h

theorem Calls.after (hp : ∀ vm a vm', p vm = (.ok a, vm') → vm.Level vm')
    (hf : ∀ a, Calls argCount (f a)) : Calls argCount (p >>= f) := by
  intro vm vm'' h
  obtain ⟨a, vm', ha, hrest⟩ := bind_eq_ok h
  exact .ofLevel (hp vm a vm' ha) (hf a vm' vm'' hrest)

theorem Reads.calls (hp : Reads p) (hf : ∀ a, Calls argCount (f a)) : Calls argCount (p >>= f) :=
  Calls.after (fun vm a vm' h => (by rw [hp.ok h]; exact ⟨rfl, rfl⟩)) hf

theorem calls_read {g : VM → M Bool} (h : ∀ vm, Calls argCount (g vm)) :
    Calls argCount (get >>= g) := fun vm => h vm vm

theorem setSlot_level {slot : ℤ} {value : Value} {a : Unit}
    (h : setSlot slot value vm = (.ok a, vm')) :
    vm.Level vm' := by
  cases h
  exact ⟨rfl, rfl⟩

theorem logAccess_level {struct_ : Ref} {isPublic : Bool} {a : Unit}
    (h : logAccess struct_ isPublic vm = (.ok a, vm')) : vm.Level vm' := by
  cases h
  exact ⟨rfl, rfl⟩

theorem logMethod_level {struct_ method : Ref} {a : Unit}
    (h : logMethod struct_ method vm = (.ok a, vm')) : vm.Level vm' := by
  obtain ⟨function, vm₁, hfunction, hlog⟩ := bind_eq_ok h
  obtain rfl : vm₁ = vm := (reads_functionOfClosure method).ok hfunction
  exact logAccess_level hlog

end Calls

/-! ### Natives -/

/-- What a native leaves behind: after an error that it goes on after there are no frames. -/
def Leaves {α : Type} (p : M α) : Prop :=
  ∀ vm a vm', p vm = (.ok a, vm') → vm'.frames = [] ∨ vm.Level vm'

section Natives

variable {α β : Type} {p : M α} {f : α → M β}

theorem Leaves.bind (hp : Leaves p) (hf : ∀ a, Leaves (f a)) : Leaves (p >>= f) := by
  intro vm b vm'' h
  obtain ⟨a, vm', ha, hb⟩ := bind_eq_ok h
  rcases hf a vm' b vm'' hb with hnone | ⟨hframes, htop⟩
  · exact .inl hnone
  · rcases hp vm a vm' ha with hnone | ⟨hframes', htop'⟩
    · exact .inl (hframes.trans hnone)
    · exact .inr ⟨hframes.trans hframes', htop.trans htop'⟩

theorem leaves_reads (h : Reads p) : Leaves p := by
  intro vm a vm' hrun
  rw [h.ok hrun]
  exact .inr ⟨rfl, rfl⟩

theorem leaves_liftMem {q : Mem α} {depth : ℕ} (h : q.Evolving depth) : Leaves (liftMem q) := by
  intro vm a vm' hrun
  obtain ⟨memory, hq, rfl⟩ := liftMem_ok hrun
  have hrises := h.balancing _ _ _ hq
  exact .inr ⟨hrises.frames, hrises.stackTop.trans (Int.add_zero _)⟩

/-- A value that is pushed is popped again. -/
theorem leaves_holding {value : Value} (h : Leaves p) : Leaves (do
    push value
    let result ← p
    let _ ← pop
    return result) := by
  intro vm a vm'' hrun
  obtain ⟨_, vm₁, hpush, hrest⟩ := bind_eq_ok hrun
  cases hpush
  obtain ⟨result, vm₂, hresult, hpop⟩ := bind_eq_ok hrest
  cases hpop
  rcases h _ _ _ hresult with hnone | ⟨hframes, htop⟩
  · exact .inl hnone
  · refine .inr ⟨hframes, ?_⟩
    show vm₂.stackTop - 1 = vm.stackTop
    rw [htop]
    exact Int.add_sub_cancel _ 1

theorem leaves_prog (libc : Libc) {goesOn : Bool} (p : Prog goesOn α) : Leaves (p.run libc) := by
  induction p with
  | pure a => exact leaves_reads (reads_pure a)
  | bind p f ihp ihf => exact ihp.bind ihf
  | load object => exact leaves_reads (reads_deref object)
  | takeString chars => exact leaves_liftMem (Mem.evolving_takeString chars)
  | copyString chars => exact leaves_liftMem (Mem.evolving_copyString chars)
  | reallocate oldSize newSize => exact leaves_liftMem (@Mem.evolving_reallocate 0 oldSize newSize)
  | newList => exact leaves_liftMem (@Mem.evolving_newList 0)
  | newArray count => exact leaves_liftMem (@Mem.evolving_newArray 0 count)
  | writeValueToListObj list value =>
    exact leaves_liftMem (@Mem.evolving_writeValueToListObj 0 list value)
  | setListValues list values => exact leaves_liftMem (@Mem.evolving_setListValues 0 list values)
  | setArrayValues array values =>
    exact leaves_liftMem (@Mem.evolving_setArrayValues 0 array values)
  | holding value p ih => exact leaves_holding ih
  | printed toErr value => exact leaves_reads (reads_printedText libc toErr value)
  | typeName value =>
    exact leaves_reads (reads_get (f := fun vm => orFault (valueTypeToString vm.gc value))
      fun _ => reads_orFault _)
  | outside f =>
    intro vm a vm' h
    cases h
    exact .inr ⟨rfl, rfl⟩
  | exit code =>
    intro vm a vm' h
    cases h
  | fail message =>
    intro vm a vm' h
    cases h
  | report _ message =>
    intro vm a vm' h
    cases h
    exact .inl rfl
  | fault =>
    intro vm a vm' h
    cases h

end Natives

/-! ### Entering functions -/

theorem calls_callNative (native : ObjNative) (argCount : ℕ) :
    Calls argCount (callNative host native argCount) := by
  refine calls_read fun vm => ?_
  split
  next => exact fun vm vm' h => (by cases h)
  next native' _ =>
    have hrun : ∀ args, Leaves (native'.run host.libc argCount args) := by
      intro args
      cases native' with
      | stops fn => exact leaves_prog host.libc _
      | goesOn fn => exact leaves_prog host.libc _
    intro vm vm'' h
    obtain ⟨result, vm', hresult, hrest⟩ := bind_eq_ok h
    obtain ⟨_, vm₁, hpop, hpush⟩ := bind_eq_ok hrest
    cases hpop
    cases hpush
    rcases hrun _ _ _ _ hresult with hnone | ⟨hframes, htop⟩
    · exact .failed hnone
    · refine .returned (.ofSame hframes ?_)
      show vm'.stackTop - (argCount + 1) + 1 = vm.stackTop + -argCount
      rw [htop]
      omega

theorem calls_call (closure : Ref) (argCount : ℕ) : Calls argCount (call closure argCount) := by
  refine (reads_functionOfClosure closure).calls fun function => ?_
  split
  · exact calls_refuse _
  · refine calls_read fun vm => ?_
    split
    · exact calls_refuse _
    · intro vm vm' h
      cases h
      exact .entered closure rfl rfl

theorem calls_callValue (callee : Value) (argCount : ℕ) :
    Calls argCount (callValue host callee argCount) := by
  refine (reads_objectOf callee).calls fun found => ?_
  rcases found with _ | ⟨r, o⟩
  · exact calls_refuse _
  · cases o with
    | boundMethod bound =>
      exact calls_read fun vm => .after (fun _ _ _ => setSlot_level) fun _ => calls_call _ _
    | closure closure => exact calls_call _ _
    | native native => exact calls_callNative host native argCount
    | _ => exact calls_refuse _

theorem calls_invokeMethod {isStatic : Bool} {wrongKind : Ref → Ref → M Bytes}
    (hkind : ∀ name struct_, Reads (wrongKind name struct_)) (struct_ name : Ref) (argCount : ℕ) :
    Calls argCount (invokeMethod isStatic wrongKind struct_ name argCount) := by
  refine (reads_structAt struct_).calls fun o => (reads_lookup _ _).calls fun found => ?_
  rcases found with _ | value
  · exact (reads_undefinedProperty name).calls fun _ => calls_refuse _
  · refine (reads_asClosure value).calls fun method =>
      (reads_methodError hkind).calls fun error => ?_
    rcases error with _ | message
    · exact .after (fun _ _ _ => logMethod_level) fun _ => calls_call _ _
    · exact calls_refuse message

theorem calls_invoke (name : Ref) (argCount : ℕ) : Calls argCount (invoke host name argCount) := by
  have hmethod : ∀ struct_, Calls argCount (invokeFromStruct struct_ name argCount) :=
    fun struct_ => calls_invokeMethod (reads_staticMessage "Call") struct_ name argCount
  refine (reads_peekStack _).calls fun receiver => (reads_objectOf receiver).calls fun found => ?_
  rcases found with _ | ⟨r, o⟩
  · exact calls_refuse _
  · cases o with
    | struct_ o => exact calls_invokeMethod reads_instanceMessage _ _ _
    | instance_ instance_ =>
      refine (reads_structFieldSlot _ _).calls fun slot => ?_
      rcases slot with _ | slot
      · exact hmethod _
      · refine (reads_structAt _).calls fun struct_ =>
          (reads_canAccess _ _).calls fun accessible => ?_
        cases accessible with
        | false =>
          refine (reads_lookup _ _).calls fun method => ?_
          rcases method with _ | method
          · exact (reads_privateMessage _ _ _).calls fun _ => calls_refuse _
          · exact hmethod _
        | true =>
          exact .after (fun _ _ _ => logAccess_level) fun _ =>
            (reads_fieldAt _ _).calls fun value => calls_read fun vm =>
            .after (fun _ _ _ => setSlot_level) fun _ =>
            calls_callValue host value argCount
    | _ => exact calls_refuse _

/-! ### Globals and members -/

theorem shifts_opGetGlobal : Shifts continues 1 1 opGetGlobal := by
  refine .readString fun name => shifts_read fun vm => (reads_lookup _ _).shifts fun found => ?_
  rcases found with _ | value
  · exact (reads_textOf _).shifts fun _ => shifts_failWith _
  · exact shifts_next (shifts_push value)

theorem shifts_opSetGlobal : Shifts continues 1 0 opSetGlobal := by
  refine .readString fun name => (reads_peekStack _).shifts fun value =>
    (@Mem.evolving_tableSet 0 .globals name value).shifts.next fun isNewKey => ?_
  cases isNewKey with
  | false => exact shifts_pure _
  | true =>
    refine shifts_read fun vm => (reads_orFault _).shifts fun deleted => ?_
    refine Shifts.next (shifts_modify (fun _ => rfl) fun _ => rfl) fun _ => ?_
    exact (reads_textOf _).shifts fun _ => shifts_failWith _

theorem shifts_opDefineGlobal : Shifts continues 1 (-1) opDefineGlobal :=
  shifts_next (.readString fun name => (reads_peekStack _).shifts fun value =>
    (@Mem.evolving_tableSet 0 .globals name value).shifts.next fun _ => .pop fun _ => shifts_pure _)

theorem shifts_opGetUpvalue : Shifts continues 1 1 opGetUpvalue :=
  shifts_next (.readByte fun _ => reads_currentFrame.shifts fun _ => (reads_upvalueOf _ _).shifts
    fun upvalue => (reads_readUpvalue upvalue).shifts fun value => shifts_push value)

theorem shifts_opSetUpvalue : Shifts continues 1 0 opSetUpvalue :=
  shifts_next (.readByte fun _ => reads_currentFrame.shifts fun _ => (reads_upvalueOf _ _).shifts
    fun upvalue => (reads_peekStack _).shifts fun value => shifts_writeUpvalue upvalue value)

theorem shifts_setField (instance_ : Ref) (slot : ℕ) (value : Value) :
    Shifts always 0 0 (setField instance_ slot value) := by
  refine (reads_instanceAt instance_).shifts fun o => (reads_orFault _).shifts fun fields => ?_
  split
  · exact shifts_writeObj _ _
  · exact shifts_fault

theorem shifts_defineMethod (name : Ref) : Shifts accepted 0 (-1) (defineMethod name) := by
  refine (reads_peekStack _).shifts fun method => (reads_peekStack _).shifts fun target =>
    (reads_objectOf _).shifts fun found => ?_
  rcases found with _ | ⟨struct_, o⟩
  · exact shifts_refuse _
  · cases o with
    | struct_ _ =>
      exact (reads_asClosure method).shifts fun closure => (reads_closureAt closure).shifts fun o =>
        (shifts_writeObj _ _).next fun _ =>
        (@Mem.evolving_tableSet 0 (.methods struct_) name method).shifts.next fun _ =>
        .pop fun _ => shifts_pure _
    | _ => exact shifts_refuse _

theorem shifts_logAccess (struct_ : Ref) (isPublic : Bool) :
    Shifts always 0 0 (logAccess struct_ isPublic) :=
  shifts_modify (fun _ => rfl) fun _ => rfl

theorem shifts_logMethod (struct_ method : Ref) : Shifts always 0 0 (logMethod struct_ method) :=
  (reads_functionOfClosure method).shifts fun _ => shifts_logAccess _ _

/-- A method that is found takes the place of its receiver. -/
theorem shifts_getMethod (struct_ name : Ref) : Shifts continues 0 0 (getMethod struct_ name) := by
  have hbind : Shifts (fun result => result = .ok) 0 0 (bindMethod struct_ name) := by
    refine (reads_structAt struct_).shifts fun o => (reads_lookup _ _).shifts fun found => ?_
    rcases found with _ | value
    · exact shifts_pure _
    · refine (reads_asClosure value).shifts fun method =>
        (reads_methodError (reads_staticMessage "Access")).shifts fun error => ?_
      rcases error with _ | message
      · exact (shifts_logMethod _ _).next fun _ => (reads_peekStack _).shifts fun receiver =>
          (@Mem.evolving_newBoundMethod 0 receiver method).shifts.next fun bound =>
          .pop fun _ => .push fun _ => shifts_pure _
      · refine Refuses.shifts (Refuses.bind fun _ => ?_)
        intro vm result vm' h hok
        cases h
        cases hok
  refine hbind.bind_ok (fun result hok => ?_) (fun result hbad => ?_) (Nat.zero_add 0)
    (Int.zero_add 0)
  · rw [hok]
    exact shifts_pure none
  · cases result with
    | notFound => exact Refuses.bind fun _ => refuses_failWith _
    | ok => exact absurd rfl hbad
    | error => exact refuses_error

theorem shifts_getStaticMethod (struct_ : Ref) :
    Shifts continues 1 0 (getStaticMethod struct_) := by
  refine .readString fun name => (reads_structAt struct_).shifts fun o => (reads_lookup _ _).shifts
    fun found => ?_
  rcases found with _ | value
  · exact (reads_undefinedProperty name).shifts fun _ => shifts_failWith _
  · refine (reads_asClosure value).shifts fun method =>
      (reads_methodError reads_instanceMessage).shifts fun error => ?_
    rcases error with _ | message
    · exact shifts_next ((shifts_logMethod _ _).next fun _ => shifts_replaceTop value)
    · exact shifts_failWith message

theorem shifts_opGetProperty : Shifts continues 1 0 opGetProperty := by
  refine (reads_peekStack _).shifts fun target => (reads_objectOf _).shifts fun found => ?_
  rcases found with _ | ⟨r, o⟩
  · exact shifts_failWith _
  · cases o with
    | struct_ _ => exact shifts_getStaticMethod r
    | instance_ i =>
      refine .readString fun name => (reads_structFieldSlot _ _).shifts fun slot => ?_
      rcases slot with _ | slot
      · exact shifts_getMethod _ _
      · refine (reads_structAt _).shifts fun o => (reads_canAccess _ _).shifts fun accessible => ?_
        cases accessible with
        | true =>
          exact shifts_next ((shifts_logAccess _ _).next fun _ =>
            (reads_fieldAt _ _).shifts fun value => shifts_replaceTop value)
        | false =>
          refine (reads_lookup _ _).shifts fun method => ?_
          rcases method with _ | method
          · exact (reads_privateMessage _ _ _).shifts fun _ => shifts_failWith _
          · exact shifts_getMethod _ _
    | _ => exact shifts_failWith _

theorem shifts_opSetProperty : Shifts continues 1 (-1) opSetProperty := by
  refine (reads_peekStack _).shifts fun target => (reads_objectOf _).shifts fun found => ?_
  rcases found with _ | ⟨r, o⟩
  · exact shifts_failWith _
  · cases o with
    | instance_ i =>
      refine .readString fun name => (reads_structFieldSlot _ _).shifts fun slot => ?_
      rcases slot with _ | slot
      · exact (reads_textOf _).shifts fun _ => shifts_failWith _
      · refine (reads_structAt _).shifts fun o => (reads_canAccess _ _).shifts fun accessible => ?_
        cases accessible with
        | false => exact (reads_privateMessage _ _ _).shifts fun _ => shifts_failWith _
        | true =>
          by_cases hmutable : o.fieldMutable slot = true
          · simp only [hmutable, Bool.not_true, Bool.false_eq_true, if_false]
            exact shifts_next ((shifts_logAccess _ _).next fun _ =>
              (reads_peekStack _).shifts fun value => (shifts_setField _ _ _).next fun _ =>
              .pop fun value => .pop fun _ =>
              (shifts_push value).last rfl)
          · simp only [hmutable, Bool.not_false, if_true]
            exact (reads_textOf _).shifts fun _ => shifts_failWith _
    | _ => exact shifts_failWith _

theorem shifts_opField : Shifts continues 3 (-1) opField := by
  refine .readString fun name => .readByte fun isPublic => .readByte fun isMutable =>
    (reads_peekStack _).shifts fun target => (reads_objectOf _).shifts fun found => ?_
  rcases found with _ | ⟨r, o⟩
  · exact shifts_failWith _
  · cases o with
    | struct_ o =>
      refine (reads_lookup _ _).shifts fun found => ?_
      rcases found with _ | slot
      · dsimp only
        split
        · exact shifts_failWith _
        · exact shifts_next ((@Mem.evolving_tableSet 0 _ _ _).shifts.next fun _ =>
            (reads_structAt r).shifts fun o' => (shifts_writeObj _ _).next fun _ =>
            .pop fun _ => shifts_pure _)
      · exact (reads_textOf _).shifts fun _ => shifts_failWith _
    | _ => exact shifts_failWith _

/-! ### Lists and arrays -/

theorem shifts_opGetIndex : Shifts continues 0 (-1) opGetIndex := by
  refine .pop fun index => .pop fun target => (reads_indexed target index).shifts fun result => ?_
  rcases result with message | ⟨_, _, values, i⟩
  · exact shifts_failWith message
  · exact shifts_next ((reads_orFault _).shifts fun value => (shifts_push value).last rfl)

theorem shifts_opSetIndex : Shifts continues 0 (-2) opSetIndex := by
  refine .pop fun value => .pop fun index => .pop fun target =>
    (reads_indexed target index).shifts fun result => ?_
  rcases result with message | ⟨r, o, values, i⟩
  · exact shifts_failWith message
  · refine shifts_next ?_
    split
    · exact (shifts_writeObj _ _).next fun _ => (shifts_push value).last rfl
    · exact shifts_fault

/-! ### The place in the code -/

/-- The running function, and the place in its code that is read next. -/
structure VM.IsAt (function : ObjFunction) (offset : ℕ) (frame : CallFrame) (rest : List CallFrame)
    (vm : VM) : Prop where
  frames : vm.frames = frame :: rest
  ip : frame.ip = offset
  function : functionOfClosure frame.closure vm = (.ok function, vm)

section IsAt

variable {function : ObjFunction} {offset : ℕ} {frame : CallFrame} {rest : List CallFrame}

theorem functionOfClosure_congr {closure : Ref}
    (h : functionOfClosure closure vm = (.ok function, vm)) (hgc : vm'.gc = vm.gc) :
    functionOfClosure closure vm' = (.ok function, vm') := by
  obtain ⟨-, o, ho, hfunction⟩ := functionOfClosure_eq_ok.mp h
  exact functionOfClosure_eq_ok.mpr ⟨rfl, o, by rw [hgc]; exact ho, by rw [hgc]; exact hfunction⟩

/-- Reading a byte of the running function. -/
theorem VM.IsAt.readByte (hat : vm.IsAt function offset frame rest) {byte : UInt8}
    (h : Vm.readByte vm = (.ok byte, vm')) :
    byte = function.byteAt offset ∧ offset < function.chunk.code.length ∧
      vm' = { vm with frames := { frame with ip := frame.ip + 1 } :: rest } ∧
      vm'.IsAt function (offset + 1) { frame with ip := frame.ip + 1 } rest := by
  obtain ⟨frame', rest', ⟨hframes, hip, function', code, hfunction, hcode, hbyte⟩, rfl⟩ :=
    readByte_eq_ok.mp h
  cases hframes.symm.trans hat.frames
  obtain ⟨rfl⟩ : function' = function :=
    Except.ok.inj (Prod.mk.inj (hfunction.symm.trans hat.function)).1
  have hoffset : frame.ip.toNat = offset := by rw [hat.ip, Int.toNat_natCast]
  rw [hoffset] at hcode
  refine ⟨?_, (List.getElem?_eq_some_iff.mp hcode).1, rfl, rfl, ?_, ?_⟩
  · rw [ObjFunction.byteAt, hcode]
    exact hbyte.symm
  · show frame.ip + 1 = ((offset + 1 : ℕ) : ℤ)
    rw [hat.ip, Nat.cast_add_one]
  · exact functionOfClosure_congr hat.function rfl

theorem VM.IsAt.currentFrame (hat : vm.IsAt function offset frame rest) :
    Vm.currentFrame vm = (.ok frame, vm) := by
  show orFault vm.frames.head? vm = _
  rw [hat.frames]
  rfl

/-- The constant that an instruction names. -/
theorem VM.IsAt.readConstant (hat : vm.IsAt function offset frame rest) {value : Value}
    (h : Vm.readConstant vm = (.ok value, vm')) :
    function.chunk.constants.values[(function.byteAt offset).toNat]? = some value ∧
      offset < function.chunk.code.length ∧ vm'.gc = vm.gc ∧
      vm'.IsAt function (offset + 1) { frame with ip := frame.ip + 1 } rest := by
  obtain ⟨index, vm₁, hindex, hconstant⟩ := bind_eq_ok h
  obtain ⟨rfl, hlt, hread, hat'⟩ := hat.readByte hindex
  rw [bind_ok hat'.currentFrame, bind_ok hat'.function] at hconstant
  obtain ⟨hthere, rfl⟩ := orFault_ok hconstant
  exact ⟨hthere, hlt, by rw [hread], hat'⟩

end IsAt

/-! ### Instructions with a count -/

theorem next_shiftsFrom {p : M Unit} (h : ShiftsFrom always used up p vm) :
    ShiftsFrom continues used up (next p) vm :=
  h.bind (fun _ vm' _ => shifts_pure none vm') (Nat.add_zero used) (Int.add_zero up)

section Counted

variable {function : ObjFunction} {offset : ℕ} {frame : CallFrame} {rest : List CallFrame}

/-- The byte that is read next is the count of the instruction. -/
theorem counted_shifts {β : Type} {ok' : β → Prop} {f : UInt8 → M β}
    (hat : vm.IsAt function offset frame rest)
    (hf : Shifts ok' used up (f (function.byteAt offset))) :
    ShiftsFrom ok' (used + 1) up (readByte >>= f) vm := by
  intro b vm'' h hb
  obtain ⟨count, vm', hcount, hrest⟩ := bind_eq_ok h
  obtain ⟨rfl, -⟩ := hat.readByte hcount
  exact (readByte_shifts hcount).trans (hf vm' b vm'' hrest hb) (Nat.add_comm 1 used)
    (Int.zero_add up)

theorem opList_shifts (hat : vm.IsAt function offset frame rest) :
    ShiftsFrom continues 1 (1 - (function.byteAt offset).toNat) opList vm := by
  have happend : ∀ (list : Ref) (i : ℕ), Shifts always 0 0 (do
      liftMem (writeValueToListObj list (← peekStack (i + 1)))) := fun list i =>
    (reads_peekStack _).shifts fun value => (@Mem.evolving_writeValueToListObj 0 list value).shifts
  refine next_shiftsFrom (counted_shifts hat ?_)
  refine (@Mem.evolving_newList 0).shifts.next fun list => .push fun _ => ?_
  have hloop := shifts_forM (List.range (function.byteAt offset).toNat).reverse (happend list)
  rw [Nat.mul_zero] at hloop
  exact hloop.next fun _ => .pop fun value => .popN fun _ => (shifts_push value).last (by omega)

theorem opArray_shifts (hat : vm.IsAt function offset frame rest) :
    ShiftsFrom continues 1 (1 - (function.byteAt offset).toNat) opArray vm := by
  refine next_shiftsFrom (counted_shifts hat ?_)
  exact (@Mem.evolving_newArray 0 _).shifts.next fun array => shifts_read fun _ =>
    (@Mem.evolving_setArrayValues 0 array _).shifts.next fun _ => .popN fun _ =>
    (shifts_push _).last (by omega)

theorem opCloseBlockExpr_shifts (hat : vm.IsAt function offset frame rest) :
    ShiftsFrom continues 1 (-(function.byteAt offset).toNat) opCloseBlockExpr vm := by
  refine next_shiftsFrom (counted_shifts hat ?_)
  exact .pop fun result => shifts_read fun _ => (shifts_closeUpvalues _).next fun _ =>
    .popN fun _ => (shifts_push result).last (by omega)

theorem shifts_initFields (struct_ instance_ : Ref) (pairs : ℤ) (rest : List ℕ)
    (provided : ℕ → Bool) :
    Shifts (fun result => result.isSome = true) 0 0
      (initFields struct_ instance_ pairs rest provided) := by
  induction rest generalizing provided with
  | nil => exact shifts_pure _
  | cons i rest ih =>
    have hfail : ∀ message, Refuses (fun result => result.isSome = true) (do
        runtimeError message
        return none : M (Option (ℕ → Bool))) := by
      intro message vm result vm' h hsome
      cases h
      cases hsome
    refine shifts_read fun vm => (reads_asStringRef _).shifts fun field =>
      (reads_structFieldSlot _ _).shifts fun slot => ?_
    rcases slot with _ | slot
    · exact (reads_textOf _).shifts fun _ => (hfail _).shifts
    · refine (reads_structAt _).shifts fun o => (reads_canAccess _ _).shifts fun accessible => ?_
      cases accessible with
      | false => exact (reads_privateMessage _ _ _).shifts fun _ => (hfail _).shifts
      | true =>
        exact (shifts_logAccess _ _).next fun _ => shifts_read fun vm =>
          (shifts_setField _ _ _).next fun _ => ih _

/-- What is above a slot gives way to a value. -/
theorem popTo_shifts (up : ℤ) {slot : ℤ} {value : Value} (hup : vm.stackTop + up = slot + 1) :
    ShiftsFrom always 0 up (do
      popN ((← get).stackTop - slot)
      push value) vm := by
  intro a vm' h _
  cases h
  refine .ofSame rfl ?_
  show vm.stackTop - (vm.stackTop - slot) + 1 = vm.stackTop + up
  omega

/-- The struct and the pairs give way to the instance. -/
theorem opStructInit_shifts (hat : vm.IsAt function offset frame rest) :
    ShiftsFrom continues 1 (-2 * (function.byteAt offset).toNat) opStructInit vm := by
  refine counted_shifts hat fun vm => shiftsFrom_get (shiftsFrom_get ?_)
  intro result vm' hrun hnone frame rest hframes
  obtain ⟨found, vm₁, hfound, hrest⟩ := bind_eq_ok hrun
  obtain ⟨rfl, -⟩ := objectOf_ok hfound
  rcases found with _ | ⟨struct_, o⟩
  · exact absurd hnone (refuses_failWith _ _ _ _ hrest)
  · cases o with
    | struct_ _ =>
      obtain ⟨instance_, vm₂, hinstance, hfields⟩ := bind_eq_ok hrest
      have hmade := (Mem.evolving_newInstance struct_).shifts vm₁ _ _ hinstance trivial
      obtain ⟨provided, vm₃, hprovided, hcheck⟩ := bind_eq_ok hfields
      rcases provided with _ | provided
      · exact absurd hnone (refuses_error _ _ _ hcheck)
      · have hset := hmade.trans (shifts_initFields _ _ _ _ _ vm₂ _ _ hprovided rfl) rfl rfl
        have htop : vm₃.stackTop = vm₁.stackTop + (0 + 0) := (hset frame rest hframes).2
        obtain ⟨o, vm₄, ho, hend⟩ := bind_eq_ok hcheck
        obtain rfl : vm₄ = vm₃ := (reads_structAt struct_).ok ho
        cases hmissing : missingField o provided with
        | some slot =>
          rw [hmissing] at hend
          dsimp only at hend
          cases hname : structFieldName o.fields slot with
          | some name =>
            rw [hname] at hend
            exact absurd hnone (Refuses.bind (fun _ => refuses_failWith _) _ _ _ hend)
          | none =>
            rw [hname] at hend
            exact absurd hnone (Refuses.bind (fun _ => refuses_failWith _) _ _ _ hend)
        | none =>
          rw [hmissing] at hend
          have hpopped := next_shiftsFrom
            (popTo_shifts (-2 * (function.byteAt offset).toNat) (by omega)) _ _ hend hnone
          exact hset.trans hpopped rfl (Int.zero_add _) frame rest hframes
    | _ => exact absurd hnone (refuses_failWith _ _ _ _ hrest)

end Counted

/-! ### Closures -/

theorem newClosure_captures {function closure : Ref} {memory memory' : Memory}
    (h : newClosure function memory = some (closure, memory')) :
    ∃ f, memory.gc.function? function = some f ∧ memory'.gc.closure? closure =
      some { function, upvalues := List.replicate f.upvalueCount.toNat null } := by
  obtain ⟨f, memory₁, hread, hrest⟩ := Mem.bind_eq_some h
  obtain ⟨f', hf, heq⟩ := Option.map_eq_some_iff.mp hread
  cases heq
  obtain ⟨_, memory₂, -, halloc⟩ := Mem.bind_eq_some hrest
  obtain ⟨_, memory₃, -, hlink⟩ := Mem.bind_eq_some halloc
  cases hlink
  refine ⟨f, hf, ?_⟩
  show (Function.update memory₃.gc.heap memory₃.gc.nextRef _ memory₃.gc.nextRef).bind _ = _
  rw [Function.update_self]
  rfl

theorem shifts_captureLoop (frame : CallFrame) (closure : Ref) (i : ℕ) :
    Shifts always 2 0 (captureLoop frame closure i) := by
  have hwrite : ∀ upvalue, Shifts always 0 0 (do
      let o ← closureAt closure
      liftMem (writeObj closure (.closure { o with upvalues := o.upvalues.set i upvalue }))) :=
    fun upvalue => (reads_closureAt closure).shifts fun o => shifts_writeObj _ _
  refine .readByte fun isLocal => .readByte fun index => ?_
  dsimp only
  split
  · exact (shifts_captureUpvalue _).next fun upvalue => hwrite upvalue
  · exact (reads_upvalueOf _ _).shifts fun upvalue => hwrite upvalue

/-- `OP_CLOSURE` reads two more bytes for each variable that is captured. -/
theorem opClosure_shifts {function : ObjFunction} {offset : ℕ} {frame : CallFrame}
    {rest : List CallFrame} (hat : vm.IsAt function (offset + 1) frame rest) :
    ShiftsFrom continues (1 + 2 * vm.gc.capturedAt function offset) 1 opClosure vm := by
  refine next_shiftsFrom ?_
  intro a vm'' hrun _
  obtain ⟨value, vm₁, hvalue, hrest⟩ := bind_eq_ok hrun
  obtain ⟨hconstant, -, hgc, -⟩ := hat.readConstant hvalue
  have hread : vm.Shifts 1 0 vm₁ := by
    have hall : Shifts always 1 0 (readConstant >>= pure) :=
      .readConstant fun value => shifts_pure value
    exact hall vm value vm₁ (by rw [bind_ok hvalue]; rfl) trivial
  cases value with
  | obj captured =>
    obtain ⟨frame₁, vm₂, hframe, hclosure⟩ := bind_eq_ok hrest
    obtain rfl : vm₂ = vm₁ := reads_currentFrame.ok hframe
    obtain ⟨closure, vm₃, hmake, howner⟩ := bind_eq_ok hclosure
    have hmade := (@Mem.evolving_newClosure 0 captured).shifts vm₂ _ _ hmake trivial
    obtain ⟨running, vm₄, hrunning, hfresh⟩ := bind_eq_ok howner
    obtain rfl : vm₄ = vm₃ := (reads_closureAt _).ok hrunning
    obtain ⟨o, vm₅, ho, hloop⟩ := bind_eq_ok hfresh
    obtain ⟨hfound, rfl⟩ := orFault_ok ho
    obtain ⟨memory, hmemory, hsame⟩ := liftMem_ok hmake
    obtain ⟨f, hf, hnew⟩ := newClosure_captures hmemory
    have hcount : o.upvalues.length = vm.gc.capturedAt function offset := by
      rw [hsame] at hfound
      cases hnew.symm.trans hfound
      rw [GC.capturedAt, hconstant]
      show _ = ((vm.gc.function? captured).map _).getD 0
      rw [← hgc, hf, List.length_replicate]
      rfl
    have hcaptured : Shifts always (o.upvalues.length * 2) 1 (do
        push (.obj closure)
        (List.range o.upvalues.length).forM (captureLoop frame₁ closure)) := by
      have hloop := shifts_forM (List.range o.upvalues.length) (shifts_captureLoop frame₁ closure)
      rw [List.length_range] at hloop
      exact .push fun _ => hloop
    have hrest := (shifts_writeObj closure _).next (fun _ => hcaptured) _ _ _ hloop trivial
    rw [hcount] at hrest
    exact hread.trans (hmade.trans hrest (Nat.zero_add _) rfl) (by rw [Nat.mul_comm]) rfl
  | boolean _ => cases hrest
  | nil => cases hrest
  | number _ _ => cases hrest

/-! ### Whole instructions -/

/-- Where an instruction that stays in its function goes on. -/
def GC.Follows (gc : GC) (function : ObjFunction) (offset : ℕ) (op : OpCode) (ip : ℤ) : Prop :=
  let after : ℤ := offset + gc.instructionLength function offset op
  match op with
  | .jump => ip = after + function.shortAt (offset + 1)
  | .jumpIfFalse | .jumpIfNotNil => ip = after ∨ ip = after + function.shortAt (offset + 1)
  | .loop => ip = after - function.shortAt (offset + 1)
  | _ => ip = after

/-- What an instruction at `offset` of the running function does when it is not the last of a run. -/
inductive VM.Ends (function : ObjFunction) (offset : ℕ) (op : OpCode) (frame : CallFrame)
    (rest : List CallFrame) (vm vm' : VM) : Prop
  /-- A native has reported an error that it goes on after. -/
  | failed (frames : vm'.frames = [])
  /-- The table says how high the stack is. -/
  | stays (isReturn : op ≠ .return_) (ip : ℤ) (follows : vm.gc.Follows function offset op ip)
      (frames : vm'.frames = { frame with ip } :: rest)
      (stackTop : vm'.stackTop = vm.stackTop + op.effect (function.instructionCount offset op))
  /-- The callee and its arguments are the first slots of a new frame. -/
  | enters (isCall : op = .call ∨ op = .invoke) (closure : Ref)
      (frames : vm'.frames =
        ⟨closure, 0, vm.stackTop - function.instructionCount offset op - 1⟩ ::
          { frame with ip := offset + vm.gc.instructionLength function offset op } :: rest)
      (stackTop : vm'.stackTop = vm.stackTop)
  /-- The result is where the callee was. -/
  | returns (isReturn : op = .return_) (frames : vm'.frames = rest) (notLast : rest ≠ [])
      (stackTop : vm'.stackTop = frame.slots + 1)

section Whole

variable {function : ObjFunction} {offset : ℕ} {frame : CallFrame} {rest : List CallFrame}
  {op : OpCode}

/-- An instruction that has read its operands, with the opcode before them. -/
theorem VM.Ends.ofShifts (hat : vm.IsAt function (offset + 1) frame rest)
    (hreturn : op ≠ .return_)
    (hfollows : vm.gc.Follows function offset op
      (offset + vm.gc.instructionLength function offset op))
    (hused : used + 1 = vm.gc.instructionLength function offset op)
    (hup : up = op.effect (function.instructionCount offset op)) (h : vm.Shifts used up vm') :
    vm.Ends function offset op frame rest vm' := by
  obtain ⟨hframes, htop⟩ := h frame rest hat.frames
  refine .stays hreturn _ hfollows ?_ (hup ▸ htop)
  rw [hframes, hat.ip, ← hused]
  push_cast
  rw [add_assoc, Int.add_comm 1]

/-- The instructions that only go on to the next one, without a count. -/
def isSteady : OpCode → Bool
  | .return_ | .jump | .jumpIfFalse | .jumpIfNotNil | .loop | .call | .invoke | .closure
  | .structInit | .list | .array | .closeBlockExpr => false
  | _ => true

theorem shifts_execute (hplain : isSteady op = true) :
    Shifts continues (opInfo op).operandBytes (opInfo op).stackEffect (execute host op) := by
  cases op with
  | constant => exact shifts_next (.readConstant fun value => shifts_push value)
  | nil => exact shifts_next (shifts_push _)
  | true_ => exact shifts_next (shifts_push _)
  | false_ => exact shifts_next (shifts_push _)
  | add => exact shifts_opAdd host
  | subtract => exact shifts_orFailed (shifts_numberBinary host _ _)
  | multiply => exact shifts_orFailed (shifts_numberBinary host _ _)
  | divide => exact shifts_orFailed (shifts_numberBinary host _ _)
  | modulo => exact shifts_orFailed (shifts_numberBinary host _ _)
  | negate => exact shifts_opNegate host
  | print => exact shifts_opPrint host
  | equal => exact shifts_next (.pop fun _ => .pop fun _ => (shifts_push _).last rfl)
  | not_ => exact shifts_next (.pop fun _ => (shifts_push _).last rfl)
  | pop => exact shifts_next (.pop fun _ => shifts_pure _)
  | closeUpvalue =>
    exact shifts_next (shifts_read fun _ => (shifts_closeUpvalues _).next fun _ => .pop fun _ =>
      shifts_pure _)
  | defineGlobal => exact shifts_opDefineGlobal
  | getGlobal => exact shifts_opGetGlobal
  | setGlobal => exact shifts_opSetGlobal
  | getUpvalue => exact shifts_opGetUpvalue
  | setUpvalue => exact shifts_opSetUpvalue
  | getLocal =>
    exact shifts_next (.readByte fun _ => shifts_read fun _ => reads_currentFrame.shifts fun _ =>
      shifts_push _)
  | setLocal =>
    exact shifts_next (.readByte fun _ => reads_currentFrame.shifts fun _ =>
      (reads_peekStack _).shifts fun _ => shifts_setSlot _ _)
  | greater => exact shifts_orFailed (shifts_numberCompare _)
  | less => exact shifts_orFailed (shifts_numberCompare _)
  | struct_ =>
    exact shifts_next (.readString fun name => (@Mem.evolving_newStruct 0 name).shifts.next fun _ =>
      shifts_push _)
  | field => exact shifts_opField
  | getProperty => exact shifts_opGetProperty
  | setProperty => exact shifts_opSetProperty
  | method => exact .readString fun name => shifts_orFailed (shifts_defineMethod name)
  | getIndex => exact shifts_opGetIndex
  | setIndex => exact shifts_opSetIndex
  | cast => exact shifts_opCast host
  | return_ | jump | jumpIfFalse | jumpIfNotNil | loop | call | invoke | closure | structInit | list
  | array | closeBlockExpr => cases hplain

theorem plain_ends (hplain : isSteady op = true) (hat : vm.IsAt function (offset + 1) frame rest)
    (h : execute host op vm = (.ok none, vm')) : vm.Ends function offset op frame rest vm' := by
  refine .ofShifts hat ?_ ?_ ?_ ?_ (shifts_execute host hplain vm none vm' h rfl)
  · rintro rfl
    cases hplain
  · cases op <;> first | rfl | cases hplain
  · cases op <;> first | rfl | cases hplain
  · cases op <;> first | rfl | cases hplain

theorem readShort_at (hat : vm.IsAt function offset frame rest) {short : ℕ}
    (h : readShort vm = (.ok short, vm')) :
    short = function.shortAt offset ∧
      vm' = { vm with frames := { frame with ip := frame.ip + 1 + 1 } :: rest } ∧
      vm'.IsAt function (offset + 1 + 1) { frame with ip := frame.ip + 1 + 1 } rest := by
  obtain ⟨high, vm₁, hhigh, hrest⟩ := bind_eq_ok h
  obtain ⟨rfl, -, rfl, hat₁⟩ := hat.readByte hhigh
  obtain ⟨low, vm₂, hlow, hshort⟩ := bind_eq_ok hrest
  obtain ⟨rfl, -, rfl, hat₂⟩ := hat₁.readByte hlow
  cases hshort
  exact ⟨rfl, rfl, hat₂⟩

theorem setIp_at (hat : vm.IsAt function offset frame rest) {ip : ℤ} {a : Unit}
    (h : setIp ip vm = (.ok a, vm')) : vm' = { vm with frames := { frame with ip } :: rest } := by
  have hset : setIp ip vm = (.ok (), { vm with frames := { frame with ip } :: rest }) := by
    have hmodify : ∀ f : VM → VM, (modify f : M Unit) vm = (.ok (), f vm) := fun _ => rfl
    rw [setIp, hmodify, hat.frames]
  exact (Prod.mk.inj (hset.symm.trans h)).2.symm

/-- A jump is made when its condition holds of the value on top of the stack. -/
theorem jumpIf_at (hat : vm.IsAt function offset frame rest) {condition : Value → Bool}
    (h : jumpIf condition vm = (.ok none, vm')) :
    vm'.stackTop = vm.stackTop ∧ vm'.frames = { frame with
      ip := offset + 2 + if condition (vm.stack (vm.stackTop - 1)) then
        (function.shortAt offset : ℤ) else 0 } :: rest := by
  obtain ⟨_, vm₁, hjump, hnone⟩ := bind_eq_ok h
  cases hnone
  obtain ⟨short, vm₂, hshort, hrest⟩ := bind_eq_ok hjump
  obtain ⟨rfl, rfl, hat₂⟩ := readShort_at hat hshort
  obtain ⟨top, vm₃, htop, hset⟩ := bind_eq_ok hrest
  cases htop
  have hip : frame.ip + 1 + 1 = (offset : ℤ) + 2 := by
    rw [hat.ip]
    omega
  by_cases hcondition : condition (vm.stack (vm.stackTop - 1)) = true
  · rw [if_pos hcondition]
    rw [if_pos (by simpa using hcondition), bind_ok hat₂.currentFrame] at hset
    rw [setIp_at hat₂ hset]
    exact ⟨rfl, by simp only [hip]⟩
  · rw [if_neg hcondition]
    rw [if_neg (by simpa using hcondition)] at hset
    cases hset
    exact ⟨rfl, by simp only [hip, Int.add_zero]⟩

theorem loop_at (hat : vm.IsAt function offset frame rest)
    (h : execute host .loop vm = (.ok none, vm')) :
    vm'.stackTop = vm.stackTop ∧
      vm'.frames = { frame with ip := offset + 2 - function.shortAt offset } :: rest := by
  obtain ⟨_, vm₁, hjump, hnone⟩ := bind_eq_ok h
  cases hnone
  obtain ⟨short, vm₂, hshort, hset⟩ := bind_eq_ok hjump
  obtain ⟨rfl, rfl, hat₂⟩ := readShort_at hat hshort
  rw [bind_ok hat₂.currentFrame] at hset
  rw [setIp_at hat₂ hset]
  have hip : frame.ip + 1 + 1 = (offset : ℤ) + 2 := by
    rw [hat.ip]
    omega
  exact ⟨rfl, by simp only [hip]⟩

/-- A function that is not the last one leaves its result where it was called. -/
theorem opReturn_at (hat : vm.IsAt function offset frame rest)
    (h : opReturn vm = (.ok none, vm')) :
    rest ≠ [] ∧ vm'.frames = rest ∧ vm'.stackTop = frame.slots + 1 := by
  unfold opReturn at h
  rw [bind_ok hat.currentFrame] at h
  obtain ⟨result, vm₁, hpop, hclose⟩ := bind_eq_ok h
  cases hpop
  obtain ⟨_, vm₂, hclosed, htail⟩ := bind_eq_ok hclose
  have hkept : vm₂.frames = vm.frames := by
    cases hclosed
    exact (closeUpvaluesLoop_stack _ _ _).2.2
  obtain ⟨_, vm₃, hmodify, hrest⟩ := bind_eq_ok htail
  cases hmodify
  have hframes : vm₂.frames.tail = rest := by rw [hkept, hat.frames, List.tail_cons]
  change (ite (vm₂.frames.tail = []) _ _ : M (Option InterpretResult)) _ = _ at hrest
  rw [hframes] at hrest
  by_cases hlast : rest = []
  · rw [if_pos hlast] at hrest
    cases hrest
  · rw [if_neg hlast] at hrest
    cases hrest
    refine ⟨hlast, hframes, ?_⟩
    show vm₂.stackTop - (vm₂.stackTop - frame.slots) + 1 = frame.slots + 1
    omega

/-- The instructions that call something. -/
theorem VM.Called.ends {count : ℕ} (hat : vm.IsAt function (offset + 1) frame rest)
    (hcall : op = .call ∨ op = .invoke) (hcount : function.instructionCount offset op = count)
    (hread : vm.Shifts (opInfo op).operandBytes 0 vm')
    (h : vm'.Called count vm'') : vm.Ends function offset op frame rest vm'' := by
  have hfollows : vm.gc.Follows function offset op
      (offset + vm.gc.instructionLength function offset op) := by
    rcases hcall with rfl | rfl <;> exact rfl
  have hused : (opInfo op).operandBytes + 1 = vm.gc.instructionLength function offset op := by
    rcases hcall with rfl | rfl <;> exact rfl
  have heffect : op.effect count = -count := by
    rcases hcall with rfl | rfl <;> simp [OpCode.effect, opInfo]
  cases h with
  | failed hnone => exact .failed hnone
  | returned hshifts =>
    refine .ofShifts hat (by rcases hcall with rfl | rfl <;> simp) hfollows hused ?_
      (hread.trans hshifts rfl (Int.zero_add _))
    rw [hcount, heffect]
  | entered closure hframes htop =>
    obtain ⟨hframe, hsame⟩ := hread frame rest hat.frames
    have hip : frame.ip + (opInfo op).operandBytes =
        offset + vm.gc.instructionLength function offset op := by
      rw [hat.ip, ← hused]
      push_cast
      omega
    rw [Int.add_zero] at hsame
    refine .enters hcall closure ?_ (htop.trans hsame)
    rw [hframes, hframe, hsame, hcount, hip]

theorem orFailed_none {p : M Bool} (h : orFailed p vm = (.ok none, vm')) :
    p vm = (.ok true, vm') := by
  obtain ⟨b, vm₁, hb, hrest⟩ := bind_eq_ok h
  cases b with
  | true =>
    cases hrest
    exact hb
  | false => cases hrest

theorem call_ends (hat : vm.IsAt function (offset + 1) frame rest)
    (h : execute host .call vm = (.ok none, vm')) :
    vm.Ends function offset .call frame rest vm' := by
  obtain ⟨count, vm₁, hcount, hpeek⟩ := bind_eq_ok h
  obtain ⟨rfl, -⟩ := hat.readByte hcount
  obtain ⟨callee, vm₂, hcallee, hcall⟩ := bind_eq_ok hpeek
  cases hcallee
  exact (calls_callValue host _ _ _ _ (orFailed_none hcall)).ends hat (.inl rfl) rfl
    (readByte_shifts hcount)

theorem invoke_ends (hat : vm.IsAt function (offset + 1) frame rest)
    (h : execute host .invoke vm = (.ok none, vm')) :
    vm.Ends function offset .invoke frame rest vm' := by
  obtain ⟨name, vm₁, hname, hcount⟩ := bind_eq_ok h
  obtain ⟨value, vm₂, hvalue, hstring⟩ := bind_eq_ok hname
  obtain rfl : vm₁ = vm₂ := (reads_asStringRef value).ok hstring
  obtain ⟨-, -, -, hat₁⟩ := hat.readConstant hvalue
  obtain ⟨count, vm₃, hread, hinvoke⟩ := bind_eq_ok hcount
  obtain ⟨rfl, -⟩ := hat₁.readByte hread
  have hfirst : vm.Shifts 1 0 vm₁ := by
    have hall : Shifts always 1 0 (readString >>= pure) := .readString fun name => shifts_pure name
    exact hall vm name vm₁ (by rw [bind_ok hname]; rfl) trivial
  exact (calls_invoke host _ _ _ _ (orFailed_none hinvoke)).ends hat (.inr rfl) rfl
    (hfirst.trans (readByte_shifts hread) rfl rfl)

theorem jumpIf_ends {condition : Value → Bool} (hat : vm.IsAt function (offset + 1) frame rest)
    (hop : op = .jumpIfFalse ∨ op = .jumpIfNotNil) (h : jumpIf condition vm = (.ok none, vm')) :
    vm.Ends function offset op frame rest vm' := by
  obtain ⟨htop, hframes⟩ := jumpIf_at hat h
  refine .stays ?_ _ ?_ hframes ?_
  · rcases hop with rfl | rfl <;> simp
  · have hlength : ((offset : ℕ) : ℤ) + vm.gc.instructionLength function offset op =
        ((offset + 1 : ℕ) : ℤ) + 2 := by
      rcases hop with rfl | rfl <;> simp [GC.instructionLength, opInfo] <;> omega
    by_cases hcondition : condition (vm.stack (vm.stackTop - 1)) = true
    · rw [if_pos hcondition, ← hlength]
      rcases hop with rfl | rfl <;> exact .inr rfl
    · rw [if_neg hcondition, ← hlength, Int.add_zero]
      rcases hop with rfl | rfl <;> exact .inl rfl
  · rcases hop with rfl | rfl <;> simp [htop, OpCode.effect, opInfo]

/-- One lemma for each opcode, put together. -/
theorem execute_ends (hat : vm.IsAt function (offset + 1) frame rest)
    (h : execute host op vm = (.ok none, vm')) : vm.Ends function offset op frame rest vm' := by
  by_cases hplain : isSteady op = true
  · exact plain_ends host hplain hat h
  · cases op with
    | return_ =>
      obtain ⟨hlast, hframes, htop⟩ := opReturn_at hat h
      exact .returns rfl hframes hlast htop
    | jumpIfFalse => exact jumpIf_ends hat (.inl rfl) h
    | jumpIfNotNil => exact jumpIf_ends hat (.inr rfl) h
    | jump =>
      obtain ⟨htop, hframes⟩ := jumpIf_at hat h
      refine .stays (by simp) _ ?_ hframes (by simp [htop, OpCode.effect, opInfo])
      simp only [GC.Follows, GC.instructionLength, opInfo]
      simp
      omega
    | loop =>
      obtain ⟨htop, hframes⟩ := loop_at host hat h
      refine .stays (by simp) _ ?_ hframes (by simp [htop, OpCode.effect, opInfo])
      simp only [GC.Follows, GC.instructionLength, opInfo]
      simp
      omega
    | call => exact call_ends host hat h
    | invoke => exact invoke_ends host hat h
    | closure =>
      refine .ofShifts hat (by simp) rfl ?_ rfl (opClosure_shifts hat _ _ h rfl)
      simp [GC.instructionLength, opInfo]
      omega
    | structInit =>
      refine .ofShifts hat (by simp) rfl rfl ?_ (opStructInit_shifts hat _ _ h rfl)
      simp [OpCode.effect, opInfo, ObjFunction.instructionCount]
    | list =>
      refine .ofShifts hat (by simp) rfl rfl ?_ (opList_shifts hat _ _ h rfl)
      simp [OpCode.effect, opInfo, ObjFunction.instructionCount, Int.sub_eq_add_neg]
    | array =>
      refine .ofShifts hat (by simp) rfl rfl ?_ (opArray_shifts hat _ _ h rfl)
      simp [OpCode.effect, opInfo, ObjFunction.instructionCount, Int.sub_eq_add_neg]
    | closeBlockExpr =>
      refine .ofShifts hat (by simp) rfl rfl ?_ (opCloseBlockExpr_shifts hat _ _ h rfl)
      simp [OpCode.effect, opInfo, ObjFunction.instructionCount]
    | _ => exact absurd rfl hplain

/-- Reading the opcode and noting it down changes neither the heap nor the height. -/
theorem VM.Ends.ofRead {ip : ℤ} (hgc : vm'.gc = vm.gc) (htop : vm'.stackTop = vm.stackTop)
    (h : vm'.Ends function offset op { frame with ip } rest vm'') :
    vm.Ends function offset op frame rest vm'' := by
  cases h with
  | failed hnone => exact .failed hnone
  | stays hreturn ip' hfollows hframes htop' =>
    exact .stays hreturn ip' (hgc ▸ hfollows) hframes (htop ▸ htop')
  | enters hcall closure hframes htop' =>
    rw [hgc, htop] at hframes
    exact .enters hcall closure hframes (htop ▸ htop')
  | returns hreturn hframes hlast htop' => exact .returns hreturn hframes hlast htop'

/-- An instruction that is not the last of a run does what the table says. -/
theorem step_ends (hat : vm.IsAt function offset frame rest)
    (hop : OpCode.ofByte? (function.byteAt offset) = some op)
    (h : step host vm = (.ok none, vm')) : vm.Ends function offset op frame rest vm' := by
  obtain ⟨byte, vm₁, hbyte, hrest⟩ := bind_eq_ok h
  obtain ⟨rfl, hlt, rfl, hat₁⟩ := hat.readByte hbyte
  rw [hop] at hrest
  obtain ⟨_, vm₂, hlog, hexecute⟩ := bind_eq_ok hrest
  cases hlog
  have hat₂ : VM.IsAt function (offset + 1) { frame with ip := frame.ip + 1 } rest
      (VM.logged { vm with frames := { frame with ip := frame.ip + 1 } :: rest }
        (.instruction op)) := by
    exact ⟨rfl, hat₁.ip, functionOfClosure_congr hat.function rfl⟩
  refine .ofRead ?_ ?_ (execute_ends host hat₂ hexecute)
  · rfl
  · rfl

/-- A byte that is no opcode is passed over. -/
theorem step_passes (hat : vm.IsAt function offset frame rest)
    (hop : OpCode.ofByte? (function.byteAt offset) = none)
    (h : step host vm = (.ok none, vm')) :
    vm'.frames = { frame with ip := frame.ip + 1 } :: rest ∧ vm'.stackTop = vm.stackTop := by
  obtain ⟨byte, vm₁, hbyte, hrest⟩ := bind_eq_ok h
  obtain ⟨rfl, hlt, rfl, hat₁⟩ := hat.readByte hbyte
  rw [hop] at hrest
  cases hrest
  exact ⟨rfl, rfl⟩

end Whole

end KirbyLang.Vm
