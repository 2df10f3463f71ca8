import KirbyLang.Interning
import KirbyLang.StepLaw
import KirbyLang.Untraced

/-!
# Invocation

A call of a member is compiled to `OP_INVOKE` in place of `OP_GET_PROPERTY` and `OP_CALL`. It enters
the same callee on the same arguments as the two instructions do, or all report an error.

* `getThenCall`: the two instructions, with the member in the place of the receiver;
* `SameOutcome`: how what an instruction comes to is compared;
* `LooksUp`: programs that look members up; they find the same from states with the same heap;
* `invoke_unfused`: the outcomes are the same from every state.
-/

namespace KirbyLang.Vm

open Laws Twins

/-! ### The unfused form -/

section Unfused

variable (host : Host)

/-- What follows `OP_GET_PROPERTY`: the stack of the state before is there again with the member in
the place of the receiver, and the member is called. -/
def callMember (before : VM) (argCount : ℕ) :
    Option InterpretResult → M (Option InterpretResult)
  | some result => return some result
  | none => do
    let member ← peekStack 0
    modify fun vm => { vm with
      stack := Function.update before.stack (before.stackTop - argCount - 1) member
      stackTop := before.stackTop }
    opCall host

/-- `OP_GET_PROPERTY` on the receiver below the arguments, and `OP_CALL`. The operands of the two are
where `OP_INVOKE` has its own. -/
def getThenCall (argCount : ℕ) : M (Option InterpretResult) := do
  let before ← get
  push (← peekStack argCount)
  let failed ← opGetProperty
  callMember host before argCount failed

end Unfused

/-- The operands of `OP_INVOKE` are read. -/
def VM.ReadsInvoke (vm : VM) (name : Ref) (argCount : ℕ) : Prop :=
  ∃ vm₁ vm₂ count, readString vm = (.ok name, vm₁) ∧ readByte vm₁ = (.ok count, vm₂) ∧
    count.toNat = argCount

/-- The slot is the one below the arguments of a static method that is running. -/
def VM.belowStatic (vm : VM) (slot : ℤ) : Prop :=
  ∃ frame closure function, vm.frames.head? = some frame ∧ frame.slots = slot ∧
    vm.gc.closure? frame.closure = some closure ∧
    vm.gc.function? closure.function = some function ∧ function.isStatic = true

/-- Two states that go on alike. What a static method finds in the place of its receiver may differ,
and so may objects that nothing leads to. -/
structure VM.GoesOnAs (vm vm' : VM) : Prop where
  frames : vm'.frames = vm.frames
  stackTop : vm'.stackTop = vm.stackTop
  stack : ∀ slot, vm'.stack slot = vm.stack slot ∨ vm.belowStatic slot
  globals : vm'.globals = vm.globals
  openUpvalues : vm'.openUpvalues = vm.openUpvalues
  world : vm'.world = vm.world
  heap : ∀ r, vm.toMemory.FieldReachable r → vm'.gc.heap r = vm.gc.heap r

/-- How two runs of instructions compare: both go on, both report an error, or both end the process
in the same way. -/
def SameOutcome :
    Except Stop (Option InterpretResult) × VM → Except Stop (Option InterpretResult) × VM → Prop
  | (.ok none, vm), (.ok none, vm') => vm.GoesOnAs vm'
  | (.ok (some result), _), (.ok (some result'), _) =>
    result = .runtimeError ∧ result' = .runtimeError
  | (.error stop, vm), (.error stop', vm') => stop' = stop ∧ vm'.world = vm.world
  | _, _ => False

variable {host : Host} {vm vm' vm₁ vm₂ : VM} {α β : Type}

theorem VM.GoesOnAs.ofAlike (h : vm.Alike vm') : vm.GoesOnAs vm' := by
  obtain ⟨trace, rfl⟩ := h
  exact ⟨rfl, rfl, fun _ => .inl rfl, rfl, rfl, rfl, fun _ _ => rfl⟩

/-! ### Looking up -/

/-- A program that changes nothing, and looks at the heap and the owner of the running closure. -/
def LooksUp (p : M α) : Prop :=
  ∃ f : GC → Ref → Except Stop α, ∀ vm, p vm = (f vm.gc vm.currentOwner, vm)

theorem looksUp_pure (a : α) : LooksUp (pure a) := ⟨fun _ _ => .ok a, fun _ => rfl⟩

theorem looksUp_fault : LooksUp (fault : M α) := ⟨fun _ _ => .error .fault, fun _ => rfl⟩

theorem LooksUp.bind {p : M α} {f : α → M β} (hp : LooksUp p) (hf : ∀ a, LooksUp (f a)) :
    LooksUp (p >>= f) := by
  obtain ⟨look, hlook⟩ := hp
  choose next hnext using hf
  refine ⟨fun gc owner => (look gc owner).bind fun a => next a gc owner, fun vm => ?_⟩
  have hp := hlook vm
  cases hvm : look vm.gc vm.currentOwner with
  | error stop =>
    rw [hvm] at hp
    simp only [bind_error hp, hvm]
    rfl
  | ok a =>
    rw [hvm] at hp
    simp only [bind_ok hp, hnext a vm, hvm]
    rfl

/-- The heap is read. -/
theorem looksUp_gc (read : GC → Option α) : LooksUp (do orFault (read (← get).gc)) := by
  refine ⟨fun gc _ => (read gc).elim (.error .fault) .ok, fun vm => ?_⟩
  show orFault (read vm.gc) vm = ((read vm.gc).elim (.error .fault) .ok, vm)
  cases read vm.gc <;> rfl

theorem looksUp_structAt (r : Ref) : LooksUp (structAt r) := looksUp_gc fun gc => gc.struct? r

theorem looksUp_closureAt (r : Ref) : LooksUp (closureAt r) := looksUp_gc fun gc => gc.closure? r

theorem looksUp_functionOfClosure (r : Ref) : LooksUp (functionOfClosure r) :=
  (looksUp_closureAt r).bind fun closure => looksUp_gc fun gc => gc.function? closure.function

theorem looksUp_objectOf (value : Value) : LooksUp (objectOf value) := by
  cases value with
  | obj r => exact (looksUp_gc fun gc => gc.heap r).bind fun o => looksUp_pure _
  | _ => exact looksUp_pure none

theorem looksUp_asClosure (value : Value) : LooksUp (asClosure value) := by
  cases value with
  | obj r => exact (looksUp_closureAt r).bind fun _ => looksUp_pure r
  | _ => exact looksUp_fault

theorem looksUp_textOf (r : Ref) : LooksUp (textOf r) :=
  (looksUp_gc fun gc => gc.string? r).bind fun _ => looksUp_pure _

theorem looksUp_lookup (table : Table Ref Value) (key : Ref) : LooksUp (lookup table key) :=
  looksUp_gc fun gc => tableGet gc.hash table key

theorem looksUp_canAccess (struct_ : Ref) (isPublic : Bool) : LooksUp (canAccess struct_ isPublic) :=
  ⟨fun _ owner => .ok (isPublic || owner == struct_), fun _ => rfl⟩

theorem looksUp_structFieldSlot (struct_ name : Ref) : LooksUp (structFieldSlot struct_ name) := by
  refine (looksUp_structAt struct_).bind fun o => (looksUp_lookup _ _).bind fun found => ?_
  rcases found with _ | value
  · exact looksUp_pure none
  · cases value with
    | number _ _ => exact looksUp_pure _
    | _ => exact looksUp_fault

theorem looksUp_named (name struct_ : Ref) (f : Bytes → Bytes → Bytes) : LooksUp (do
    let name ← textOf name
    let structName ← textOf (← structAt struct_).name
    return f name structName) :=
  (looksUp_textOf _).bind fun _ => (looksUp_structAt _).bind fun _ => (looksUp_textOf _).bind fun _ =>
    looksUp_pure _

theorem looksUp_undefinedProperty (name : Ref) : LooksUp (undefinedProperty name) :=
  (looksUp_textOf _).bind fun _ => looksUp_pure _

theorem looksUp_privateMessage (kind : String) (name struct_ : Ref) :
    LooksUp (privateMessage kind name struct_) := looksUp_named name struct_ _

theorem looksUp_instanceMessage (name struct_ : Ref) : LooksUp (instanceMessage name struct_) :=
  looksUp_named name struct_ _

/-- States in which the same is found. -/
structure VM.Views (vm vm' : VM) : Prop where
  gc : vm'.gc = vm.gc
  owner : vm'.currentOwner = vm.currentOwner
  world : vm'.world = vm.world

theorem LooksUp.same {p : M α} (hp : LooksUp p) (h : vm.Views vm') :
    (∃ stop, p vm = (.error stop, vm) ∧ p vm' = (.error stop, vm')) ∨
      ∃ a, p vm = (.ok a, vm) ∧ p vm' = (.ok a, vm') := by
  obtain ⟨look, hlook⟩ := hp
  have hvm' := hlook vm'
  rw [h.gc, h.owner] at hvm'
  rw [hlook vm, hvm']
  cases look vm.gc vm.currentOwner with
  | error stop => exact .inl ⟨stop, rfl, rfl⟩
  | ok a => exact .inr ⟨a, rfl, rfl⟩

/-! ### Side by side -/

/-- What `invoke` comes to is what `OP_GET_PROPERTY` comes to, once the member is called. -/
def Matches (host : Host) (before : VM) (argCount : ℕ) (invoked : Except Stop Bool × VM)
    (got : Except Stop (Option InterpretResult) × VM) : Prop :=
  SameOutcome (orFailed (fun _ => invoked) before)
    (((fun _ => got : M (Option InterpretResult)) >>= callMember host before argCount) before)

variable {before : VM} {argCount : ℕ}

theorem Matches.looks {p : M α} {f : α → M Bool} {g : α → M (Option InterpretResult)}
    (hp : LooksUp p) (hviews : vm.Views vm')
    (h : ∀ a, p vm = (.ok a, vm) → p vm' = (.ok a, vm') →
      Matches host before argCount (f a vm) (g a vm')) :
    Matches host before argCount ((p >>= f) vm) ((p >>= g) vm') := by
  rcases hp.same hviews with ⟨stop, hstop, hstop'⟩ | ⟨a, ha, ha'⟩
  · rw [bind_error hstop, bind_error hstop']
    exact ⟨rfl, hviews.world⟩
  · rw [bind_ok ha, bind_ok ha']
    exact h a ha ha'

theorem matches_errors (message message' : Bytes) :
    Matches host before argCount (refuse message vm) (failWith message' vm') := ⟨rfl, rfl⟩

/-- Both report an error, with messages that are looked up. -/
theorem Matches.messages {p : M Bytes} (hp : LooksUp p) (hviews : vm.Views vm') :
    Matches host before argCount ((p >>= refuse) vm) ((p >>= failWith) vm') :=
  .looks hp hviews fun message _ _ => matches_errors message message

/-- The checks on a method come out alike, but for the text of the message. -/
theorem methodError_alike (isStatic : Bool) {wrongKind wrongKind' : Ref → Ref → M Bytes}
    {struct_ name method : Ref} (hviews : vm.Views vm')
    (hkind : (∃ stop, wrongKind name struct_ vm = (.error stop, vm) ∧
        wrongKind' name struct_ vm' = (.error stop, vm')) ∨
      ∃ message message', wrongKind name struct_ vm = (.ok message, vm) ∧
        wrongKind' name struct_ vm' = (.ok message', vm')) :
    (∃ stop, methodError isStatic wrongKind struct_ name method vm = (.error stop, vm) ∧
      methodError isStatic wrongKind' struct_ name method vm' = (.error stop, vm')) ∨
    (∃ message message',
      methodError isStatic wrongKind struct_ name method vm = (.ok (some message), vm) ∧
      methodError isStatic wrongKind' struct_ name method vm' = (.ok (some message'), vm')) ∨
    ∃ function, functionOfClosure method vm = (.ok function, vm) ∧
      function.isStatic = isStatic ∧
      methodError isStatic wrongKind struct_ name method vm = (.ok none, vm) ∧
      methodError isStatic wrongKind' struct_ name method vm' = (.ok none, vm') := by
  unfold methodError
  rcases (looksUp_functionOfClosure method).same hviews with ⟨stop, h, h'⟩ | ⟨function, h, h'⟩
  · exact .inl ⟨stop, bind_error h, bind_error h'⟩
  · rw [bind_ok h, bind_ok h']
    by_cases hstatic : function.isStatic = isStatic
    · rw [if_neg (not_not_intro hstatic), if_neg (not_not_intro hstatic)]
      rcases (looksUp_canAccess struct_ function.isPublic).same hviews with
        ⟨stop, hb, hb'⟩ | ⟨b, hb, hb'⟩
      · exact .inl ⟨stop, bind_error hb, bind_error hb'⟩
      · rw [bind_ok hb, bind_ok hb']
        cases b with
        | true => exact .inr (.inr ⟨function, h, hstatic, rfl, rfl⟩)
        | false =>
          rcases (looksUp_privateMessage "Method" name struct_).same hviews with
            ⟨stop, hm, hm'⟩ | ⟨message, hm, hm'⟩
          · exact .inl ⟨stop, bind_error hm, bind_error hm'⟩
          · exact .inr (.inl ⟨message, message, bind_ok hm, bind_ok hm'⟩)
    · rw [if_pos hstatic, if_pos hstatic]
      rcases hkind with ⟨stop, hm, hm'⟩ | ⟨message, message', hm, hm'⟩
      · exact .inl ⟨stop, bind_error hm, bind_error hm'⟩
      · exact .inr (.inl ⟨message, message', bind_ok hm, bind_ok hm'⟩)

theorem staticMessage_alike (how how' : String) (name struct_ : Ref) (hviews : vm.Views vm') :
    (∃ stop, staticMessage how name struct_ vm = (.error stop, vm) ∧
        staticMessage how' name struct_ vm' = (.error stop, vm')) ∨
      ∃ message message', staticMessage how name struct_ vm = (.ok message, vm) ∧
        staticMessage how' name struct_ vm' = (.ok message', vm') := by
  unfold staticMessage
  rcases (looksUp_textOf name).same hviews with ⟨stop, h, h'⟩ | ⟨chars, h, h'⟩
  · exact .inl ⟨stop, bind_error h, bind_error h'⟩
  · rw [bind_ok h, bind_ok h']
    rcases (looksUp_structAt struct_).same hviews with ⟨stop, h, h'⟩ | ⟨o, h, h'⟩
    · exact .inl ⟨stop, bind_error h, bind_error h'⟩
    · rw [bind_ok h, bind_ok h']
      rcases (looksUp_textOf o.name).same hviews with ⟨stop, h, h'⟩ | ⟨structName, h, h'⟩
      · exact .inl ⟨stop, bind_error h, bind_error h'⟩
      · exact .inr ⟨_, _, bind_ok h, bind_ok h'⟩

/-! ### Reading the operands -/

/-- Reading a name moves on by a byte. -/
theorem readString_moves {name : Ref} (h : readString vm = (.ok name, vm')) :
    ∃ frame rest, vm.frames = frame :: rest ∧
      vm' = { vm with frames := { frame with ip := frame.ip + 1 } :: rest } := by
  obtain ⟨value, vm₁, hconstant, hname⟩ := bind_eq_ok h
  obtain rfl : vm' = vm₁ := (reads_asStringRef value).ok hname
  obtain ⟨index, vm₂, hindex, hframeRest⟩ := bind_eq_ok hconstant
  obtain ⟨frame', vm₃, hframe, hfunctionRest⟩ := bind_eq_ok hframeRest
  obtain rfl : vm₃ = vm₂ := reads_currentFrame.ok hframe
  obtain ⟨function, vm₄, hfunction, hvalue⟩ := bind_eq_ok hfunctionRest
  obtain rfl : vm₄ = vm₃ := (reads_functionOfClosure _).ok hfunction
  obtain rfl : vm' = vm₄ := (reads_orFault _).ok hvalue
  obtain ⟨frame, rest, hnext, rfl⟩ := readByte_eq_ok.mp hindex
  exact ⟨frame, rest, hnext.1, rfl⟩

/-- States that differ in the stack and the trace only. -/
def VM.SameCode (vm vm' : VM) : Prop := ∃ stack stackTop trace, vm' = { vm with stack, stackTop, trace }

theorem respects_functionOfClosure (closure : Ref) :
    Respects VM.SameCode (functionOfClosure closure) := by
  refine Respects.bind (respects_get ?_ fun _ => respects_orFault _) fun o =>
    respects_get ?_ fun _ => respects_orFault _
  · rintro vm _ ⟨stack, stackTop, trace, rfl⟩
    rfl
  · rintro vm _ ⟨stack, stackTop, trace, rfl⟩
    rfl

theorem respects_readString : Respects VM.SameCode readString := by
  have hframe : Respects VM.SameCode currentFrame := by
    refine respects_get ?_ fun _ => respects_orFault _
    rintro vm _ ⟨stack, stackTop, trace, rfl⟩
    rfl
  have hbyte : Respects VM.SameCode readByte := by
    refine hframe.bind fun frame => (respects_functionOfClosure _).bind fun function => ?_
    by_cases hip : frame.ip < 0
    · rw [if_pos hip]
      exact respects_throw _
    · rw [if_neg hip]
      refine (respects_orFault _).bind fun code => (respects_modify ?_).bind fun _ => respects_pure _
      rintro vm _ ⟨stack, stackTop, trace, rfl⟩
      rcases vm with ⟨⟨gc, stack₀, stackTop₀, frames, globals, openUpvalues, trace₀⟩, world⟩
      cases frames with
      | nil => exact ⟨stack, stackTop, trace, rfl⟩
      | cons frame frames => exact ⟨stack, stackTop, trace, rfl⟩
  refine (hbyte.bind fun index => hframe.bind fun frame =>
    (respects_functionOfClosure _).bind fun function => respects_orFault _).bind fun value => ?_
  cases value with
  | obj r =>
    refine Respects.bind (respects_get ?_ fun _ => respects_orFault _) fun _ => respects_pure r
    rintro vm _ ⟨stack, stackTop, trace, rfl⟩
    rfl
  | _ => exact respects_throw _

/-- A name is read whatever the stack is. -/
theorem readString_sameCode {name : Ref} (h : readString vm = (.ok name, vm₁))
    (hsame : vm.SameCode vm') :
    readString vm' = (.ok name, { vm' with frames := vm₁.frames }) := by
  obtain ⟨hname, hend⟩ := respects_readString vm vm' hsame
  rcases hread : readString vm' with ⟨result, vm₂⟩
  rw [hread, h] at hname hend
  obtain ⟨stack, stackTop, trace, hframes⟩ := hend
  cases hname
  obtain ⟨frames, rfl⟩ := readString_ok hread
  obtain rfl : frames = vm₁.frames := congrArg (fun vm : VM => vm.frames) hframes
  rfl

/-! ### The call -/

theorem call_eq {closure : Ref} {function : ObjFunction}
    (h : functionOfClosure closure vm = (.ok function, vm)) (argCount : ℕ) :
    call closure argCount vm =
      if (argCount : ℤ) ≠ function.arity then
        refuse (text "Expected " ++ decimal function.arity ++ text " arguments but got " ++
          decimal argCount ++ text ".") vm
      else if vm.frames.length = framesMax then refuse (text "Stack overflow.") vm
      else (.ok true, { vm with
        frames := { closure, ip := 0, slots := vm.stackTop - argCount - 1 } :: vm.frames }) := by
  refine (bind_ok h).trans ?_
  by_cases harity : (argCount : ℤ) ≠ function.arity
  · rw [if_pos harity, if_pos harity]
  · rw [if_neg harity, if_neg harity]
    show (if vm.frames.length = framesMax then refuse (text "Stack overflow.") else _ : M Bool) vm = _
    by_cases hfull : vm.frames.length = framesMax
    · rw [if_pos hfull, if_pos hfull]
    · rw [if_neg hfull, if_neg hfull]
      rfl

/-- The stack of the state before, with a member in the place of the receiver. -/
def VM.calling (vm before : VM) (argCount : ℕ) (member : Value) (frames : List CallFrame) : VM :=
  { vm with
    stack := Function.update before.stack (before.stackTop - argCount - 1) member
    stackTop := before.stackTop
    frames }

/-- The member is called: its instruction's operand is the number of arguments. -/
theorem callMember_none {count : UInt8} {frame : CallFrame} {rest : List CallFrame} {member : Value}
    (hcount : count.toNat = argCount) (hnext : vm.NextByte count frame rest)
    (hmember : vm.stack (vm.stackTop - 1) = member) :
    callMember host before argCount none vm = orFailed (callValue host member argCount)
      (vm.calling before argCount member ({ frame with ip := frame.ip + 1 } :: rest)) := by
  subst hcount
  obtain ⟨hframes, hip, function, code, hfunction, hcode, hbyte⟩ := hnext
  let replaced : VM := { vm with
    stack := Function.update before.stack (before.stackTop - count.toNat - 1) member
    stackTop := before.stackTop }
  have hread : readByte replaced =
      (.ok count, { replaced with frames := { frame with ip := frame.ip + 1 } :: rest }) :=
    readByte_eq_ok.mpr ⟨frame, rest, ⟨hframes, hip, function, code,
      functionOfClosure_eq_ok.mpr ⟨rfl, (functionOfClosure_eq_ok.mp hfunction).2⟩, hcode, hbyte⟩, rfl⟩
  have hstart : callMember host before count.toNat none vm = opCall host replaced := by
    show opCall host { vm with
      stack := Function.update before.stack (before.stackTop - count.toNat - 1)
        (vm.stack (vm.stackTop - 1 - 0))
      stackTop := before.stackTop } = _
    rw [sub_zero, hmember]
  rw [hstart]
  refine (bind_ok hread).trans ?_
  show orFailed (callValue host (Function.update before.stack (before.stackTop - count.toNat - 1) member
    (before.stackTop - 1 - count.toNat)) count.toNat) _ = _
  rw [show before.stackTop - 1 - (count.toNat : ℤ) = before.stackTop - count.toNat - 1 by omega,
    Function.update_self]
  rfl

theorem sameOutcome_blind {p : M Bool} (hp : Blind p) (h : vm.Alike vm') :
    SameOutcome (orFailed p vm) (orFailed p vm') := by
  obtain ⟨hsame, hend⟩ := hp vm vm' h
  rcases hvm : p vm with ⟨stop | b, w⟩ <;> rcases hvm' : p vm' with ⟨stop' | b', w'⟩ <;>
    simp only [hvm, hvm', reduceCtorEq] at hsame hend
  · cases hsame
    rw [show orFailed p vm = _ from bind_error hvm, show orFailed p vm' = _ from bind_error hvm']
    obtain ⟨trace, rfl⟩ := hend
    exact ⟨rfl, rfl⟩
  · cases hsame
    rw [show orFailed p vm = _ from bind_ok hvm, show orFailed p vm' = _ from bind_ok hvm']
    cases b with
    | true => exact .ofAlike hend
    | false => exact ⟨rfl, rfl⟩

/-- The closure is called in both, with the same function. -/
theorem sameOutcome_call {closure : Ref} {function : ObjFunction}
    (h : functionOfClosure closure vm = (.ok function, vm))
    (h' : functionOfClosure closure vm' = (.ok function, vm')) (hframes : vm'.frames = vm.frames)
    (hstackTop : vm'.stackTop = vm.stackTop) (hglobals : vm'.globals = vm.globals)
    (hopen : vm'.openUpvalues = vm.openUpvalues) (hworld : vm'.world = vm.world)
    (hstack : ∀ slot, vm'.stack slot = vm.stack slot ∨
      slot = vm.stackTop - argCount - 1 ∧ function.isStatic = true)
    (hheap : ∀ frame, frame.closure = closure → ∀ r,
      Memory.FieldReachable { vm.toMemory with frames := frame :: vm.frames } r →
        vm'.gc.heap r = vm.gc.heap r) :
    SameOutcome (orFailed (call closure argCount) vm) (orFailed (call closure argCount) vm') := by
  have hcall := call_eq h argCount
  have hcall' := call_eq h' argCount
  by_cases harity : (argCount : ℤ) ≠ function.arity
  · rw [if_pos harity] at hcall hcall'
    rw [show orFailed (call closure argCount) vm = _ from bind_ok hcall,
      show orFailed (call closure argCount) vm' = _ from bind_ok hcall']
    exact ⟨rfl, rfl⟩
  · rw [if_neg harity] at hcall hcall'
    by_cases hfull : vm.frames.length = framesMax
    · rw [if_pos hfull] at hcall
      rw [hframes, if_pos hfull] at hcall'
      rw [show orFailed (call closure argCount) vm = _ from bind_ok hcall,
        show orFailed (call closure argCount) vm' = _ from bind_ok hcall']
      exact ⟨rfl, rfl⟩
    · rw [if_neg hfull] at hcall
      rw [hframes, if_neg hfull, hstackTop] at hcall'
      rw [show orFailed (call closure argCount) vm = _ from bind_ok hcall,
        show orFailed (call closure argCount) vm' = _ from bind_ok hcall']
      obtain ⟨-, o, ho, hfunction⟩ := functionOfClosure_eq_ok.mp h
      refine ⟨rfl, rfl, fun slot => (hstack slot).imp_right ?_, hglobals, hopen, hworld,
        hheap _ rfl⟩
      rintro ⟨rfl, hstatic⟩
      exact ⟨_, o, function, rfl, rfl, ho, hfunction, hstatic⟩

/-- A bound method is made. What can be reached stays as it is. -/
theorem newBoundMethod_spec {memory : Memory} (wf : memory.WellFormed) (receiver : Value)
    (method : Ref) : ∃ bound memory', newBoundMethod receiver method memory = some (bound, memory') ∧
      memory'.gc.heap bound = some (.boundMethod { receiver, method }) ∧
      memory'.stack = memory.stack ∧ memory'.stackTop = memory.stackTop ∧
      memory'.frames = memory.frames ∧ memory'.globals = memory.globals ∧
      memory'.openUpvalues = memory.openUpvalues ∧
      ∀ r, memory.FieldReachable r → memory'.gc.heap r = memory.gc.heap r := by
  obtain ⟨memory₁, hmemory, wf₁, hshrunk, -⟩ :=
    reallocate_spec wf 0 (Obj.boundMethod { receiver, method }).sizeof
  refine ⟨memory₁.gc.nextRef,
    { memory₁ with gc := memory₁.gc.link (.boundMethod { receiver, method }) }, ?_,
    Function.update_self .., hshrunk.stack, hshrunk.stackTop, hshrunk.frames, hshrunk.globals,
    hshrunk.openUpvalues, fun r hr => ?_⟩
  · show (reallocate 0 _ memory).bind _ = _
    rw [hmemory]
    rfl
  · have hne : r ≠ memory₁.gc.nextRef := wf₁.ne_nextRef (by
      rw [hshrunk.kept r hr]
      exact (wf.alive hr).2)
    exact (Function.update_of_ne hne _ _).trans (hshrunk.kept r hr)

/-! ### The operands have been read -/

/-- The states in which the name and the number of arguments have been read. -/
structure Invoking (vm : VM) (name : Ref) (argCount : ℕ) (frame : CallFrame) (rest : List CallFrame)
    (count : UInt8) : Prop where
  frames : vm.frames = frame :: rest
  name : readString vm =
    (.ok name, { vm with frames := { frame with ip := frame.ip + 1 } :: rest })
  next : VM.NextByte { vm with frames := { frame with ip := frame.ip + 1 } :: rest } count
    { frame with ip := frame.ip + 1 } rest
  count : count.toNat = argCount

variable {name : Ref} {frame : CallFrame} {rest : List CallFrame} {count : UInt8}

theorem VM.ReadsInvoke.invoking (h : vm.ReadsInvoke name argCount) :
    ∃ frame rest count, Invoking vm name argCount frame rest count := by
  obtain ⟨vm₁, vm₂, count, hname, hcount, hargs⟩ := h
  obtain ⟨frame, rest, hframes, rfl⟩ := readString_moves hname
  obtain ⟨frame', rest', hnext, -⟩ := readByte_eq_ok.mp hcount
  cases hnext.1
  exact ⟨frame, rest, count, hframes, hname, hnext, hargs⟩

/-- The frames when both operands have been read. -/
def afterOperands (frame : CallFrame) (rest : List CallFrame) : List CallFrame :=
  { frame with ip := frame.ip + 1 + 1 } :: rest

theorem Invoking.readByte (h : Invoking vm name argCount frame rest count) :
    readByte { vm with frames := { frame with ip := frame.ip + 1 } :: rest } =
      (.ok count, { vm with frames := afterOperands frame rest }) :=
  readByte_eq_ok.mpr ⟨_, rest, h.next, rfl⟩

/-- The member that has been got is called, when the running function is still there. -/
theorem Invoking.callMember (h : Invoking vm name argCount frame rest count) {got : VM}
    {member : Value} (hframes : got.frames = { frame with ip := frame.ip + 1 } :: rest)
    (hkept : ∀ function, functionOfClosure frame.closure vm = (.ok function, vm) →
      functionOfClosure frame.closure got = (.ok function, got))
    (hmember : got.stack (got.stackTop - 1) = member) :
    Vm.callMember host before argCount none got = orFailed (callValue host member argCount)
      (got.calling before argCount member (afterOperands frame rest)) := by
  obtain ⟨-, hip, function, code, hfunction, hcode, hbyte⟩ := h.next
  have hrunning : functionOfClosure frame.closure vm = (.ok function, vm) :=
    functionOfClosure_eq_ok.mpr ⟨rfl, (functionOfClosure_eq_ok.mp hfunction).2⟩
  exact callMember_none h.count
    ⟨hframes, hip, function, code, hkept function hrunning, hcode, hbyte⟩ hmember

theorem logMethod_eq {struct_ method : Ref} {function : ObjFunction}
    (h : functionOfClosure method vm = (.ok function, vm)) :
    logMethod struct_ method vm =
      (.ok (), vm.logged (.access struct_ function.isPublic vm.currentOwner)) :=
  (bind_ok h).trans rfl

/-- The state with a receiver pushed, in which the name has been read. -/
def VM.named (vm : VM) (receiver : Value) (frame : CallFrame) (rest : List CallFrame) : VM :=
  { vm with toMemory := { vm.toMemory.pushed receiver with
      frames := { frame with ip := frame.ip + 1 } :: rest } }

/-- The state in which both operands have been read. -/
def VM.ready (vm : VM) (frame : CallFrame) (rest : List CallFrame) : VM :=
  { vm with frames := afterOperands frame rest }

theorem views_named (receiver : Value) : (vm.ready frame rest).Views (vm.named receiver frame rest) :=
  ⟨rfl, rfl, rfl⟩

theorem orFailed_const (p : M Bool) : orFailed (fun _ => p vm) before = orFailed p vm := by
  rcases hp : p vm with ⟨stop | b, vm'⟩
  · rw [show orFailed p vm = _ from bind_error hp]
    rfl
  · rw [show orFailed p vm = _ from bind_ok hp]
    rfl

/-- The member has been got, and is called. -/
theorem Invoking.matches (h : Invoking vm name argCount frame rest count) (member : Value) {p : M Bool}
    {q : M (Option InterpretResult)} {got : VM} (hq : q vm₂ = (.ok none, got))
    (hframes : got.frames = { frame with ip := frame.ip + 1 } :: rest)
    (hkept : ∀ function, functionOfClosure frame.closure vm = (.ok function, vm) →
      functionOfClosure frame.closure got = (.ok function, got))
    (hmember : got.stack (got.stackTop - 1) = member)
    (hsame : SameOutcome (orFailed p vm₁) (orFailed (callValue host member argCount)
      (got.calling vm argCount member (afterOperands frame rest)))) :
    Matches host vm argCount (p vm₁) (q vm₂) := by
  unfold Matches
  rw [orFailed_const p, hq, show (_ >>= Vm.callMember host vm argCount) vm =
    Vm.callMember host vm argCount none got from rfl, h.callMember hframes hkept hmember]
  exact hsame

/-! ### What is called -/

theorem callValue_closure {closure : Ref} {o : ObjClosure} (h : vm.gc.heap closure = some (.closure o))
    (argCount : ℕ) : callValue host (.obj closure) argCount vm = call closure argCount vm := by
  have hfound : objectOf (.obj closure) vm = (.ok (some (closure, .closure o)), vm) := by
    refine (bind_ok (show deref closure vm = (.ok (.closure o), vm) from ?_)).trans rfl
    show orFault (vm.gc.heap closure) vm = _
    rw [h]
    rfl
  exact bind_ok hfound

theorem orFailed_congr {p q : M Bool} (h : p vm = q vm') : orFailed p vm = orFailed q vm' := by
  rw [← @orFailed_const vm vm p, ← @orFailed_const vm' vm q, h]

/-- A static method is called with the struct in the place of its receiver, or with itself. -/
theorem matches_static (h : Invoking vm name argCount frame rest count) {receiver : Value}
    {struct_ closure : Ref} {function : ObjFunction}
    (hfunction : functionOfClosure closure (vm.ready frame rest) =
      (.ok function, vm.ready frame rest)) (hstatic : function.isStatic = true) :
    Matches host vm argCount
      ((do
        logMethod struct_ closure
        call closure argCount : M Bool) (vm.ready frame rest))
      (next (do
        logMethod struct_ closure
        let _ ← pop
        push (.obj closure)) (vm.named receiver frame rest)) := by
  obtain ⟨-, o, ho, hthere⟩ := functionOfClosure_eq_ok.mp hfunction
  have hfound : ∀ {other : VM}, other.gc = vm.gc →
      functionOfClosure closure other = (.ok function, other) := by
    intro other hgc
    exact functionOfClosure_eq_ok.mpr ⟨rfl, o, by rw [hgc]; exact ho, by rw [hgc]; exact hthere⟩
  rw [bind_ok (logMethod_eq hfunction)]
  refine h.matches (.obj closure) (bind_ok ((bind_ok (logMethod_eq
    (@hfound (vm.named receiver frame rest) rfl))).trans (topped_eq _))) rfl
    (fun function' hrunning => functionOfClosure_eq_ok.mpr
      ⟨rfl, (functionOfClosure_eq_ok.mp hrunning).2⟩) (VM.topped_top _ _) ?_
  rw [orFailed_congr (@callValue_closure _ _ closure o ?_ argCount)]
  · refine sameOutcome_call (hfound rfl) (hfound rfl) rfl rfl rfl rfl rfl (fun slot => ?_)
      fun _ _ _ _ => rfl
    by_cases hslot : slot = vm.stackTop - argCount - 1
    · exact .inr ⟨hslot, hstatic⟩
    · exact .inl (Function.update_of_ne hslot _ _)
  · exact closure?_eq_some ho

/-- What is in a field is called in the place of its instance. -/
theorem matches_field (h : Invoking vm name argCount frame rest count) {receiver : Value}
    {struct_ : Ref} {isPublic : Bool} {instance_ : ObjInstance} {slot : ℕ} :
    Matches host vm argCount
      ((do
        logAccess struct_ isPublic
        let fieldValue ← fieldAt instance_ slot
        setSlot ((← get).stackTop - argCount - 1) fieldValue
        callValue host fieldValue argCount : M Bool) (vm.ready frame rest))
      (next (do
        logAccess struct_ isPublic
        let value ← fieldAt instance_ slot
        let _ ← pop
        push value) (vm.named receiver frame rest)) := by
  have hlogged : ∀ other, logAccess struct_ isPublic other =
      (.ok (), other.logged (.access struct_ isPublic other.currentOwner)) := fun _ => rfl
  rw [bind_ok (hlogged _)]
  cases hread : instance_.fields.bind fun fields => fields[slot]? with
  | none =>
    have hfield : ∀ other, fieldAt instance_ slot other = (.error .fault, other) := by
      intro other
      unfold fieldAt
      rw [hread]
      rfl
    rw [bind_error (hfield _), show next _ (vm.named receiver frame rest) = _ from
      bind_error ((bind_ok (hlogged _)).trans (bind_error (hfield _)))]
    exact ⟨rfl, rfl⟩
  | some value =>
    have hfield : ∀ other, fieldAt instance_ slot other = (.ok value, other) := by
      intro other
      unfold fieldAt
      rw [hread]
      rfl
    let w : VM := (vm.ready frame rest).logged
      (.access struct_ isPublic (vm.ready frame rest).currentOwner)
    have hinvoked : (do
        let fieldValue ← fieldAt instance_ slot
        setSlot ((← get).stackTop - argCount - 1) fieldValue
        callValue host fieldValue argCount : M Bool) w = callValue host value argCount { w with
          stack := Function.update vm.stack (vm.stackTop - argCount - 1) value } := bind_ok (hfield w)
    rw [hinvoked]
    refine h.matches value (bind_ok ((bind_ok (hlogged _)).trans ((bind_ok (hfield _)).trans
      (topped_eq _)))) rfl (fun function' hrunning => functionOfClosure_eq_ok.mpr
        ⟨rfl, (functionOfClosure_eq_ok.mp hrunning).2⟩) (VM.topped_top _ _) ?_
    exact sameOutcome_blind (blind_callValue host value argCount) ⟨_, rfl⟩

/-- The collector may go from other roots. -/
theorem fieldReachable_of_roots {memory memory' : Memory} {r : Ref}
    (hheap : memory'.gc.heap = memory.gc.heap)
    (hroots : ∀ r, memory.Root r → memory'.FieldReachable r) (hr : memory.FieldReachable r) :
    memory'.FieldReachable r := by
  induction hr with
  | root hr => exact hroots _ hr
  | next _ hedge ih =>
    obtain ⟨hnull, o, ho, hrefers⟩ := hedge
    exact .next ih ⟨hnull, o, by rw [hheap]; exact ho, hrefers⟩

/-- A closure that is kept is kept with its function. -/
theorem function_kept {memory : Memory} {gc : GC} {closure : Ref} {o : ObjClosure}
    {function : ObjFunction} (wf : memory.WellFormed) (hreach : memory.FieldReachable closure)
    (hkept : ∀ r, memory.FieldReachable r → gc.heap r = memory.gc.heap r)
    (ho : memory.gc.closure? closure = some o)
    (hfunction : memory.gc.function? o.function = some function) :
    gc.closure? closure = some o ∧ gc.function? o.function = some function := by
  have hnull : o.function ≠ null := by
    intro hnull
    rw [hnull, GC.function?, wf.null_free] at hfunction
    cases hfunction
  have hnext : memory.FieldReachable o.function :=
    .next hreach ⟨hnull, _, closure?_eq_some ho, .closureFunction⟩
  constructor
  · rw [GC.closure?, hkept _ hreach]
    exact ho
  · rw [GC.function?, hkept _ hnext]
    exact hfunction

theorem callValue_boundMethod {bound : Ref} {o : ObjBoundMethod}
    (h : vm.gc.heap bound = some (.boundMethod o)) (argCount : ℕ) :
    callValue host (.obj bound) argCount vm = call o.method argCount { vm with
      stack := Function.update vm.stack (vm.stackTop - argCount - 1) o.receiver } := by
  have hfound : objectOf (.obj bound) vm = (.ok (some (bound, .boundMethod o)), vm) := by
    refine (bind_ok (show deref bound vm = (.ok (.boundMethod o), vm) from ?_)).trans rfl
    show orFault (vm.gc.heap bound) vm = _
    rw [h]
    rfl
  exact bind_ok hfound

/-- A method is called on the receiver, be it bound to it before or not. -/
theorem matches_method (h : Invoking vm name argCount frame rest count)
    (wf : (vm.named receiver frame rest).toMemory.WellFormed) {struct_ closure : Ref}
    (hreceiver : vm.stack (vm.stackTop - argCount - 1) = receiver)
    (hreachable : (vm.named receiver frame rest).toMemory.FieldReachable closure)
    {function : ObjFunction}
    (hfunction : functionOfClosure closure (vm.ready frame rest) =
      (.ok function, vm.ready frame rest)) :
    Matches host vm argCount
      ((do
        logMethod struct_ closure
        call closure argCount : M Bool) (vm.ready frame rest))
      ((do
        logMethod struct_ closure
        let bound ← liftMem (newBoundMethod (← peekStack 0) closure)
        let _ ← pop
        push (.obj bound)
        return none : M (Option InterpretResult)) (vm.named receiver frame rest)) := by
  obtain ⟨-, o, ho, hthere⟩ := functionOfClosure_eq_ok.mp hfunction
  have hnamed : functionOfClosure closure (vm.named receiver frame rest) =
      (.ok function, vm.named receiver frame rest) :=
    functionOfClosure_eq_ok.mpr ⟨rfl, o, ho, hthere⟩
  let logged : VM := (vm.named receiver frame rest).logged
    (.access struct_ function.isPublic (vm.named receiver frame rest).currentOwner)
  have hsameRoots : ∀ r, logged.toMemory.RootRef r ↔ (vm.named receiver frame rest).toMemory.RootRef r :=
    fun r => Memory.RootRef.congr rfl rfl rfl rfl rfl
  have wf' : logged.toMemory.WellFormed :=
    wf.roots rfl fun r hr => wf.roots_alive r ((hsameRoots r).mp hr)
  have hreach : logged.toMemory.FieldReachable closure :=
    @fieldReachable_of_roots (vm.named receiver frame rest).toMemory logged.toMemory closure rfl
      (fun r hr => .root ⟨hr.1, (hsameRoots r).mpr hr.2⟩) hreachable
  obtain ⟨bound, memory, hbound, hobject, hstack, hstackTop, hframes, hglobals, hopen, hkept⟩ :=
    newBoundMethod_spec wf' receiver closure
  let made : VM := { logged with toMemory := memory }
  have hpeek : peekStack 0 logged = (.ok receiver, logged) := by
    show (Except.ok (Function.update vm.stack vm.stackTop receiver (vm.stackTop + 1 - 1 - 0)), _) = _
    rw [show vm.stackTop + 1 - 1 - 0 = vm.stackTop by omega, Function.update_self]
  have hmade : liftMem (newBoundMethod receiver closure) logged = (.ok bound, made) := by
    unfold liftMem
    rw [hbound]
  have hgot : (do
      let _ ← pop
      push (.obj bound)
      return none : M (Option InterpretResult)) made = (.ok none, made.topped (.obj bound)) := rfl
  have hmethod := function_kept wf' hreach hkept ho hthere
  rw [bind_ok (logMethod_eq hfunction)]
  refine h.matches (.obj bound) ((bind_ok (logMethod_eq hnamed)).trans ((bind_ok hpeek).trans
    ((bind_ok hmade).trans hgot))) hframes
    (fun function' hrunning => ?_) (VM.topped_top _ _) ?_
  · obtain ⟨-, o', ho', hthere'⟩ := functionOfClosure_eq_ok.mp hrunning
    have hnull : frame.closure ≠ null := by
      intro hnull
      rw [hnull, GC.closure?, show vm.gc.heap null = none from wf.null_free] at ho'
      cases ho'
    have hroot : logged.toMemory.RootRef frame.closure :=
      @Memory.RootRef.frame logged.toMemory { frame with ip := frame.ip + 1 } List.mem_cons_self
    have hkept' := function_kept wf' (.root ⟨hnull, hroot⟩) hkept ho' hthere'
    exact functionOfClosure_eq_ok.mpr ⟨rfl, o', hkept'.1, hkept'.2⟩
  · rw [orFailed_congr (@callValue_boundMethod _ _ bound { receiver, method := closure } ?_ argCount)]
    · refine sameOutcome_call (functionOfClosure_eq_ok.mpr ⟨rfl, o, ho, hthere⟩)
        (functionOfClosure_eq_ok.mpr ⟨rfl, o, hmethod.1, hmethod.2⟩) rfl rfl hglobals hopen rfl
        (fun slot => .inl ?_) fun new hnew r hr => hkept r ?_
      · show Function.update (Function.update vm.stack _ _) (vm.stackTop - argCount - 1) receiver slot =
          vm.stack slot
        by_cases hslot : slot = vm.stackTop - argCount - 1
        · rw [hslot, Function.update_self, hreceiver]
        · rw [Function.update_of_ne hslot, Function.update_of_ne hslot]
      · let entered : Memory := { vm.toMemory with
          frames := new :: afterOperands frame rest
          trace := ((vm.ready frame rest).logged
            (.access struct_ function.isPublic (vm.ready frame rest).currentOwner)).trace }
        refine @fieldReachable_of_roots entered logged.toMemory r rfl (fun r hroot => ?_) hr
        have hsame := hroot.2
        cases hsame with
        | @slot i _ hpos hlt hvalue =>
          have hlt' : i < vm.stackTop := hlt
          refine .root ⟨hroot.1, .slot hpos (show i < vm.stackTop + 1 by omega) ?_⟩
          exact (Function.update_of_ne (ne_of_lt hlt') _ _).trans hvalue
        | @frame running hmem =>
          rcases List.mem_cons.mp hmem with rfl | hmem
          · rw [hnew]
            exact hreach
          · rcases List.mem_cons.mp hmem with rfl | hmem
            · exact .root ⟨hroot.1, @Memory.RootRef.frame logged.toMemory
                { frame with ip := frame.ip + 1 } List.mem_cons_self⟩
            · exact .root ⟨hroot.1, .frame (List.mem_cons_of_mem _ hmem)⟩
        | openUpvalue hmem => exact .root ⟨hroot.1, .openUpvalue hmem⟩
        | globalName hmaps => exact .root ⟨hroot.1, .globalName hmaps⟩
        | globalValue hmaps => exact .root ⟨hroot.1, .globalValue hmaps⟩
    · exact hobject

/-! ### Methods of structs and of instances -/

theorem lookup_eq_ok {table : Table Ref Value} {key : Ref} {found : Option Value}
    (h : lookup table key vm = (.ok found, vm')) : tableGet vm.gc.hash table key = some found :=
  (orFault_ok h).1

theorem asClosure_eq_ok {method : Value} {closure : Ref} (h : asClosure method vm = (.ok closure, vm')) :
    method = .obj closure ∧ ∃ o, vm.gc.closure? closure = some o := by
  cases method with
  | obj r =>
    obtain ⟨o, vm₁, ho, hr⟩ := bind_eq_ok h
    cases hr
    exact ⟨rfl, o, (orFault_ok ho).1⟩
  | _ => cases h

/-- `bindMethod` as it is used by `OP_GET_PROPERTY`. -/
theorem getMethod_eq (struct_ name : Ref) : getMethod struct_ name = do
    let o ← structAt struct_
    match ← lookup o.methods name with
    | none => failWith (← undefinedProperty name)
    | some method => do
      let closure ← asClosure method
      match ← methodError false (staticMessage "Access") struct_ name closure with
      | some message => failWith message
      | none => do
        logMethod struct_ closure
        let bound ← liftMem (newBoundMethod (← peekStack 0) closure)
        let _ ← pop
        push (.obj bound)
        return none := by
  unfold getMethod bindMethod
  simp only [bind_assoc]
  refine bind_congr fun o => bind_congr fun found => ?_
  cases found with
  | none => rfl
  | some method =>
    simp only [bind_assoc]
    refine bind_congr fun closure => bind_congr fun error => ?_
    cases error with
    | none => simp only [bind_assoc, pure_bind]
    | some message => rfl

/-- A method of a struct that the receiver leads to. -/
theorem matches_getMethod (h : Invoking vm name argCount frame rest count) {receiver : Value}
    (wf : (vm.named receiver frame rest).toMemory.WellFormed) {struct_ : Ref}
    (hreceiver : vm.stack (vm.stackTop - argCount - 1) = receiver)
    (hreachable : (vm.named receiver frame rest).toMemory.FieldReachable struct_) :
    Matches host vm argCount (invokeFromStruct struct_ name argCount (vm.ready frame rest))
      (getMethod struct_ name (vm.named receiver frame rest)) := by
  have hviews : (vm.ready frame rest).Views (vm.named receiver frame rest) := views_named receiver
  rw [getMethod_eq]
  refine .looks (looksUp_structAt struct_) hviews fun o ho _ => ?_
  refine .looks (looksUp_lookup _ _) hviews fun found hfound _ => ?_
  cases found with
  | none => exact .messages (looksUp_undefinedProperty name) hviews
  | some method =>
    refine .looks (looksUp_asClosure method) hviews fun closure hclosure _ => ?_
    rcases methodError_alike false hviews (staticMessage_alike "Call" "Access" name struct_ hviews) with
      ⟨stop, hstop, hstop'⟩ | ⟨message, message', hm, hm'⟩ |
        ⟨function, hfunction, -, hnone, hnone'⟩
    · rw [bind_error hstop, bind_error hstop']
      exact ⟨rfl, rfl⟩
    · rw [bind_ok hm, bind_ok hm']
      exact matches_errors message message'
    · rw [bind_ok hnone, bind_ok hnone']
      refine matches_method h wf hreceiver (.next hreachable ⟨?_, _,
        GC.struct?_eq_some.mp (orFault_ok ho).1, ?_⟩) hfunction
      · obtain ⟨-, c, hc⟩ := asClosure_eq_ok hclosure
        intro hnull
        rw [hnull, GC.closure?, show (vm.ready frame rest).gc.heap null = none from wf.null_free] at hc
        cases hc
      · obtain ⟨rfl, -⟩ := asClosure_eq_ok hclosure
        obtain ⟨key, hmaps⟩ := Table.exists_maps_of_tableGet (lookup_eq_ok hfound)
        exact .method hmaps

/-- A static method of the struct that the receiver is. -/
theorem matches_getStaticMethod (h : Invoking vm name argCount frame rest count) {receiver : Value}
    (struct_ : Ref) :
    Matches host vm argCount (invokeStatic struct_ name argCount (vm.ready frame rest))
      (getStaticMethod struct_ { vm with toMemory := vm.toMemory.pushed receiver }) := by
  have hviews : (vm.ready frame rest).Views (vm.named receiver frame rest) := views_named receiver
  have hname : readString { vm with toMemory := vm.toMemory.pushed receiver } =
      (.ok name, vm.named receiver frame rest) := readString_sameCode h.name ⟨_, _, _, rfl⟩
  rw [show getStaticMethod struct_ _ = _ from bind_ok hname]
  refine .looks (looksUp_structAt struct_) hviews fun o _ _ => ?_
  refine .looks (looksUp_lookup _ _) hviews fun found _ _ => ?_
  cases found with
  | none => exact .messages (looksUp_undefinedProperty name) hviews
  | some method =>
    refine .looks (looksUp_asClosure method) hviews fun closure hclosure _ => ?_
    obtain ⟨rfl, -⟩ := asClosure_eq_ok hclosure
    have hkind := (looksUp_instanceMessage name struct_).same hviews
    rcases methodError_alike true hviews (hkind.imp_right fun ⟨message, hm, hm'⟩ =>
      ⟨message, message, hm, hm'⟩) with
      ⟨stop, hstop, hstop'⟩ | ⟨message, message', hm, hm'⟩ |
        ⟨function, hfunction, hstatic, hnone, hnone'⟩
    · rw [bind_error hstop, bind_error hstop']
      exact ⟨rfl, rfl⟩
    · rw [bind_ok hm, bind_ok hm']
      exact matches_errors message message'
    · rw [bind_ok hnone, bind_ok hnone']
      exact matches_static h hfunction hstatic

theorem objectOf_eq_ok {value : Value} {r : Ref} {o : Obj}
    (h : objectOf value vm = (.ok (some (r, o)), vm')) : value = .obj r ∧ vm.gc.heap r = some o := by
  cases value with
  | obj r' =>
    obtain ⟨o', vm₁, ho, hr⟩ := bind_eq_ok h
    cases hr
    exact ⟨rfl, (orFault_ok ho).1⟩
  | _ => cases h

/-- The receiver leads to its struct. -/
theorem named_reaches_struct {receiver : Value} {r : Ref} {instance_ : ObjInstance}
    (wf : (vm.named receiver frame rest).toMemory.WellFormed) (hr : receiver = .obj r)
    (hinstance : vm.gc.heap r = some (.instance_ instance_)) (htop : 0 ≤ vm.stackTop) :
    (vm.named receiver frame rest).toMemory.FieldReachable instance_.struct_ := by
  have hne : ∀ r' o, vm.gc.heap r' = some o → r' ≠ null := by
    rintro _ o ho rfl
    rw [show vm.gc.heap null = none from wf.null_free] at ho
    cases ho
  obtain ⟨-, struct_, hstruct, -⟩ := wf.instances r instance_ hinstance
  refine .next (.root ⟨hne r _ hinstance, .slot htop (Int.lt_succ_self _) ?_⟩)
    ⟨hne _ _ hstruct, _, hinstance, .instanceStruct⟩
  exact (Function.update_self ..).trans hr

/-- What the lookups come to, whatever the receiver is. -/
theorem matches_invoke (wf : vm.toMemory.WellFormed) (hargs : (argCount : ℤ) < vm.stackTop)
    (h : Invoking vm name argCount frame rest count) :
    Matches host vm argCount (invoke host name argCount (vm.ready frame rest))
      (opGetProperty { vm with
        toMemory := vm.toMemory.pushed (vm.stack (vm.stackTop - argCount - 1)) }) := by
  let receiver := vm.stack (vm.stackTop - argCount - 1)
  let pushed : VM := { vm with toMemory := vm.toMemory.pushed receiver }
  have hviews : (vm.ready frame rest).Views (vm.named receiver frame rest) := views_named receiver
  have hpushed : (vm.ready frame rest).Views pushed := by
    refine ⟨rfl, ?_, rfl⟩
    show Memory.currentOwner _ = Memory.currentOwner _
    unfold Memory.currentOwner
    rw [show pushed.frames = frame :: rest from h.frames]
    rfl
  have hpeek : peekStack argCount (vm.ready frame rest) = (.ok receiver, vm.ready frame rest) := by
    show (Except.ok (vm.stack (vm.stackTop - 1 - argCount)), _) = (Except.ok receiver, _)
    rw [show vm.stackTop - 1 - (argCount : ℤ) = vm.stackTop - argCount - 1 by omega]
  have hpeek' : peekStack 0 pushed = (.ok receiver, pushed) := by
    show (Except.ok (Function.update vm.stack vm.stackTop receiver (vm.stackTop + 1 - 1 - 0)), _) = _
    rw [show vm.stackTop + 1 - 1 - 0 = vm.stackTop by omega, Function.update_self]
  have halive : ∀ r, receiver = .obj r → Memory.Alive vm.gc r := fun r hr =>
    wf.roots_alive r (.slot (show 0 ≤ vm.stackTop - argCount - 1 by omega) (by omega) hr)
  have wf' : (vm.named receiver frame rest).toMemory.WellFormed := by
    refine (wf.pushed halive).roots rfl fun r hr => ?_
    cases hr with
    | slot hpos hlt hr => exact (wf.pushed halive).roots_alive r (.slot hpos hlt hr)
    | @frame running hmem =>
      refine wf.roots_alive _ ?_
      rcases List.mem_cons.mp hmem with rfl | hmem
      · exact @Memory.RootRef.frame vm.toMemory frame (h.frames ▸ List.mem_cons_self)
      · exact .frame (h.frames ▸ List.mem_cons_of_mem _ hmem)
    | openUpvalue hmem => exact wf.roots_alive r (.openUpvalue hmem)
    | globalName hmaps => exact wf.roots_alive r (.globalName hmaps)
    | globalValue hmaps => exact wf.roots_alive r (.globalValue hmaps)
  rw [show invoke host name argCount _ = _ from bind_ok hpeek,
    show opGetProperty pushed = _ from bind_ok hpeek']
  refine .looks (looksUp_objectOf receiver) hpushed fun found hfound _ => ?_
  have hname : readString pushed = (.ok name, vm.named receiver frame rest) :=
    readString_sameCode h.name ⟨_, _, _, rfl⟩
  match found with
  | none => exact matches_errors _ _
  | some (struct_, .struct_ _) => exact matches_getStaticMethod h struct_
  | some (r, .instance_ instance_) =>
    obtain ⟨hr, hinstance⟩ := objectOf_eq_ok hfound
    have hreach := named_reaches_struct wf' hr hinstance (by omega)
    dsimp only
    rw [bind_ok hname]
    refine .looks (looksUp_structFieldSlot _ _) hviews fun slot _ _ => ?_
    cases slot with
    | none => exact matches_getMethod h wf' rfl hreach
    | some slot =>
      refine .looks (looksUp_structAt _) hviews fun struct_ _ _ => ?_
      refine .looks (looksUp_canAccess _ _) hviews fun accessible _ _ => ?_
      cases accessible with
      | true => exact matches_field h
      | false =>
        -- a private field gives way to a method of its name
        refine .looks (looksUp_lookup _ _) hviews fun found _ _ => ?_
        cases found with
        | none => exact .messages (looksUp_privateMessage _ _ _) hviews
        | some _ => exact matches_getMethod h wf' rfl hreach
  | some (_, .boundMethod _) => exact matches_errors _ _
  | some (_, .closure _) => exact matches_errors _ _
  | some (_, .native _) => exact matches_errors _ _
  | some (_, .upvalue _) => exact matches_errors _ _
  | some (_, .function _) => exact matches_errors _ _
  | some (_, .string _) => exact matches_errors _ _
  | some (_, .list _) => exact matches_errors _ _
  | some (_, .array _) => exact matches_errors _ _

/-- In every state in which no reference dangles and the receiver and the arguments are on the stack,
`OP_INVOKE` comes to the same as `OP_GET_PROPERTY` and `OP_CALL`: the same callee runs on the same
arguments, with the same receiver unless it is static, or all report an error. -/
theorem invoke_unfused (host : Host) {vm : VM} {name : Ref} {argCount : ℕ}
    (wf : vm.toMemory.WellFormed) (hargs : (argCount : ℤ) < vm.stackTop)
    (hreads : vm.ReadsInvoke name argCount) :
    SameOutcome (execute host .invoke vm) (getThenCall host argCount vm) := by
  obtain ⟨frame, rest, count, h⟩ := hreads.invoking
  have hinvoked : execute host .invoke vm =
      orFailed (fun _ => invoke host name argCount (vm.ready frame rest)) vm := by
    rw [orFailed_const (invoke host name argCount)]
    refine (bind_ok h.name).trans ((bind_ok h.readByte).trans ?_)
    rw [h.count]
    rfl
  have hpeek : peekStack argCount vm = (.ok (vm.stack (vm.stackTop - argCount - 1)), vm) := by
    show (Except.ok (vm.stack (vm.stackTop - 1 - argCount)), _) = _
    rw [show vm.stackTop - 1 - (argCount : ℤ) = vm.stackTop - argCount - 1 by omega]
  have hthen : getThenCall host argCount vm =
      ((fun _ => opGetProperty { vm with
        toMemory := vm.toMemory.pushed (vm.stack (vm.stackTop - argCount - 1)) } :
          M (Option InterpretResult)) >>= callMember host vm argCount) vm := by
    show (peekStack argCount >>= fun receiver => push receiver >>= fun _ => opGetProperty >>=
      fun failed => callMember host vm argCount failed) vm = _
    rw [bind_ok hpeek]
    rfl
  rw [hinvoked, hthen]
  exact matches_invoke wf hargs h

/-! ### A method that is invoked -/

def greetMethods : Table Ref Value where
  count := 1
  capacity := 8
  entries := fun i => if i = 0 then .full 1 (.obj 5) else .empty

def greetScript : ObjFunction where
  chunk := { code := [⟨0, 1⟩, ⟨0, 1⟩], constants := { values := [.obj 1] } }

/-- A script that has read `OP_INVOKE`, and an instance of a struct with the method to be called. -/
def greetObjects : List Obj :=
  [.string { chars := text "greet", hash := 0 }, .function greetScript,
    .closure { function := 2, upvalues := [] }, .struct_ { name := 1, methods := greetMethods },
    .closure { function := 6, upvalues := [], owner := 4 },
    .function { name := 1, isPublic := true }, .instance_ { struct_ := 4 }]

def greetVM : VM where
  gc :=
    { heap := fun r => if r = 0 then none else greetObjects[r - 1]?
      objects := [7, 6, 5, 4, 3, 2, 1]
      nextRef := 8
      policy := stressPolicy }
  stack := fun slot => if slot = 0 then .obj 3 else .obj 7
  stackTop := 2
  frames := [{ closure := 3, ip := 0, slots := 0 }]

theorem greetVM_heap {r : Ref} {o : Obj} (h : greetVM.gc.heap r = some o) :
    r ∈ greetVM.gc.objects := by
  have h' : (if r = 0 then none else greetObjects[r - 1]?) = some o := h
  by_cases hr : r = 0
  · rw [if_pos hr] at h'
    cases h'
  · rw [if_neg hr] at h'
    obtain ⟨hlt, -⟩ := List.getElem?_eq_some_iff.mp h'
    have hall : ∀ i < 7, i + 1 ∈ greetVM.gc.objects := by decide
    exact Nat.sub_one_add_one hr ▸ hall (r - 1) hlt

theorem greetVM_wellFormed : greetVM.toMemory.WellFormed := by
  refine Memory.wellFormed_of_all (by decide) (fun _ _ => greetVM_heap) (by decide) (by decide)
    (by decide) rfl (fun _ => rfl) rfl (by decide) (by decide) (by decide) (Table.valid_empty _ 0) ?_
  rintro r ⟨value, h⟩
  exact absurd h (Table.not_maps_empty 0)

/-- The method is entered in both forms. -/
theorem invoke_unfused_greet :
    (execute plainHost .invoke greetVM).1.toOption = some none ∧
      SameOutcome (execute plainHost .invoke greetVM) (getThenCall plainHost 0 greetVM) :=
  ⟨by decide +kernel, invoke_unfused plainHost greetVM_wellFormed (by decide)
    ⟨_, _, 0, rfl, rfl, rfl⟩⟩

end KirbyLang.Vm
