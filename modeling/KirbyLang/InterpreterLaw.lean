import KirbyLang.Behaviour
import KirbyLang.Session

/-!
# The interpreter obeys the law

One lemma for each function of the interpreter that calls or looks up. A function that reports an
error says so in its result, and whoever called it returns at once. The exceptions are `@prompt` and
`@stdin`, which report an error and return nil.

* `TellsErrors`: how the result of an instruction says that an error has been reported;
* `VM.InputFails`, `VM.CallFails`: when `@prompt` and `@stdin` report one;
* `callValue_obeys`, `invoke_obeys`: calls that do not.
-/

namespace KirbyLang.Vm

open Laws

/-- A `false` result means that an error has been reported. -/
def refused (result : Bool) : Prop := result = false

/-- A result of `run` that means that an error has been reported. -/
def erred (result : Option InterpretResult) : Prop := result = some .runtimeError

variable {lax : Latitude} {vm vm' : VM}

theorem obeys_true : (machineLaw lax).Obeys refused (pure true : M Bool) :=
  obeys_pure (by simp [refused])

/-- An error and going on are told apart. -/
class TellsErrors (failed : Option InterpretResult → Prop) : Prop where
  error : failed (some .runtimeError)
  goesOn : ¬ failed none

instance : TellsErrors erred := ⟨rfl, by simp [erred]⟩

theorem obeys_none {failed : Option InterpretResult → Prop} [TellsErrors failed] :
    (machineLaw lax).Obeys failed (pure none : M (Option InterpretResult)) :=
  obeys_pure TellsErrors.goesOn

theorem obeys_refused (message : Bytes) : (machineLaw lax).Obeys refused (refuse message) :=
  obeys_refuse message

/-! ### Input -/

/-- The length of the input up to its end, or up to a newline, without carriage returns. -/
def inputLength (toNewline : Bool) (input : Bytes) : ℕ :=
  ((if toNewline then input.takeWhile (· != 10) else input).filter (· != 13)).length

theorem inputLength_newline (rest : Bytes) : inputLength true (10 :: rest) = 0 := by
  simp [inputLength]

theorem inputLength_return (toNewline : Bool) (rest : Bytes) :
    inputLength toNewline (13 :: rest) = inputLength toNewline rest := by
  cases toNewline <;> simp [inputLength]

theorem inputLength_cons {toNewline : Bool} {c : UInt8} (hline : (toNewline && c == 10) = false)
    (hc : c ≠ 13) (rest : Bytes) :
    inputLength toNewline (c :: rest) = inputLength toNewline rest + 1 := by
  cases toNewline with
  | false => simp [inputLength, hc]
  | true =>
    have hne : (c != 10) = true := by simpa using hline
    simp [inputLength, hne, hc]

/-- The buffer is full when there is more input than it may hold. -/
theorem readInput_full {maxBytes capacity : ℕ} (toNewline : Bool) (input chars : Bytes)
    (grown : List ℕ) (hroom : chars.length < capacity) (hmax : capacity ≤ maxBytes) :
    (readInput maxBytes toNewline input capacity chars grown).1 = .full ↔
      maxBytes ≤ chars.length + inputLength toNewline input := by
  induction input generalizing capacity chars grown with
  | nil =>
    have hzero : inputLength toNewline [] = 0 := by cases toNewline <;> rfl
    simp only [readInput, hzero, Nat.add_zero]
    exact ⟨fun h => (by cases h), fun h => (by omega)⟩
  | cons c rest ih =>
    unfold readInput
    split
    next hline =>
      obtain ⟨hnewline, hc⟩ : toNewline = true ∧ c = 10 := by simpa using hline
      subst hnewline hc
      rw [inputLength_newline, Nat.add_zero]
      exact ⟨fun h => (by cases h), fun h => (by omega)⟩
    next hline =>
      split
      next hc =>
        subst hc
        rw [inputLength_return]
        exact ih chars grown hroom hmax
      next hc =>
        rw [inputLength_cons (by simpa using hline) hc]
        have happend : (chars ++ [c]).length = chars.length + 1 := by simp
        split
        next hfull =>
          split
          next heq => exact ⟨fun _ => by omega, fun _ => rfl⟩
          next hne =>
            have hnew : (chars ++ [c]).length < Nat.min (capacity * 2) maxBytes := by
              rw [happend]
              exact Nat.lt_min.mpr ⟨by omega, by omega⟩
            rw [ih _ _ hnew (Nat.min_le_right _ _), happend]
            omega
        next hfree =>
          rw [ih _ _ (by rw [happend]; omega) hmax, happend]
          omega

def VM.IsString (vm : VM) (value : Value) : Prop :=
  ∃ r string, value = .obj r ∧ vm.gc.heap r = some (.string string)

/-- Whether `@prompt` or `@stdin`, called with a number of arguments, refuses the argument or the
input. -/
def VM.InputRefused (vm : VM) (maxBytes : ℕ) (toNewline : Bool) (argCount : ℕ) : Prop :=
  (argCount = 1 ∧ ¬ vm.IsString (vm.stack (vm.stackTop - 1))) ∨
    (argCount ≤ 1 ∧ maxBytes ≤ inputLength toNewline vm.world.stdin)

def VM.InputFails (vm : VM) (native : Bytes) (argCount : ℕ) : Prop :=
  (native = text "@prompt" ∧ vm.InputRefused (1024 * 1024) true argCount) ∨
    (native = text "@stdin" ∧ vm.InputRefused (1024 * 1024 * 5) false argCount)

section Input

variable (libc : Libc) {α β : Type} {goesOn : Bool}

theorem run_bind (p : Prog goesOn α) (f : α → Prog goesOn β) :
    (p >>= f).run libc = p.run libc >>= fun a => (f a).run libc := rfl

theorem obeys_growBuffer (capacity : ℕ) (grown : List ℕ) :
    (machineLaw lax).Obeys never ((growBuffer capacity grown).run libc) := by
  induction grown generalizing capacity with
  | nil => exact obeys_pure fun hfalse => hfalse
  | cons newCapacity grown ih =>
    exact (obeys_liftMem (@Mem.evolving_reallocate 0 _ _).advancing
      (Mem.interning_reallocate _ _)).bind fun _ => ih newCapacity

/-- An allocation does not see the world. -/
theorem liftMem_world {p : Mem α} {a : α} (h : liftMem p vm = (.ok a, vm')) :
    vm'.world = vm.world := by
  unfold liftMem at h
  split at h
  · cases h
    rfl
  · cases h

theorem finishInput_obeys (tooLong : String) (capacity : ℕ) {ending : InputEnd} (h : ending ≠ .full) :
    (machineLaw lax).Obeys never ((finishInput tooLong capacity ending).run libc) := by
  cases ending with
  | full => exact absurd rfl h
  | done chars size atEnd =>
    by_cases hempty : (atEnd && chars.isEmpty) = true
    · rw [finishInput, if_pos hempty]
      exact (obeys_liftMem (@Mem.evolving_reallocate 0 _ _).advancing
        (Mem.interning_reallocate _ _)).bind fun _ => obeys_pure fun hfalse => hfalse
    · rw [finishInput, if_neg hempty]
      exact (obeys_liftMem (Mem.evolving_takeString chars).advancing
        (Mem.interning_takeString chars)).bind fun _ => obeys_pure fun hfalse => hfalse

theorem takeInput_obeys (tooLong : String) {maxBytes : ℕ} {toNewline : Bool} (hmax : 64 ≤ maxBytes)
    (h : ¬ maxBytes ≤ inputLength toNewline vm.world.stdin) :
    (machineLaw lax).ObeysFrom never ((takeInput tooLong maxBytes toNewline).run libc) vm := by
  refine (obeys_liftMem (@Mem.evolving_reallocate 0 0 64).advancing
    (Mem.interning_reallocate 0 64) vm).bind fun _ vm₁ h₁ => ?_
  have hworld : vm₁.world = vm.world := liftMem_world h₁
  have hend : (readInput maxBytes toNewline vm₁.world.stdin 64 [] []).1 ≠ .full := by
    rw [ne_eq, readInput_full toNewline _ _ _ (by simp) hmax, hworld]
    simpa using h
  refine (obeys_outside libc _ vm₁).bind fun input vm₂ h₂ => ?_
  cases h₂
  refine (obeys_growBuffer libc 64 _ _).bind fun capacity vm₃ _ => ?_
  refine (obeys_outside libc _ vm₃).bind fun _ vm₄ _ => ?_
  exact finishInput_obeys libc tooLong capacity hend vm₄

theorem reads_isObj (kind : Obj → Bool) (value : Value) :
    Reads ((isObj kind value : Prog goesOn Bool).run libc) := by
  cases value with
  | obj r => exact (reads_deref r).bind fun _ => reads_pure _
  | _ => exact reads_pure _

theorem reads_asString (value : Value) : Reads ((asString value : Prog goesOn ObjString).run libc) := by
  cases value with
  | obj r =>
    refine (reads_deref r).bind fun o => ?_
    cases o with
    | string string => exact reads_pure _
    | _ => exact reads_fault
  | _ => exact reads_fault

/-- The program of a native that looks at the kind of an argument. -/
theorem run_isObj {kind : Obj → Bool} {r : Ref} {o : Obj} {b : Bool} (ho : vm.gc.heap r = some o)
    (h : ((isObj kind (.obj r) : Prog goesOn Bool).run libc) vm = (.ok b, vm')) : b = kind o := by
  obtain ⟨o', vm₁, ho', h⟩ := bind_eq_ok h
  have heq : o' = o := Option.some.inj ((orFault_ok ho').1.symm.trans ho)
  cases h
  exact congrArg kind heq

theorem printPrompt_obeys (name : String) {argCount : ℕ} {args : ℕ → Value}
    (h : argCount = 1 → vm.IsString (args 0)) :
    (machineLaw lax).ObeysFrom never ((printPrompt name argCount args).run libc) vm := by
  unfold printPrompt
  by_cases hcount : argCount = 1
  · rw [if_pos hcount]
    refine ((reads_isObj libc _ _).obeys vm).bind fun b vm₁ hb => ?_
    obtain ⟨r, string, hargs, hr⟩ := h hcount
    rw [hargs] at hb ⊢
    have htrue : b = true := run_isObj libc hr hb
    subst htrue
    exact ((reads_asString libc _).obeys.bind fun string => obeys_outside libc _) vm₁
  · rw [if_neg hcount]
    exact obeysFrom_pure fun hfalse => hfalse

/-- The prompt does not take from the input. -/
theorem printPrompt_stdin {name : String} {argCount : ℕ} {args : ℕ → Value}
    (h : (printPrompt name argCount args).run libc vm = (.ok true, vm')) :
    vm'.world.stdin = vm.world.stdin := by
  unfold printPrompt at h
  by_cases hcount : argCount = 1
  · rw [if_pos hcount] at h
    obtain ⟨b, vm₁, hb, h⟩ := bind_eq_ok h
    have heq : vm₁ = vm := (reads_isObj libc _ _).ok hb
    subst heq
    cases b with
    | true =>
      simp only [if_true, run_bind] at h
      obtain ⟨string, vm₂, hstring, hprint⟩ := bind_eq_ok h
      have heq : vm₂ = vm₁ := (reads_asString libc _).ok hstring
      cases hprint
      rw [heq]
    | false =>
      obtain ⟨_, vm₂, -, h⟩ := bind_eq_ok h
      cases h
  · rw [if_neg hcount] at h
    cases h
    rfl

/-- `@prompt` and `@stdin` obey the law when they accept their argument and the input. -/
theorem inputNative_obeys (name tooLong : String) {maxBytes : ℕ} {toNewline : Bool} {argCount : ℕ}
    {args : ℕ → Value} (hmax : 64 ≤ maxBytes) (hcount : argCount ≤ 1)
    (hargs : argCount = 1 → args 0 = vm.stack (vm.stackTop - 1))
    (h : ¬ vm.InputRefused maxBytes toNewline argCount) :
    (machineLaw lax).ObeysFrom never
      ((inputNative name tooLong maxBytes toNewline argCount args).run libc) vm := by
  obtain ⟨hstring, hlength⟩ := not_or.mp h
  refine (printPrompt_obeys libc name fun hone => ?_).bind fun b vm₁ hb => ?_
  · rw [hargs hone]
    by_contra hnot
    exact hstring ⟨hone, hnot⟩
  · cases b with
    | true =>
      refine takeInput_obeys libc tooLong hmax ?_
      rw [printPrompt_stdin libc hb]
      exact fun hle => hlength ⟨hcount, hle⟩
    | false => exact obeysFrom_pure fun hfalse => hfalse

/-- Too many arguments end the process. -/
theorem assertArgCount_obeys {function : Bytes} {expectedCount actualCount : ℕ}
    (hne : expectedCount ≠ actualCount) {f : Unit → Prog true α} :
    (machineLaw lax).Obeys never ((assertArgCount function expectedCount actualCount >>= f).run libc) := by
  intro vm
  rw [run_bind, assertArgCount, if_pos hne]
  exact (obeys_die _ vm).bind fun _ _ h => by cases h

theorem promptNative_obeys {argCount : ℕ} {args : ℕ → Value}
    (hargs : argCount = 1 → args 0 = vm.stack (vm.stackTop - 1))
    (h : ¬ vm.InputRefused (1024 * 1024) true argCount) :
    (machineLaw lax).ObeysFrom never ((promptNative argCount args).run libc) vm := by
  unfold promptNative
  by_cases hcount : 1 < argCount
  · rw [if_pos hcount]
    exact assertArgCount_obeys libc (Nat.ne_of_lt hcount) vm
  · rw [if_neg hcount]
    exact inputNative_obeys libc _ _ (by decide) (Nat.le_of_not_lt hcount) hargs h

theorem stdinNative_obeys {argCount : ℕ} {args : ℕ → Value}
    (hargs : argCount = 1 → args 0 = vm.stack (vm.stackTop - 1))
    (h : ¬ vm.InputRefused (1024 * 1024 * 5) false argCount) :
    (machineLaw lax).ObeysFrom never ((stdinNative argCount args).run libc) vm := by
  unfold stdinNative
  by_cases hcount : 1 < argCount
  · rw [if_pos hcount]
    exact assertArgCount_obeys libc (Nat.ne_of_lt hcount) vm
  · rw [if_neg hcount]
    exact inputNative_obeys libc _ _ (by decide) (Nat.le_of_not_lt hcount) hargs h

end Input

/-! ### Calls -/

variable (host : Host)

theorem nativeDefinitions_cases : ∀ definition ∈ nativeDefinitions host.libc host.version,
    (∃ fn, definition.2 = .stops fn) ∨ definition = ("@prompt", .goesOn promptNative) ∨
      definition = ("@stdin", .goesOn stdinNative) := by
  simp only [nativeDefinitions, List.forall_mem_cons]
  simp

theorem findNative_cases {function : Bytes} {native : Native}
    (h : findNative host function = some native) :
    (∃ fn, native = .stops fn) ∨ (function = text "@prompt" ∧ native = .goesOn promptNative) ∨
      (function = text "@stdin" ∧ native = .goesOn stdinNative) := by
  obtain ⟨definition, hfind, rfl⟩ := Option.map_eq_some_iff.mp h
  have hname : text definition.1 = function := by simpa using List.find?_some hfind
  rcases nativeDefinitions_cases host definition (List.mem_of_find?_eq_some hfind) with h | rfl | rfl
  · exact .inl h
  · exact .inr (.inl ⟨hname.symm, rfl⟩)
  · exact .inr (.inr ⟨hname.symm, rfl⟩)

/-- Whether a call is one of `@prompt` or `@stdin` that fails. -/
def VM.CallFails (vm : VM) (callee : Value) (argCount : ℕ) : Prop :=
  ∃ r native, callee = .obj r ∧ vm.gc.heap r = some (.native native) ∧
    vm.InputFails native.function argCount

theorem obeys_call (closure : Ref) (argCount : ℕ) :
    (machineLaw lax).Obeys refused (call closure argCount) := by
  refine (reads_functionOfClosure closure).obeys.bind fun function => ?_
  split
  · exact obeys_refused _
  · refine obeys_read fun vm => ?_
    split
    · exact obeys_refused _
    · refine Law.Obeys.bind (obeys_modify ?_ ?_ ?_ ?_) fun _ => obeys_true
      · exact fun _ => rfl
      · exact fun _ => rfl
      · exact fun _ => rfl
      · exact fun _ => rfl

theorem callNative_obeys {native : ObjNative} {argCount : ℕ}
    (h : lax.reports = true ∨ ¬ vm.InputFails native.function argCount) :
    (machineLaw lax).ObeysFrom refused (callNative host native argCount) vm := by
  refine obeysFrom_get ?_
  split
  next => exact obeys_fault vm
  next native' hfind =>
    have hargs : argCount = 1 →
        vm.stack (vm.stackTop - argCount + (0 : ℕ)) = vm.stack (vm.stackTop - 1) := by
      rintro rfl
      simp
    have hrun : (machineLaw lax).ObeysFrom never (native'.run host.libc argCount
        fun i : ℕ => vm.stack (vm.stackTop - argCount + i)) vm := by
      rcases h with hlax | hnot
      · cases native' with
        | stops fn => exact obeys_prog host.libc _ (fun _ => hlax) vm
        | goesOn fn => exact obeys_prog host.libc _ (fun _ => hlax) vm
      · obtain ⟨hprompt, hstdin⟩ := not_or.mp hnot
        rcases findNative_cases host hfind with ⟨fn, rfl⟩ | ⟨hname, rfl⟩ | ⟨hname, rfl⟩
        · exact obeys_prog host.libc _ (by simp) vm
        · exact promptNative_obeys host.libc hargs fun href => hprompt ⟨hname, href⟩
        · exact stdinNative_obeys host.libc hargs fun href => hstdin ⟨hname, href⟩
    exact hrun.bind fun result vm₁ _ =>
      ((obeys_popN _).bind fun _ => (obeys_push result).bind fun _ => obeys_true) vm₁

theorem objectOf_ok {value : Value} {found : Option (Ref × Obj)}
    (h : objectOf value vm = (.ok found, vm')) :
    vm' = vm ∧ ∀ r o, found = some (r, o) → value = .obj r ∧ vm.gc.heap r = some o := by
  refine ⟨(reads_objectOf value).ok h, fun r o hfound => ?_⟩
  subst hfound
  cases value with
  | obj r' =>
    obtain ⟨o', vm₁, ho', h⟩ := bind_eq_ok h
    cases h
    exact ⟨rfl, (orFault_ok ho').1⟩
  | boolean _ => cases h
  | nil => cases h
  | number _ _ => cases h

theorem callValue_obeys {callee : Value} {argCount : ℕ}
    (h : lax.reports = true ∨ ¬ vm.CallFails callee argCount) :
    (machineLaw lax).ObeysFrom refused (callValue host callee argCount) vm := by
  refine ((reads_objectOf callee).obeys vm).bind fun found vm₁ hfound => ?_
  obtain ⟨rfl, hobj⟩ := objectOf_ok hfound
  rcases found with _ | ⟨r, o⟩
  · exact obeys_refused _ _
  · cases o with
    | boundMethod bound =>
      exact obeysFrom_get ((obeys_setSlot _ _).bind (fun _ => obeys_call _ _) _)
    | closure closure => exact obeys_call _ _ _
    | native native =>
      obtain ⟨rfl, hheap⟩ := hobj r _ rfl
      exact callNative_obeys host (h.imp_right fun hnot hfails => hnot ⟨r, native, rfl, hheap, hfails⟩)
    | _ => exact obeys_refused _ _

/-! ### Members -/

theorem canAccess_ok {struct_ : Ref} {isPublic b : Bool}
    (h : canAccess struct_ isPublic vm = (.ok b, vm')) :
    vm' = vm ∧ (b = true ↔ isPublic = true ∨ vm.currentOwner = struct_) := by
  cases h
  exact ⟨rfl, by simp⟩

theorem reads_canAccess (struct_ : Ref) (isPublic : Bool) : Reads (canAccess struct_ isPublic) :=
  reads_get fun _ => reads_pure _

theorem logAccess_obeys {struct_ : Ref} {isPublic : Bool}
    (h : isPublic = true ∨ vm.currentOwner = struct_) :
    (machineLaw lax).ObeysFrom never (logAccess struct_ isPublic) vm :=
  obeysFrom_modify (VM.Goes.logged (show Event.Allowed lax.reports (.access _ _ _) from h))

theorem reads_structFieldSlot (struct_ name : Ref) : Reads (structFieldSlot struct_ name) := by
  refine (reads_structAt struct_).bind fun o => (reads_lookup _ _).bind fun found => ?_
  rcases found with _ | value
  · exact reads_pure _
  · cases value with
    | number _ _ => exact reads_pure _
    | _ => exact reads_fault

theorem reads_fieldAt (instance_ : ObjInstance) (slot : ℕ) : Reads (fieldAt instance_ slot) :=
  reads_orFault _

theorem reads_privateMessage (kind : String) (name struct_ : Ref) :
    Reads (privateMessage kind name struct_) :=
  (reads_textOf _).bind fun _ => (reads_structAt _).bind fun _ => (reads_textOf _).bind fun _ =>
    reads_pure _

theorem reads_undefinedProperty (name : Ref) : Reads (undefinedProperty name) :=
  (reads_textOf _).bind fun _ => reads_pure _

theorem reads_staticMessage (how : String) (name struct_ : Ref) :
    Reads (staticMessage how name struct_) :=
  (reads_textOf _).bind fun _ => (reads_structAt _).bind fun _ => (reads_textOf _).bind fun _ =>
    reads_pure _

theorem reads_instanceMessage (name struct_ : Ref) : Reads (instanceMessage name struct_) :=
  (reads_textOf _).bind fun _ => (reads_structAt _).bind fun _ => (reads_textOf _).bind fun _ =>
    reads_pure _

section Methods

variable {isStatic : Bool} {wrongKind : Ref → Ref → M Bytes} {struct_ name method : Ref}

theorem reads_methodError (hkind : ∀ name struct_, Reads (wrongKind name struct_)) :
    Reads (methodError isStatic wrongKind struct_ name method) := by
  refine (reads_functionOfClosure method).bind fun function => ?_
  split
  · exact (hkind _ _).bind fun _ => reads_pure _
  · refine (reads_canAccess _ _).bind fun b => ?_
    split
    · exact (reads_privateMessage _ _ _).bind fun _ => reads_pure _
    · exact reads_pure _

/-- A method that passes the checks may be used. -/
theorem methodError_none (h : methodError isStatic wrongKind struct_ name method vm = (.ok none, vm')) :
    ∃ function, functionOfClosure method vm = (.ok function, vm) ∧
      (function.isPublic = true ∨ vm.currentOwner = struct_) := by
  obtain ⟨function, vm₁, hfunction, hcheck⟩ := bind_eq_ok h
  obtain rfl : vm₁ = vm := (reads_functionOfClosure method).ok hfunction
  refine ⟨function, hfunction, ?_⟩
  split at hcheck
  · obtain ⟨_, _, -, hfalse⟩ := bind_eq_ok hcheck
    cases hfalse
  · obtain ⟨b, vm₂, hb, hpass⟩ := bind_eq_ok hcheck
    obtain ⟨rfl, hiff⟩ := canAccess_ok hb
    cases b with
    | true => exact hiff.mp rfl
    | false =>
      obtain ⟨_, _, -, hfalse⟩ := bind_eq_ok hpass
      cases hfalse

theorem logMethod_obeys {function : ObjFunction}
    (hfunction : functionOfClosure method vm = (.ok function, vm))
    (h : function.isPublic = true ∨ vm.currentOwner = struct_) :
    (machineLaw lax).ObeysFrom never (logMethod struct_ method) vm := by
  refine ((reads_functionOfClosure method).obeys vm).bind fun function' vm' h' => ?_
  cases hfunction.symm.trans h'
  exact logAccess_obeys h

theorem obeys_invokeMethod (argCount : ℕ) (hkind : ∀ name struct_, Reads (wrongKind name struct_)) :
    (machineLaw lax).Obeys refused (invokeMethod isStatic wrongKind struct_ name argCount) := by
  refine (reads_structAt struct_).obeys.bind fun o => (reads_lookup _ _).obeys.bind fun found => ?_
  rcases found with _ | value
  · exact (reads_undefinedProperty name).obeys.bind fun _ => obeys_refused _
  · refine (reads_asClosure value).obeys.bind fun method => ?_
    intro vm
    refine ((reads_methodError hkind).obeys vm).bind fun error vm' herror => ?_
    obtain rfl : vm' = vm := (reads_methodError hkind).ok herror
    rcases error with _ | message
    · obtain ⟨function, hfunction, hallowed⟩ := methodError_none herror
      exact (logMethod_obeys hfunction hallowed).bind fun _ vm'' _ => obeys_call _ _ vm''
    · exact obeys_refused message _

end Methods

theorem obeys_invokeFromStruct (struct_ name : Ref) (argCount : ℕ) :
    (machineLaw lax).Obeys refused (invokeFromStruct struct_ name argCount) :=
  obeys_invokeMethod argCount (reads_staticMessage "Call")

theorem obeys_invokeStatic (struct_ name : Ref) (argCount : ℕ) :
    (machineLaw lax).Obeys refused (invokeStatic struct_ name argCount) :=
  obeys_invokeMethod argCount reads_instanceMessage

/-- The field that `invoke` calls, if it is a field. -/
def invokedField (name : Ref) (argCount : ℕ) : M (Option Value) := do
  match ← objectOf (← peekStack argCount) with
  | some (_, .instance_ instance_) => do
    match ← structFieldSlot instance_.struct_ name with
    | some slot => do
      let struct_ ← structAt instance_.struct_
      if ← canAccess instance_.struct_ (struct_.fieldPublic slot) then
        return some (← fieldAt instance_ slot)
      else return none
    | none => return none
  | _ => return none

/-- The failure of a call does not depend on what is called. -/
theorem VM.CallFails.congr {callee : Value} {argCount : ℕ} (hgc : vm'.gc = vm.gc)
    (hworld : vm'.world = vm.world) (htop : vm'.stackTop = vm.stackTop)
    (hstack : argCount = 1 → vm'.stack (vm.stackTop - 1) = vm.stack (vm.stackTop - 1))
    (h : vm'.CallFails callee argCount) : vm.CallFails callee argCount := by
  have hrefused : ∀ maxBytes toNewline, vm'.InputRefused maxBytes toNewline argCount →
      vm.InputRefused maxBytes toNewline argCount := by
    intro maxBytes toNewline h
    rcases h with ⟨hone, hnot⟩ | hlength
    · refine .inl ⟨hone, fun ⟨r, string, hvalue, hr⟩ => hnot ⟨r, string, ?_, hgc ▸ hr⟩⟩
      rw [htop, hstack hone]
      exact hvalue
    · exact .inr (hworld ▸ hlength)
  obtain ⟨r, native, hcallee, hr, hfails⟩ := h
  refine ⟨r, native, hcallee, hgc ▸ hr, ?_⟩
  rcases hfails with ⟨hname, hfails⟩ | ⟨hname, hfails⟩
  · exact .inl ⟨hname, hrefused _ _ hfails⟩
  · exact .inr ⟨hname, hrefused _ _ hfails⟩

theorem invoke_obeys {name : Ref} {argCount : ℕ}
    (h : lax.reports = true ∨ ∀ value, invokedField name argCount vm = (.ok (some value), vm) →
      ¬ vm.CallFails value argCount) :
    (machineLaw lax).ObeysFrom refused (invoke host name argCount) vm := by
  refine ((reads_peekStack argCount).obeys vm).bind fun receiver vm₁ hreceiver => ?_
  obtain rfl : vm₁ = vm := (reads_peekStack argCount).ok hreceiver
  refine ((reads_objectOf receiver).obeys vm₁).bind fun found vm₂ hfound => ?_
  obtain rfl : vm₂ = vm₁ := (reads_objectOf receiver).ok hfound
  rcases found with _ | ⟨r, o⟩
  · exact obeys_refused _ _
  · cases o with
    | struct_ o => exact obeys_invokeStatic _ _ _ _
    | instance_ instance_ =>
      refine ((reads_structFieldSlot _ _).obeys vm₂).bind fun slot vm₃ hslot => ?_
      obtain rfl : vm₃ = vm₂ := (reads_structFieldSlot _ _).ok hslot
      rcases slot with _ | slot
      · exact obeys_invokeFromStruct _ _ _ _
      · refine ((reads_structAt _).obeys vm₃).bind fun struct_ vm₄ hstruct => ?_
        obtain rfl : vm₄ = vm₃ := (reads_structAt _).ok hstruct
        refine ((reads_canAccess _ _).obeys vm₄).bind fun b vm₅ hb => ?_
        obtain ⟨rfl, hiff⟩ := canAccess_ok hb
        cases b with
        | false =>
          refine ((reads_lookup _ _).obeys.bind fun method => ?_) vm₅
          rcases method with _ | method
          · exact (reads_privateMessage _ _ _).obeys.bind fun _ => obeys_refused _
          · exact obeys_invokeFromStruct _ _ _
        | true =>
          refine (logAccess_obeys (hiff.mp rfl)).bind fun _ vm₆ hlog => ?_
          cases hlog
          refine ((reads_fieldAt _ _).obeys _).bind fun value vm₇ hvalue => ?_
          obtain ⟨hfield, rfl⟩ := orFault_ok hvalue
          refine obeysFrom_get ((obeys_setSlot _ _ _).bind fun _ vm₈ hset => ?_)
          cases hset
          refine callValue_obeys host (h.imp_right fun hnot hfails => ?_)
          have hvalue' : fieldAt instance_ slot vm₅ = (.ok value, vm₅) := by
            unfold fieldAt
            rw [hfield]
            rfl
          have hinvoked : invokedField name argCount vm₅ = (.ok (some value), vm₅) :=
            (bind_ok hreceiver).trans <| (bind_ok hfound).trans <| (bind_ok hslot).trans <|
              (bind_ok hstruct).trans <| (bind_ok hb).trans (bind_ok hvalue')
          refine hnot value hinvoked (VM.CallFails.congr ?_ ?_ ?_ ?_ hfails)
          · rfl
          · rfl
          · rfl
          · intro hone
            exact Function.update_of_ne (show vm₅.stackTop - 1 ≠ vm₅.stackTop - argCount - 1 by omega) _ _
    | _ => exact obeys_refused _ _

end KirbyLang.Vm
