import KirbyLang.Session
import KirbyLang.StepLaw

/-!
# Errors stop the program

The law of the machine for whole runs of units, and what it says about reports of errors.

* `run_ended`: no frames are left when a run has ended; `Session.frames`: no frames are left between the units of a session;
* `interpret_obeys`: the law for the run of a unit;
* `errors_stop`: a report is the last thing that happens, unless `@prompt` or `@stdin` makes it.
-/

namespace KirbyLang.Vm

open Laws

variable {lax : Latitude} {vm vm' : VM} {host : Host}

/-! ### The end of a run -/

/-- A result that ends `run`. -/
def ended (result : Option InterpretResult) : Prop := result ≠ none

instance : TellsErrors ended := ⟨by simp [ended], by simp [ended]⟩

theorem VM.Fails.frames (h : vm.Fails lax vm') : vm'.frames = [] := by
  obtain ⟨erring, message, -, rfl⟩ := h
  rfl

theorem opReturn_ended {result : InterpretResult} (h : opReturn vm = (.ok (some result), vm')) :
    vm'.frames = [] := by
  obtain ⟨frame, vm₁, -, h₁⟩ := bind_eq_ok h
  obtain ⟨value, vm₂, -, h₂⟩ := bind_eq_ok h₁
  obtain ⟨_, vm₃, -, h₃⟩ := bind_eq_ok h₂
  obtain ⟨_, vm₄, -, h₄⟩ := bind_eq_ok h₃
  obtain ⟨vm₅, vm₆, hget, h₅⟩ := bind_eq_ok h₄
  cases hget
  split at h₅
  next hframes =>
    obtain ⟨_, vm₇, hpop, h₆⟩ := bind_eq_ok h₅
    cases hpop
    cases h₆
    exact hframes
  next =>
    obtain ⟨_, vm₇, -, h₆⟩ := bind_eq_ok h₅
    cases h₆

theorem step_ended {result : InterpretResult} (h : step host vm = (.ok (some result), vm')) :
    vm'.frames = [] := by
  obtain ⟨byte, vm₁, hbyte, hrest⟩ := bind_eq_ok h
  cases hop : OpCode.ofByte? byte with
  | none =>
    rw [hop] at hrest
    cases hrest
  | some op =>
    rw [hop] at hrest
    obtain ⟨_, vm₂, hlog, hexecute⟩ := bind_eq_ok hrest
    cases hlog
    have hfails : ∀ (p : M (Option InterpretResult)) (vm₂ : VM), (machineLaw .lax).ObeysFrom ended p vm₂ →
        p vm₂ = (.ok (some result), vm') → vm'.frames = [] :=
      fun p vm₂ hp hrun => VM.Fails.frames (hp.fails hrun (by simp [ended]))
    by_cases hcall : op = .call
    · subst hcall
      exact hfails _ _ (step_call_obeys host hbyte hop (.inl rfl)) hexecute
    by_cases hinvoke : op = .invoke
    · subst hinvoke
      exact hfails _ _ (step_invoke_obeys host hbyte hop (.inl rfl)) hexecute
    by_cases hreturn : op = .return_
    · subst hreturn
      exact opReturn_ended hexecute
    exact hfails _ _ (obeys_execute host hcall hinvoke hreturn (fun _ => rfl) _) hexecute

theorem run_ended {rounds : ℕ} {result : InterpretResult}
    (h : run host rounds vm = (.ok (some result), vm')) : vm'.frames = [] := by
  induction rounds generalizing vm with
  | zero => cases h
  | succ rounds ih =>
    obtain ⟨result', vm₁, hstep, hrest⟩ := bind_eq_ok h
    cases result' with
    | some result' =>
      cases hrest
      exact step_ended hstep
    | none => exact ih hrest

theorem interpret_ended {compiledUnit : CompiledUnit} {rounds : ℕ} {result : InterpretResult}
    (h : interpret host compiledUnit rounds vm = (.ok (some result), vm')) : vm'.frames = [] := by
  obtain ⟨function, vm₁, -, h₁⟩ := bind_eq_ok h
  obtain ⟨_, vm₂, -, h₂⟩ := bind_eq_ok h₁
  exact run_ended h₂

/-! ### Sessions -/

theorem Mem.advancing_defineNative (name : Bytes) : (defineNative name).Advancing :=
  (evolving_copyString name).advancing.bind fun _ => (advancing_push _).bind fun _ =>
    (@evolving_newNative 0 name).advancing.bind fun _ => (advancing_push _).bind fun _ =>
    (@evolving_read _ 0 _).advancing.bind fun key => (@evolving_read _ 0 _).advancing.bind fun value =>
    (@evolving_tableSet 0 .globals key value).advancing.bind fun _ => advancing_pop.bind fun _ =>
    advancing_pop.bind fun _ => advancing_pure ()

theorem Mem.advancing_defineAllNatives (host : Host) : (defineAllNatives host).Advancing := by
  unfold defineAllNatives
  exact Advancing.forM fun definition => advancing_defineNative (text definition.1)

theorem initVM_advances {policy : ℕ → UInt64 → UInt64 → Bool} {world : World}
    (h : initVM host policy world = some vm) :
    (Memory.initial policy).Advances vm.toMemory := by
  obtain ⟨⟨_, memory⟩, hnatives, h⟩ := Option.bind_eq_some_iff.mp h
  cases h
  exact Mem.advancing_defineAllNatives host _ _ _ hnatives

/-- No frames are left between the units of a session. -/
theorem Session.frames (session : Session host vm) : vm.frames = [] := by
  cases session with
  | start h => exact (initVM_advances h).frames
  | input _ h => exact interpret_ended h

/-! ### The run of a unit -/

theorem newClosure_made {function closure : Ref} {memory memory' : Memory}
    (h : newClosure function memory = some (closure, memory')) :
    ∃ o, memory'.gc.heap closure = some (.closure o) ∧ o.function = function := by
  obtain ⟨o, memory₁, -, h₁⟩ := Mem.bind_eq_some h
  obtain ⟨_, memory₂, -, h₂⟩ := Mem.bind_eq_some h₁
  obtain ⟨-, -, hmade⟩ := Mem.allocateObject_new h₂
  exact ⟨_, hmade, rfl⟩

/-- A call without arguments of a function that has none, when no function runs. -/
theorem call_obeys {closure function : Ref} {o : ObjClosure} (hframes : vm.frames = [])
    (hclosure : vm.gc.heap closure = some (.closure o)) (hfunction : o.function = function)
    (harity : vm.toMemory.HasArity function 0) :
    (machineLaw lax).ObeysFrom never (call closure 0) vm := by
  refine ((reads_functionOfClosure closure).obeys vm).bind fun f vm₁ hf => ?_
  obtain rfl : vm₁ = vm := (reads_functionOfClosure closure).ok hf
  have hzero : f.arity = 0 := by
    obtain ⟨o', vm₂, ho', hf'⟩ := bind_eq_ok hf
    obtain ⟨hread, rfl⟩ := orFault_ok ho'
    cases hclosure.symm.trans (closure?_eq_some hread)
    obtain ⟨hfound, -⟩ := orFault_ok hf'
    exact harity.2 f (Mem.function?_eq_some (hfunction ▸ hfound))
  rw [if_neg (by simp [hzero])]
  refine obeysFrom_get ?_
  rw [if_neg (by simp [hframes, framesMax])]
  refine Law.ObeysFrom.bind (obeysFrom_modify (VM.Goes.ofSame rfl rfl rfl rfl)) fun _ vm₂ _ => ?_
  exact obeysFrom_pure fun hfalse => hfalse

theorem liftMem_advances {α : Type} {p : Mem α} {a : α} (hp : p.Advancing)
    (h : liftMem p vm = (.ok a, vm')) : vm.toMemory.Advances vm'.toMemory := by
  obtain ⟨memory, hrun, rfl⟩ := liftMem_ok h
  exact hp _ _ _ hrun

theorem enterFunction_obeys {function : Ref} (hframes : vm.frames = [])
    (harity : vm.toMemory.HasArity function 0) :
    (machineLaw lax).ObeysFrom never (enterFunction function) vm := by
  refine (obeys_push _ vm).bind fun _ vm₁ h₁ => ?_
  have hadvances₁ := liftMem_advances (Mem.advancing_push _) h₁
  refine (obeys_liftMem (@Mem.evolving_newClosure 0 function).advancing
    (Mem.stays_newClosure function) vm₁).bind fun closure vm₂ h₂ => ?_
  obtain ⟨memory, hmade, rfl⟩ := liftMem_ok h₂
  have hadvances₂ := hadvances₁.trans (@Mem.evolving_newClosure 0 _ _ _ _ hmade).toAdvances
  obtain ⟨o, hclosure, hfunction⟩ := newClosure_made hmade
  refine (obeys_pop _).bind fun _ vm₃ h₃ => ?_
  cases h₃
  refine (obeys_push _ _).bind fun _ vm₄ h₄ => ?_
  cases h₄
  refine Law.ObeysFrom.bind (@call_obeys lax _ closure function o ?_ hclosure hfunction ?_)
    fun _ vm₅ _ => obeysFrom_pure fun hfalse => hfalse
  · exact hadvances₂.frames.trans hframes
  · exact hadvances₂.hasArity harity

/-- The places of the run of a unit at which an instruction is read. -/
def Running (host : Host) (compiledUnit : CompiledUnit) (vm reached : VM) : Prop :=
  ∃ function loaded entered, liftMem (loadUnit compiledUnit) vm = (.ok function, loaded) ∧
    enterFunction function loaded = (.ok (), entered) ∧ Reaches host entered reached

/-- The script of a unit has no parameters. -/
def IsScript (compiledUnit : CompiledUnit) : Prop :=
  ∀ script, compiledUnit.functions[0]? = some script → script.arity = 0

/-- The run of a unit none of whose instructions makes `@prompt` or `@stdin` report an error. -/
theorem interpret_obeys {compiledUnit : CompiledUnit} (rounds : ℕ) (hlax : lax.upvalues = true)
    (hframes : vm.frames = [])
    (hscript : IsScript compiledUnit)
    (h : lax.reports = true ∨ ∀ reached, Running host compiledUnit vm reached → ¬ reached.StepFails) :
    (machineLaw lax).ObeysFrom erred (interpret host compiledUnit rounds) vm := by
  refine (obeys_liftMem (Mem.advancing_loadUnit compiledUnit)
    (Mem.interning_loadUnit compiledUnit) vm).bind fun function vm₁ hload => ?_
  obtain ⟨memory, hloaded, rfl⟩ := liftMem_ok hload
  have hadvances := Mem.advancing_loadUnit _ _ _ _ hloaded
  obtain ⟨script, hfirst, harity⟩ := Mem.loadUnit_hasArity hloaded
  rw [hscript script hfirst] at harity
  refine (enterFunction_obeys (hadvances.frames.trans hframes) ?_).bind fun _ vm₂ hentered => ?_
  · exact harity
  exact run_obeys host rounds hlax (h.imp_right fun hnot reached hreach =>
    hnot reached ⟨function, _, vm₂, hload, hentered, hreach⟩)

/-! ### Reports -/

/-- What has been reported since an earlier state is the last thing that has happened: `run` has
returned `INTERPRET_RUNTIME_ERROR`, and the stack and the frames are empty, or the process has
exited. -/
def ErrorsStop (before : VM) (outcome : Except Stop (Option InterpretResult)) (after : VM) : Prop :=
  ∃ events, after.trace = events ++ before.trace ∧
    ∀ message older newer, events = newer ++ .report message :: older →
      newer = [] ∧
        ((outcome = .ok (some .runtimeError) ∧ after.stackTop = 0 ∧ after.frames = []) ∨
          ∃ code, outcome = .error (.exit code))

theorem VM.Goes.errorsStop (h : vm.Goes .strict vm')
    (outcome : Except Stop (Option InterpretResult)) : ErrorsStop vm outcome vm' := by
  obtain ⟨events, htrace, hevents⟩ := h.trace
  refine ⟨events, htrace, fun message older newer hsplit => ?_⟩
  have hallowed := hevents (.report message) (by simp [hsplit])
  exact absurd hallowed (by simp [Event.Allowed])

theorem VM.Fails.errorsStop (h : vm.Fails .strict vm') {outcome : Except Stop (Option InterpretResult)}
    (houtcome : outcome = .ok (some .runtimeError) ∨ ∃ code, outcome = .error (.exit code)) :
    ErrorsStop vm outcome vm' := by
  obtain ⟨erring, message, hgoes, rfl⟩ := h
  obtain ⟨events, htrace, hevents⟩ := hgoes.trace
  refine ⟨.report message :: events, congrArg (Event.report message :: ·) htrace,
    fun message' older newer hsplit => ⟨?_, houtcome.imp_left fun hok => ⟨hok, rfl, rfl⟩⟩⟩
  cases newer with
  | nil => rfl
  | cons e newer =>
    -- there is no other report before this one
    obtain ⟨-, htail⟩ := List.cons_eq_cons.mp hsplit
    have hallowed := hevents (.report message') (by simp [htail])
    exact absurd hallowed (by simp [Event.Allowed])

theorem obeysFrom_errorsStop {p : M (Option InterpretResult)}
    (h : (machineLaw .strict).ObeysFrom erred p vm) : ErrorsStop vm (p vm).1 (p vm).2 := by
  rcases hp : p vm with ⟨stop | result, vm'⟩
  · rcases h.stops hp with hgoes | ⟨hfails, hstop⟩
    · exact hgoes.errorsStop _
    · cases stop with
      | exit code => exact hfails.errorsStop (.inr ⟨code, rfl⟩)
      | fault => exact absurd rfl hstop
  · by_cases herred : erred result
    · exact (h.fails hp herred).errorsStop (.inl (congrArg _ herred))
    · exact (h.goes hp herred).errorsStop _

/-- Errors stop the program: in a session, in every run of a unit none of whose instructions makes
`@prompt` or `@stdin` report an error, up to any number of instructions. -/
theorem errors_stop {compiledUnit : CompiledUnit} (session : Session host vm)
    (hscript : IsScript compiledUnit)
    (h : ∀ reached, Running host compiledUnit vm reached → ¬ reached.StepFails) (rounds : ℕ) :
    ErrorsStop vm (interpret host compiledUnit rounds vm).1
      (interpret host compiledUnit rounds vm).2 :=
  obeysFrom_errorsStop (interpret_obeys rounds rfl session.frames hscript (.inr h))

/-! ### Two programs -/

/-- The run ends within a number of instructions, and none of them calls a value. -/
def callsNoValue (host : Host) : ℕ → VM → Bool
  | 0, _ => false
  | rounds + 1, vm =>
    match (calledNext vm).1 with
    | .ok (some _) => false
    | _ =>
      match step host vm with
      | (.ok none, vm') => callsNoValue host rounds vm'
      | _ => true

theorem callsNoValue_stepFails {rounds : ℕ} {reached : VM} (h : callsNoValue host rounds vm = true)
    (hreach : Reaches host vm reached) : ¬ reached.StepFails := by
  induction rounds generalizing vm with
  | zero => cases h
  | succ rounds ih =>
    unfold callsNoValue at h
    rcases hreach.cases_head with rfl | ⟨vm', hstep, hrest⟩
    · rintro ⟨callee, argCount, vm', hcalled, -⟩
      rw [hcalled] at h
      cases h
    · split at h
      · cases h
      · rw [show step host vm = (.ok none, vm') from hstep] at h
        exact ih h hrest

/-- The place at which the first instruction of a unit is read. -/
def entered (compiledUnit : CompiledUnit) (vm : VM) : Option VM :=
  match (do enterFunction (← liftMem (loadUnit compiledUnit))) vm with
  | (.ok (), vm') => some vm'
  | _ => none

theorem Running.entered {compiledUnit : CompiledUnit} {reached : VM}
    (h : Running host compiledUnit vm reached) :
    ∃ vm', entered compiledUnit vm = some vm' ∧ Reaches host vm' reached := by
  obtain ⟨function, loaded, vm', hload, henter, hreach⟩ := h
  refine ⟨vm', ?_, hreach⟩
  unfold Vm.entered
  rw [bind_ok hload, henter]

theorem errors_stop_outOfBounds : ∃ compiledUnit vm, (parsed outOfBounds).bind compiled = some compiledUnit ∧
    Session plainHost vm ∧ ∀ rounds,
      ErrorsStop vm (interpret plainHost compiledUnit rounds vm).1
        (interpret plainHost compiledUnit rounds vm).2 := by
  have hcalls : (((parsed outOfBounds).bind compiled).bind fun compiledUnit =>
      (initVM plainHost thresholdPolicy {}).bind fun vm =>
        (entered compiledUnit vm).map (compiledUnit, vm, ·)).any
          (fun run => run.1.functions[0]?.all (fun script => script.arity = 0) &&
            callsNoValue plainHost 20 run.2.2) = true := by
    decide +kernel
  obtain ⟨⟨compiledUnit, vm, vm'⟩, hrun, hcheck⟩ := exists_of_any hcalls
  obtain ⟨_, hcompiled, hrun⟩ := Option.bind_eq_some_iff.mp hrun
  obtain ⟨_, hinit, hrun⟩ := Option.bind_eq_some_iff.mp hrun
  obtain ⟨_, hentered, heq⟩ := Option.map_eq_some_iff.mp hrun
  cases heq
  obtain ⟨hscript, hcalls⟩ := Bool.and_eq_true_iff.mp hcheck
  refine ⟨compiledUnit, vm, hcompiled, .start hinit, errors_stop (.start hinit)
    (fun script hscript' => ?_) fun reached hrunning => ?_⟩
  · rw [hscript'] at hscript
    simpa using hscript
  · obtain ⟨vm'', hentered', hreach⟩ := hrunning.entered
    cases hentered.symm.trans hentered'
    exact callsNoValue_stepFails hcalls hreach

/-- `@prompt(5);` -/
def promptProgram : List AstNode :=
  [.exprStmt 1 (callNode (.variable_ 1 (tokenFromCString "@prompt"))
    [numberNode 5])]

/-- After the report, the native's result is still pushed in place of the arguments. -/
theorem prompt_goesOn : ∃ compiledUnit vm, compiled promptProgram = some compiledUnit ∧
    Session plainHost vm ∧ ¬ ErrorsStop vm (interpret plainHost compiledUnit 3 vm).1
      (interpret plainHost compiledUnit 3 vm).2 := by
  have hrun : ((compiled promptProgram).bind fun compiledUnit =>
      (initVM plainHost thresholdPolicy {}).map (compiledUnit, ·)).any fun run =>
        let after := (interpret plainHost run.1 3 run.2).2
        run.2.trace.length + 3 ≤ after.trace.length ∧ after.trace.take 3 =
          [.push (-1), .pop (-2), .report (text "prompt() argument must be a string.")] := by
    decide +kernel
  obtain ⟨⟨compiledUnit, vm⟩, hstart, hrun⟩ := exists_of_any hrun
  obtain ⟨_, hcompiled, hstart⟩ := Option.bind_eq_some_iff.mp hstart
  obtain ⟨_, hinit, heq⟩ := Option.map_eq_some_iff.mp hstart
  cases heq
  obtain ⟨hlength, htake⟩ : vm.trace.length + 3 ≤ _ ∧ _ := of_decide_eq_true hrun
  refine ⟨compiledUnit, vm, hcompiled, .start hinit, fun ⟨events, htrace, hstop⟩ => ?_⟩
  have hthree : 3 ≤ events.length := by
    rw [htrace, List.length_append] at hlength
    omega
  have hevents : events.take 3 =
      [.push (-1), .pop (-2), .report (text "prompt() argument must be a string.")] := by
    rw [← htake, htrace, List.take_append_of_le_length hthree]
  obtain ⟨hnil, -⟩ := hstop (text "prompt() argument must be a string.") (events.drop 3)
    [.push (-1), .pop (-2)] (by rw [← List.take_append_drop 3 events, hevents]; simp)
  cases hnil

end KirbyLang.Vm
