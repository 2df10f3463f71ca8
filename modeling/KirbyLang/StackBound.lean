import KirbyLang.ErrorsStop
import KirbyLang.InstructionRoom

/-!
# The bound of the value stack

`STACK_MAX` has room for `FRAMES_MAX` frames of 256 values, but what is checked is the number of
frames only: a frame can hold any number of temporaries, and the loader keeps every function of a
unit on the stack.

* `VM.hasRoom`: there is room for what the next instruction keeps on the stack;
* `pushes_within`: no push of a run goes beyond the stack when there is room for its instructions;
* `pushes_within_frames`: there is, when no frame holds more than 254 values;
* `recursion_overflows`: a function that calls itself while it holds 275 values.
-/

namespace KirbyLang.Vm

open Laws

variable {limit b : ℕ} {vm vm' : VM}

/-! ### The loader -/

namespace Mem

variable {α β : Type} {up up' total : ℤ} {depth depth' k : ℕ} {p : Mem α} {f : α → Mem β}

theorem Rising.bind (hp : p.Rising up depth) (hf : ∀ a, (f a).Rising up' depth')
    (hup : up + up' = total) (hdepth : depth ≤ k) (hdepth' : up + depth' ≤ k) :
    (p >>= f).Rising total k := by
  intro memory b memory'' h
  obtain ⟨a, memory', ha, hb⟩ := bind_eq_some h
  obtain ⟨hframes, htop, events, htrace, hevents⟩ := hp _ _ _ ha
  obtain ⟨hframes', htop', events', htrace', hevents'⟩ := hf a _ _ _ hb
  refine ⟨hframes'.trans hframes, by omega, events' ++ events, ?_, fun e he => ?_⟩
  · rw [htrace', htrace, List.append_assoc]
  · rcases List.mem_append.mp he with he | he
    · exact (hevents' e he).mono (by omega)
    · exact (hevents e he).mono (by omega)

/-- A part that leaves the height of the stack as it was. -/
theorem Balancing.bind (hp : p.Balancing depth) (hf : ∀ a, (f a).Rising up' depth')
    (hdepth : depth ≤ depth') : (p >>= f).Rising up' depth' :=
  Rising.bind hp hf (Int.zero_add up') hdepth (by omega)

theorem rising_pure (a : α) : (pure a : Mem α).Rising 0 depth :=
  (evolving_pure a).balancing

theorem rising_push (value : Value) : (pushOnStack value).Rising 1 1 := by
  intro memory a memory' h
  cases h
  exact ⟨rfl, rfl, [.push (memory.stackTop + 1)], rfl, by simp [Event.Within]⟩

theorem rising_pop : popFromStack.Rising (-1) 0 := by
  intro memory a memory' h
  cases h
  exact ⟨rfl, rfl, [.pop (memory.stackTop - 1)], rfl, by simp [Event.Within]⟩

/-- The function stays on the stack while its name is made. -/
theorem rising_allocateFunction (compiledUnit : CompiledUnit) (compiledFn : CompiledFn) :
    (allocateFunction compiledUnit compiledFn).Rising 1 2 := by
  refine Balancing.bind (@evolving_newFunction 0).balancing (fun function => ?_) (Nat.zero_le 2)
  refine (rising_push (.obj function)).bind (fun _ => (?_ : Rising 0 1 _)) (Int.add_zero 1) (by omega)
    (by omega)
  refine Balancing.bind (@evolving_read _ 0 _).balancing (fun o => ?_) (Nat.zero_le 1)
  exact Balancing.bind (balancing_writeObj _ _)
    (fun _ => Evolving.balancing (stays_nameAndCode evolving_copyString compiledUnit compiledFn
      function)) (Nat.zero_le 1)

/-- Every function stays on the stack. -/
theorem rising_allocateFunctions (compiledUnit : CompiledUnit) (functions : List CompiledFn) :
    (functions.mapM (allocateFunction compiledUnit)).Rising functions.length (functions.length + 1) := by
  induction functions with
  | nil => exact rising_pure []
  | cons compiledFn rest ih =>
    rw [List.mapM_cons, List.length_cons]
    have hothers : ∀ first, Rising rest.length (rest.length + 1) (do
        let others ← rest.mapM (allocateFunction compiledUnit)
        return first :: others) := fun first =>
      ih.bind (fun others => @rising_pure _ 0 (first :: others)) (Int.add_zero _) (Nat.le_refl _)
        (by omega)
    exact (rising_allocateFunction compiledUnit compiledFn).bind hothers (by omega) (by omega)
      (by omega)

theorem rising_cleanup (n : ℕ) : (cleanupFromAllocatingFunctions n).Rising (-n) 0 := by
  induction n with
  | zero => exact rising_pure ()
  | succ n ih => exact rising_pop.bind (fun _ => ih) (by omega) (Nat.le_refl 0) (by omega)

/-- The loader needs room for the functions of the unit and one string. -/
theorem balancing_loadUnit (compiledUnit : CompiledUnit) :
    (loadUnit compiledUnit).Balancing (compiledUnit.functions.length + 1) := by
  refine (rising_allocateFunctions compiledUnit compiledUnit.functions).bind (fun byIndex => ?_)
    (Int.add_right_neg _) (Nat.le_refl _) (Int.le_refl _)
  refine Balancing.bind (evolving_resolveConsts compiledUnit byIndex).balancing (fun _ => ?_)
    (Nat.le_refl 1)
  exact (rising_cleanup compiledUnit.functions.length).bind
    (fun _ => (@evolving_functionOf 0 byIndex 0).balancing) (Int.add_zero _) (by omega) (by omega)

end Mem

/-! ### Runs -/

variable (host : Host)

theorem within_enterFunction (function : Ref) (hb : b + 1 ≤ limit) :
    Within limit b (b + 1) (enterFunction function) := by
  refine (within_push _ hb).bind fun _ => (within_room (Mem.evolving_newClosure function) hb).bind
    fun closure => within_pop.bind fun _ => (within_push (.obj closure) hb).bind fun _ => ?_
  exact (within_call closure 0 hb).bind fun _ => within_pure _ (Nat.le_refl _)

/-- The room that the next instruction needs is there. -/
def VM.hasRoom (limit : ℕ) (vm : VM) : Bool :=
  match (readByte vm).1 with
  | .ok byte => (OpCode.ofByte? byte).all fun op => decide (vm.stackTop + roomFor op ≤ limit)
  | .error _ => true

theorem roomFor_le (op : OpCode) : roomFor op ≤ 2 := by
  cases op <;> decide

/-- One instruction that there is room for. -/
theorem step_within (hlimit : 2 ≤ limit) : (stackLaw limit).Triple
    (fun vm => vm.Below limit limit ∧ vm.hasRoom limit = true) (step host)
    fun _ => VM.Below limit limit := by
  rintro vm ⟨hvm, hroom⟩
  refine Law.Triple.bind (within_readByte.remember hvm) (fun byte => ?_) vm rfl
  rintro vm' ⟨hbyte, hvm'⟩
  obtain ⟨frames, rfl⟩ := readByte_ok hbyte
  cases hop : OpCode.ofByte? byte with
  | none => exact ⟨.ofSame rfl, hvm'⟩
  | some op =>
    have hfits : vm.stackTop + roomFor op ≤ limit := by
      simpa [VM.hasRoom, hbyte, hop] using hroom
    have hmost := roomFor_le op
    have hexecute : Within limit vm.stackTop.toNat limit (do
        modify fun vm => vm.logged (.instruction op)
        execute host op) :=
      (within_log (show Event.UpTo limit (.instruction op) from trivial)).bind fun _ =>
        within_execute host (by omega) (by omega)
    exact hexecute _ ⟨Int.self_le_toNat _, hvm'.frames⟩

/-- A run in which there is room for every instruction that is reached. -/
theorem run_within (hlimit : 2 ≤ limit) (rounds : ℕ) : (stackLaw limit).Triple
    (fun vm => vm.Below limit limit ∧
      ∀ reached, Reaches host vm reached → reached.Below limit limit → reached.hasRoom limit = true)
    (run host rounds) fun _ => VM.Below limit limit := by
  induction rounds with
  | zero => exact triple_pure fun vm h => h.1
  | succ rounds ih =>
    rintro vm ⟨hvm, hroom⟩
    have hstep := (step_within host hlimit).remember ⟨hvm, hroom vm .refl hvm⟩
    refine Law.Triple.bind hstep (fun result => ?_) vm rfl
    rintro vm' ⟨hrun, hvm'⟩
    cases result with
    | some result => exact ⟨.ofSame rfl, hvm'⟩
    | none => exact ih vm' ⟨hvm', fun reached hreach => hroom reached (.head hrun hreach)⟩

/-- The run of a unit that can be loaded. -/
theorem interpret_within {compiledUnit : CompiledUnit} (rounds : ℕ) (hlimit : 2 ≤ limit)
    (hload : b + compiledUnit.functions.length + 1 ≤ limit) : (stackLaw limit).Triple
    (fun vm => vm.Below limit b ∧ ∀ reached, Running host compiledUnit vm reached →
      reached.Below limit limit → reached.hasRoom limit = true)
    (interpret host compiledUnit rounds) fun _ => VM.Below limit limit := by
  rintro vm ⟨hvm, hroom⟩
  have hloaded := within_liftMem (Mem.balancing_loadUnit compiledUnit) hload
  refine Law.Triple.bind (Law.Triple.remember hloaded hvm) (fun function => ?_) vm rfl
  rintro vm₁ ⟨hrun₁, hvm₁⟩
  have hentered := within_enterFunction function (show b + 1 ≤ limit by omega)
  refine Law.Triple.bind (Law.Triple.remember hentered hvm₁) (fun _ => ?_) vm₁ rfl
  rintro vm₂ ⟨hrun₂, hvm₂⟩
  exact run_within host hlimit rounds vm₂ ⟨hvm₂.mono (by omega), fun reached hreach =>
    hroom reached ⟨function, vm₁, vm₂, hrun₁, hrun₂, hreach⟩⟩

theorem VM.PushesUpTo.ofTriple {α : Type} {p : M α} {pre : VM → Prop} {post : α → VM → Prop}
    (h : (stackLaw limit).Triple pre p post) (hpre : pre vm) : vm.PushesUpTo limit (p vm).2 := by
  rcases hp : p vm with ⟨e | a, vm'⟩
  · exact h.error hpre hp
  · exact (h.ok hpre hp).1

theorem Session.framesBelow (session : Session host vm) : vm.Below limit vm.stackTop.toNat := by
  refine ⟨Int.self_le_toNat _, fun frame hframe => ?_, ?_⟩
  · rw [session.frames] at hframe
    cases hframe
  · rw [session.frames]
    exact Nat.zero_le _

/-- No push goes beyond the value stack: in a session, when there is room for the functions of a unit
and one string, and in its run for every instruction that is reached. -/
theorem pushes_within {compiledUnit : CompiledUnit} (session : Session host vm)
    (hload : vm.stackTop.toNat + compiledUnit.functions.length + 1 ≤ stackMax)
    (hroom : ∀ reached, Running host compiledUnit vm reached → reached.hasRoom stackMax = true)
    (rounds : ℕ) : vm.PushesUpTo stackMax (interpret host compiledUnit rounds vm).2 :=
  .ofTriple (interpret_within host rounds (by decide) hload)
    ⟨session.framesBelow, fun reached hreached _ => hroom reached hreached⟩

/-- The run ends within a number of instructions, and there is room for each of them. -/
def hasRoomAlong (host : Host) : ℕ → VM → Bool
  | 0, _ => false
  | rounds + 1, vm =>
    vm.hasRoom stackMax &&
      match step host vm with
      | (.ok none, vm') => hasRoomAlong host rounds vm'
      | _ => true

theorem hasRoomAlong_hasRoom {rounds : ℕ} {reached : VM} (h : hasRoomAlong host rounds vm = true)
    (hreach : Reaches host vm reached) : reached.hasRoom stackMax = true := by
  induction rounds generalizing vm with
  | zero => cases h
  | succ rounds ih =>
    obtain ⟨hroom, hrest⟩ := Bool.and_eq_true_iff.mp h
    rcases hreach.cases_head with rfl | ⟨vm', hstep, hreach'⟩
    · exact hroom
    · rw [show step host vm = (.ok none, vm') from hstep] at hrest
      exact ih hrest hreach'

theorem pushes_within_outOfBounds : ∃ compiledUnit vm, (parsed outOfBounds).bind compiled = some compiledUnit ∧
    Session plainHost vm ∧ ∀ rounds,
      vm.PushesUpTo stackMax (interpret plainHost compiledUnit rounds vm).2 := by
  have hroom : (((parsed outOfBounds).bind compiled).bind fun compiledUnit =>
      (initVM plainHost thresholdPolicy {}).bind fun vm =>
        (entered compiledUnit vm).map (compiledUnit, vm, ·)).any
          (fun run => decide (run.2.1.stackTop.toNat + run.1.functions.length + 1 ≤ stackMax) &&
            hasRoomAlong plainHost 20 run.2.2) = true := by
    decide +kernel
  obtain ⟨⟨compiledUnit, vm, vm'⟩, hrun, hcheck⟩ := exists_of_any hroom
  obtain ⟨_, hcompiled, hrun⟩ := Option.bind_eq_some_iff.mp hrun
  obtain ⟨_, hinit, hrun⟩ := Option.bind_eq_some_iff.mp hrun
  obtain ⟨_, hentered, heq⟩ := Option.map_eq_some_iff.mp hrun
  cases heq
  obtain ⟨hload, halong⟩ := Bool.and_eq_true_iff.mp hcheck
  refine ⟨compiledUnit, vm, hcompiled, .start hinit, pushes_within plainHost (.start hinit)
    (of_decide_eq_true hload) fun reached hrunning => ?_⟩
  obtain ⟨vm'', hentered', hreach⟩ := hrunning.entered
  cases hentered.symm.trans hentered'
  exact hasRoomAlong_hasRoom plainHost halong hreach

/-- No frame has more than `size` values, where the outermost begins at or below `base`. -/
def FramesHold (size : ℕ) (base : ℤ) : ℤ → List CallFrame → Prop
  | top, [] => top ≤ base
  | top, frame :: frames => top ≤ frame.slots + size ∧ FramesHold size base frame.slots frames

theorem FramesHold.top_le {size : ℕ} {base top : ℤ} {frames : List CallFrame}
    (h : FramesHold size base top frames) : top ≤ base + size * frames.length := by
  induction frames generalizing top with
  | nil => simpa [FramesHold] using h
  | cons frame frames ih =>
    obtain ⟨htop, hframes⟩ := h
    have hslots := ih hframes
    rw [List.length_cons, Nat.cast_add, Nat.cast_one, mul_add, mul_one]
    omega

/-- What is checked is enough when frames have no more values than `STACK_MAX` counts on, less the two
that a native may add. -/
theorem pushes_within_frames {compiledUnit : CompiledUnit} (session : Session host vm)
    (hload : vm.stackTop.toNat + compiledUnit.functions.length + 1 ≤ stackMax)
    (hframes : ∀ reached, Running host compiledUnit vm reached →
      FramesHold 254 0 reached.stackTop reached.frames)
    (rounds : ℕ) : vm.PushesUpTo stackMax (interpret host compiledUnit rounds vm).2 := by
  refine .ofTriple (interpret_within host rounds (by decide) hload) ⟨session.framesBelow, fun reached hreached hbelow => ?_⟩
  have htop := (hframes reached hreached).top_le
  have hlength := hbelow.frames.2
  unfold VM.hasRoom
  split
  next byte _ =>
    cases OpCode.ofByte? byte with
    | none => rfl
    | some op =>
      have hmost := roomFor_le op
      have hframesMax : framesMax = 64 := rfl
      have hstackMax : stackMax = 16384 := rfl
      exact decide_eq_true (by omega)
  next => rfl

end KirbyLang.Vm
