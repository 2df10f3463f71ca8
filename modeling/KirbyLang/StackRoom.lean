import KirbyLang.InterpreterLaw
import KirbyLang.Lib.Triples
import KirbyLang.NativeRoom

/-!
# Room on the value stack

How far the programs of the machine raise the stack pointer. Everything is relative to a limit that
no push goes beyond.

* `stackLaw`: no push goes beyond the limit;
* `Within`: from a stack of one height to a stack of another, without going beyond the limit;
* `Memory.Rises`: what programs over the memory do with the height;
* `Prog.DepthAtMost`: how many values a native keeps on the stack; `within_prog`.
-/

namespace KirbyLang.Vm

open Laws

/-- A push leaves the stack no higher than a limit. -/
def Event.UpTo (limit : ℕ) : Event → Prop
  | .push top => top ≤ limit
  | _ => True

/-- No push between two states goes beyond the limit. -/
def VM.PushesUpTo (limit : ℕ) (vm vm' : VM) : Prop :=
  ∃ events, vm'.trace = events ++ vm.trace ∧ ∀ e ∈ events, e.UpTo limit

section Law

variable {limit : ℕ} {vm vm' vm'' : VM}

theorem VM.PushesUpTo.ofSame (h : vm'.trace = vm.trace) : vm.PushesUpTo limit vm' :=
  ⟨[], h, by simp⟩

theorem VM.PushesUpTo.trans (h : vm.PushesUpTo limit vm') (h' : vm'.PushesUpTo limit vm'') :
    vm.PushesUpTo limit vm'' := by
  obtain ⟨events, htrace, hevents⟩ := h
  obtain ⟨events', htrace', hevents'⟩ := h'
  refine ⟨events' ++ events, by rw [htrace', htrace, List.append_assoc], fun e he => ?_⟩
  rcases List.mem_append.mp he with he | he
  · exact hevents' e he
  · exact hevents e he

theorem VM.PushesUpTo.logged {e : Event} (h : e.UpTo limit) : vm.PushesUpTo limit (vm.logged e) :=
  ⟨[e], rfl, by simpa using h⟩

end Law

/-- No push goes beyond the limit. -/
def stackLaw (limit : ℕ) : Law VM Stop where
  goes := VM.PushesUpTo limit
  fails := VM.PushesUpTo limit
  stops := fun _ => VM.PushesUpTo limit
  refl := fun _ => .ofSame rfl
  trans := .trans
  trans_fails := .trans
  trans_stops := .trans

/-- No frame begins at the limit, and there are no more than `FRAMES_MAX`. -/
def FramesBelow (limit : ℕ) (frames : List CallFrame) : Prop :=
  (∀ frame ∈ frames, frame.slots < limit) ∧ frames.length ≤ framesMax

/-- The stack is no higher than `height`, and the frames are below the limit. -/
structure VM.Below (limit height : ℕ) (vm : VM) : Prop where
  stackTop : vm.stackTop ≤ height
  frames : FramesBelow limit vm.frames

/-- From a stack no higher than `before` to one no higher than `after`, within the limit. -/
def Within {α : Type} (limit before after : ℕ) (p : M α) : Prop :=
  (stackLaw limit).Triple (VM.Below limit before) p fun _ => VM.Below limit after

section Commands

variable {α β : Type} {limit b c d : ℕ} {p : M α} {f : α → M β} {vm vm' : VM}

theorem VM.Below.mono (h : vm.Below limit b) (hle : b ≤ c) : vm.Below limit c :=
  ⟨h.stackTop.trans (Int.ofNat_le.mpr hle), h.frames⟩

theorem Within.bind (hp : Within limit b c p) (hf : ∀ a, Within limit c d (f a)) :
    Within limit b d (p >>= f) :=
  Law.Triple.bind hp hf

theorem Within.mono (h : Within limit b c p) (hle : c ≤ d) : Within limit b d p :=
  h.weaken (fun _ hs => hs) fun _ _ hs => hs.mono hle

/-- From one state with a stack of that height. -/
theorem Within.from (h : Within limit b c p) (hvm : vm.Below limit b) :
    (stackLaw limit).Triple (fun s => s = vm) p fun _ => VM.Below limit c :=
  h.weaken (fun _ hs => hs ▸ hvm) fun _ _ hs => hs

theorem within_pure (a : α) (hle : b ≤ c) : Within limit b c (pure a) :=
  triple_pure fun _ hs => hs.mono hle

theorem within_read {g : VM → M β} (h : ∀ vm, Within limit b c (g vm)) :
    Within limit b c (get >>= g) := triple_read h

theorem within_reads (h : Reads p) : Within limit b b p := by
  intro vm hvm
  have hsame := h vm
  rcases hp : p vm with ⟨e | a, vm'⟩
  · obtain rfl : vm' = vm := by simpa [hp] using hsame
    exact .ofSame rfl
  · obtain rfl : vm' = vm := by simpa [hp] using hsame
    exact ⟨.ofSame rfl, hvm⟩

theorem within_fault : Within limit b c (fault : M α) := triple_throw fun _ => .ofSame rfl

theorem within_exit (code : ℤ) : Within limit b c (exit code : M α) := triple_throw fun _ => .ofSame rfl

/-- A change that the height of the stack, the frames' places and the trace do not see. -/
theorem within_modify {f : VM → VM} (hsame : ∀ vm, (f vm).trace = vm.trace ∧
    (f vm).stackTop = vm.stackTop ∧ (vm.Below limit b → FramesBelow limit (f vm).frames)) :
    Within limit b b (modify f : M Unit) :=
  triple_modify (fun vm _ => .ofSame (hsame vm).1)
    fun vm hvm => ⟨(hsame vm).2.1 ▸ hvm.stackTop, (hsame vm).2.2 hvm⟩

/-- The world does not see the stack. -/
theorem within_modifyGet (f : World → α × World) : Within limit b b
    (modifyGet fun vm => ((f vm.world).1, { vm with world := (f vm.world).2 }) : M α) :=
  fun _ hvm => ⟨.ofSame rfl, hvm.stackTop, hvm.frames⟩

theorem within_setSlot (slot : ℤ) (value : Value) : Within limit b b (setSlot slot value) :=
  within_modify fun _ => ⟨rfl, rfl, fun hvm => hvm.frames⟩

theorem within_log {e : Event} (h : e.UpTo limit) :
    Within limit b b (modify fun vm => vm.logged e : M Unit) :=
  triple_modify (fun _ _ => .logged h) fun _ hvm => ⟨hvm.stackTop, hvm.frames⟩

/-! ### Errors -/

theorem VM.PushesUpTo.afterError (vm : VM) (message : Bytes) :
    vm.PushesUpTo limit (vm.afterError message) :=
  ⟨[.report message], rfl, by simp [Event.UpTo]⟩

theorem VM.Below.afterError (vm : VM) (message : Bytes) : (vm.afterError message).Below limit b :=
  ⟨Int.natCast_nonneg b, fun _ hframe => (by cases hframe), Nat.zero_le _⟩

theorem within_runtimeError (message : Bytes) : Within limit b c (runtimeError message) :=
  triple_modify (fun vm _ => .afterError vm message) fun vm _ => .afterError vm message

theorem within_refuse (message : Bytes) : Within limit b c (refuse message) :=
  (within_runtimeError message).bind fun _ => within_pure _ (Nat.le_refl c)

theorem within_die (message : Bytes) : Within limit b c (die message : M α) :=
  Within.bind (c := c) (within_runtimeError message) fun _ => within_exit _

/-! ### The stack -/

/-- What a program over the memory does that raises the stack by `up`, and for that by no more than
`depth` in between. -/
structure Memory.Rises (up : ℤ) (depth : ℕ) (memory memory' : Memory) : Prop where
  frames : memory'.frames = memory.frames
  stackTop : memory'.stackTop = memory.stackTop + up
  within : ∃ events, memory'.trace = events ++ memory.trace ∧
    ∀ e ∈ events, e.Within (memory.stackTop + depth)

def Mem.Rising (up : ℤ) (depth : ℕ) (p : Mem α) : Prop :=
  ∀ memory a memory', p memory = some (a, memory') → memory.Rises up depth memory'

/-- A program over the memory that leaves the height of the stack as it was. -/
abbrev Mem.Balancing (depth : ℕ) (p : Mem α) : Prop := p.Rising 0 depth

theorem Mem.Evolving.balancing {p : Mem α} (h : p.Evolving d) : p.Balancing d := by
  intro memory a memory' hp
  have hevolves := h memory a memory' hp
  exact ⟨hevolves.frames, hevolves.stackTop.trans (Int.add_zero _).symm, hevolves.within⟩

theorem Mem.balancing_writeObj (r : Ref) (o : Obj) : (writeObj r o).Balancing 0 := by
  intro memory a memory' h
  cases h
  exact ⟨rfl, (Int.add_zero _).symm, [], rfl, by simp⟩

theorem Mem.balancing_newUpvalue (slot : ℤ) : (newUpvalue slot).Balancing 0 := by
  intro memory r memory' h
  obtain ⟨memory₁, hmade, -, rfl⟩ := Mem.newUpvalue_made h
  have hevolves := @Mem.evolving_reallocate 0 _ _ _ _ _ hmade
  exact ⟨hevolves.frames, hevolves.stackTop.trans (Int.add_zero _).symm, hevolves.within⟩

theorem Event.Within.upTo {e : Event} {top : ℤ} (h : e.Within top) (hle : top ≤ limit) :
    e.UpTo limit := by
  cases e with
  | push top' => exact Int.le_trans h hle
  | _ => trivial

theorem within_liftMem {p : Mem α} (h : p.Balancing d) (hroom : b + d ≤ limit) :
    Within limit b b (liftMem p) := by
  intro vm hvm
  have htop := hvm.stackTop
  rcases hp : p vm.toMemory with _ | ⟨a, memory⟩
  · have hrun : liftMem p vm = (.error .fault, vm) := by simp only [liftMem, hp]
    rw [hrun]
    exact VM.PushesUpTo.ofSame rfl
  · have hrun : liftMem p vm = (.ok a, { vm with toMemory := memory }) := by simp only [liftMem, hp]
    rw [hrun]
    obtain ⟨hframes, hstackTop, events, htrace, hevents⟩ := h _ _ _ hp
    refine ⟨⟨events, htrace, fun e he => (hevents e he).upTo (by omega)⟩, ?_, ?_⟩
    · show memory.stackTop ≤ b
      omega
    · show FramesBelow limit memory.frames
      rw [hframes]
      exact hvm.frames

theorem within_push (value : Value) (hroom : b + 1 ≤ limit) : Within limit b (b + 1) (push value) := by
  intro vm hvm
  have htop := hvm.stackTop
  refine ⟨⟨[.push (vm.stackTop + 1)], rfl, fun e he => ?_⟩, ?_, hvm.frames⟩
  · obtain rfl := List.mem_singleton.mp he
    show vm.stackTop + 1 ≤ limit
    omega
  · show vm.stackTop + 1 ≤ (b + 1 : ℕ)
    omega

theorem within_popped (count : ℤ) (hcount : ∀ vm : VM, vm.stackTop ≤ b → vm.stackTop - count ≤ c) :
    Within limit b c (popN count) := by
  intro vm hvm
  exact ⟨⟨[.pop (vm.stackTop - count)], rfl, by simp [Event.UpTo]⟩, hcount vm hvm.stackTop, hvm.frames⟩

theorem within_popN (count : ℕ) : Within limit b (b - count) (popN count) :=
  within_popped count fun vm hvm => by omega

theorem within_pop : Within limit b (b - 1) pop := by
  intro vm hvm
  have htop := hvm.stackTop
  refine ⟨⟨[.pop (vm.stackTop - 1)], rfl, by simp [Event.UpTo]⟩, ?_, hvm.frames⟩
  show vm.stackTop - 1 ≤ (b - 1 : ℕ)
  omega

/-- The stack is lowered to a place, whatever its height was. -/
theorem within_popTo {target : ℤ} {k : M β} (htarget : target ≤ c) (hk : Within limit c d k) :
    Within limit b d (do
      popN ((← get).stackTop - target)
      k) := by
  refine triple_get fun vm hvm => ?_
  have hpop : (stackLaw limit).Triple (fun s => s = vm) (popN (vm.stackTop - target))
      fun _ => VM.Below limit c := by
    intro vm' hsame
    obtain rfl : vm' = vm := hsame
    refine ⟨⟨[.pop _], rfl, by simp [Event.UpTo]⟩, ?_, hvm.frames⟩
    show vm'.stackTop - (vm'.stackTop - target) ≤ c
    omega
  exact hpop.bind fun _ => hk

theorem within_forM {xs : List β} {g : β → M Unit} (h : ∀ x, Within limit b b (g x)) :
    Within limit b b (xs.forM g) := triple_forM h

/-! ### Natives -/

/-- A native has room for what it keeps on the stack. -/
theorem within_prog (libc : Libc) {goesOn : Bool} {p : Prog goesOn α} (h : p.DepthAtMost d)
    (hroom : b + d ≤ limit) : Within limit b b (p.run libc) := by
  induction p generalizing b d with
  | pure a => exact within_pure a (Nat.le_refl b)
  | bind p f ihp ihf => exact (ihp h.1 hroom).bind fun a => ihf a (h.2 a) hroom
  | load object => exact within_reads (reads_deref object)
  | takeString chars =>
    have hone : b + 1 ≤ limit := Nat.le_trans (Nat.add_le_add_left h b) hroom
    exact within_liftMem (Mem.evolving_takeString chars).balancing hone
  | copyString chars =>
    have hone : b + 1 ≤ limit := Nat.le_trans (Nat.add_le_add_left h b) hroom
    exact within_liftMem (Mem.evolving_copyString chars).balancing hone
  | reallocate oldSize newSize =>
    exact within_liftMem (Mem.evolving_reallocate oldSize newSize).balancing hroom
  | newList => exact within_liftMem Mem.evolving_newList.balancing hroom
  | newArray count => exact within_liftMem (Mem.evolving_newArray count).balancing hroom
  | writeValueToListObj list value =>
    exact within_liftMem (Mem.evolving_writeValueToListObj list value).balancing hroom
  | setListValues list values =>
    exact within_liftMem (Mem.evolving_setListValues list values).balancing hroom
  | setArrayValues array values =>
    exact within_liftMem (Mem.evolving_setArrayValues array values).balancing hroom
  | holding value p ih =>
    obtain ⟨hone, hdepth⟩ := h
    have hheld : Within limit (b + 1) (b + 1) (p.run libc) := ih hdepth (by omega)
    exact (within_push value (by omega)).bind fun _ => hheld.bind fun a =>
      within_pop.bind fun _ => within_pure a (Nat.le_refl b)
  | printed toErr value => exact within_reads (reads_printedText libc toErr value)
  | typeName value =>
    exact within_reads (reads_get (f := fun vm => orFault (valueTypeToString vm.gc value))
      fun _ => reads_orFault _)
  | outside f => exact within_modifyGet f
  | exit code => exact within_exit code
  | fail message => exact within_die message
  | report _ message => exact within_runtimeError message
  | fault => exact within_fault

end Commands

end KirbyLang.Vm
