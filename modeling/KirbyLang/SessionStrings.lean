import KirbyLang.MemberAccess

/-!
# The strings of a session

The making of strings by instructions and natives, and what it means for a whole session: as long as
no pop goes below the stack, two strings with the same bytes are one object.

* `concatenate_strings`, `native_strings`, `step_strings`: the programs are runs of string steps;
* `InSession.interns`: so is a session from its beginning on;
* `session_strings`: strings of a session are compared by their addresses.
-/

namespace KirbyLang.Vm

open Laws Preorders

variable {host : Host} {vm vm' : VM}

/-! ### The beginning of a session -/

theorem Mem.interning_defineNative (name : Bytes) : (defineNative name).Interning :=
  (interning_copyString name).bind fun _ => (interning_push _).bind fun _ =>
    Interning.bind (stays_newNative name) fun _ => (interning_push _).bind fun _ =>
    Interning.bind (stays_read _) fun key => Interning.bind (stays_read _) fun value =>
    (@interning_tableSet .globals (by simp) key value).bind fun _ => interning_pop.bind fun _ =>
    interning_pop.bind fun _ => stays_pure ()

theorem Mem.interning_defineAllNatives (host : Host) : (defineAllNatives host).Interning := by
  unfold defineAllNatives
  exact Stays.forM fun definition => interning_defineNative (text definition.1)

theorem initVM_interns {policy : ℕ → UInt64 → UInt64 → Bool} {world : World}
    (h : initVM host policy world = some vm) : (Memory.initial policy).Interns vm.toMemory := by
  obtain ⟨⟨_, memory⟩, hnatives, h⟩ := Option.bind_eq_some_iff.mp h
  cases h
  exact Mem.interning_defineAllNatives host _ _ _ hnatives

/-! ### Instructions and natives -/

/-- What obeys the law is a run of string steps, whether it has reported an error or not. -/
theorem strings_of_obeysFrom {α : Type} {p : M α} {failed : α → Prop} {a : α}
    (h : (machineLaw .lax).ObeysFrom failed p vm) (hrun : p vm = (.ok a, vm')) :
    vm.toMemory.Interns vm'.toMemory :=
  ((lax_obeysFrom rfl h).goes hrun fun hfalse => hfalse).strings

theorem concatenate_strings (h : concatenate vm = (.ok (), vm')) (hpops : vm'.NoUnderflow)
    (hbase : 0 ≤ vm.stackTop) : StringRun vm.toMemory vm'.toMemory :=
  ((strings_of_obeysFrom (obeys_concatenate vm) h).run hpops hbase).2

/-- Natives that end the process when they report an error, and natives that go on. -/
theorem native_strings {libc : Libc} {native : Native} {argCount : ℕ} {args : ℕ → Value}
    {result : Value} (h : native.run libc argCount args vm = (.ok result, vm'))
    (hpops : vm'.NoUnderflow) (hbase : 0 ≤ vm.stackTop) :
    StringRun vm.toMemory vm'.toMemory := by
  cases native with
  | stops fn =>
    exact ((strings_of_obeysFrom (obeys_prog libc (fn argCount args) (fun _ => rfl) vm) h).run
      hpops hbase).2
  | goesOn fn =>
    exact ((strings_of_obeysFrom (obeys_prog libc (fn argCount args) (fun _ => rfl) vm) h).run
      hpops hbase).2

theorem step_strings {result : Option InterpretResult} (h : step host vm = (.ok result, vm'))
    (hpops : vm'.NoUnderflow) (hbase : 0 ≤ vm.stackTop) :
    StringRun vm.toMemory vm'.toMemory :=
  ((Moves.instruction h).goes.strings.run hpops hbase).2

/-! ### Sessions -/

theorem InSession.interns (session : InSession host vm) :
    ∃ policy, (Memory.initial policy).Interns vm.toMemory := by
  obtain ⟨policy, world, start, hinit, hlater⟩ := session
  exact ⟨policy, (initVM_interns hinit).trans hlater.goes.strings⟩

/-- In every state that a session comes to without a pop below the stack, strings with the same
bytes are one object, so that `valuesEqual` compares the bytes. -/
theorem session_strings (session : InSession host vm) (hpops : vm.NoUnderflow) {r r' : Ref}
    {s s' : ObjString} (hr : vm.gc.heap r = some (.string s))
    (hr' : vm.gc.heap r' = some (.string s')) :
    valuesEqual (.obj r) (.obj r') = true ↔ s.chars = s'.chars := by
  obtain ⟨policy, hinterns⟩ := session.interns
  obtain ⟨-, hrun⟩ := hinterns.run hpops (Int.le_refl 0)
  have hstate := (StringState.initial policy).run hrun
  refine ⟨fun heq => ?_, fun heq => ?_⟩
  · have hsame : r = r' := by simpa [valuesEqual] using heq
    subst hsame
    cases hr.symm.trans hr'
    rfl
  · simp [valuesEqual, hstate.interned.distinct r r' s s' hr hr' heq]

end KirbyLang.Vm
