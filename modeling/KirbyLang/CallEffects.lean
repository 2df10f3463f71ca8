import KirbyLang.ErrorsStop
import KirbyLang.StackEffects

/-!
# The stack effect of a call

A call has its effect when its function has returned: between them any number of instructions run in
the frames above. What they do to the stack does not matter, for a return puts the result where the
callee was.

* `RunsAbove`: instructions that all run with more frames than a number;
* `runsAbove_over`: such a run leaves the frames below alone, and the place of the frame that was
  entered;
* `instruction_effect`: what an instruction has done when its own frame runs again.
-/

namespace KirbyLang.Vm

open Laws

variable (host : Host) {vm vm' vm'' : VM} {function : ObjFunction} {offset : ℕ} {frame : CallFrame}
  {rest : List CallFrame} {op : OpCode}

/-- Instructions that all run with more than `depth` frames. -/
def RunsAbove (depth : ℕ) : VM → VM → Prop :=
  Relation.ReflTransGen fun vm vm' => depth < vm.frames.length ∧ Steps host vm vm'

/-- An instruction that is run is in the code of the running function. -/
theorem step_isAt {result : Option InterpretResult} (h : step host vm = (.ok result, vm')) :
    ∃ function offset frame rest, vm.IsAt function offset frame rest ∧
      offset < function.chunk.code.length := by
  obtain ⟨byte, vm₁, hbyte, -⟩ := bind_eq_ok h
  obtain ⟨frame, rest, ⟨hframes, hip, function, code, hfunction, hcode, -⟩, -⟩ :=
    readByte_eq_ok.mp hbyte
  exact ⟨function, frame.ip.toNat, frame, rest,
    ⟨hframes, (Int.toNat_of_nonneg hip).symm, hfunction⟩, (List.getElem?_eq_some_iff.mp hcode).1⟩

/-- What a run has made of a frame that begins at a slot, over the frames below it. -/
inductive VM.Over (slots : ℤ) (below : List CallFrame) (vm : VM) : Prop
  | inside (inner : List CallFrame) (frame : CallFrame) (begins : frame.slots = slots)
      (frames : vm.frames = inner ++ frame :: below)
  | returned (frames : vm.frames = below) (stackTop : vm.stackTop = slots + 1)
  | failed (frames : vm.frames = [])

variable {slots : ℤ} {below : List CallFrame}

/-- One instruction in a frame or above it. -/
theorem VM.Over.step (hover : vm.Over slots below) (habove : below.length < vm.frames.length)
    (h : Steps host vm vm') : vm'.Over slots below := by
  cases hover with
  | returned hframes _ =>
    rw [hframes] at habove
    exact absurd habove (Nat.lt_irrefl _)
  | failed hframes =>
    rw [hframes] at habove
    exact absurd habove (Nat.not_lt_zero _)
  | inside inner last hbegins hframes =>
    -- the running frame is in `inner`, or it is the frame itself
    have hhead : ∀ {running : CallFrame} {rest : List CallFrame},
        running :: rest = inner ++ last :: below →
        (inner = [] ∧ running = last ∧ rest = below) ∨
          ∃ inner', inner = running :: inner' ∧ rest = inner' ++ last :: below := by
      intro running rest heq
      cases inner with
      | nil =>
        cases heq
        exact .inl ⟨rfl, rfl, rfl⟩
      | cons first inner' =>
        cases heq
        exact .inr ⟨inner', rfl, rfl⟩
    have hstays : ∀ (above : List CallFrame) {running : CallFrame} {rest : List CallFrame} {ip : ℤ},
        running :: rest = inner ++ last :: below →
        vm'.frames = above ++ { running with ip } :: rest → vm'.Over slots below := by
      intro above running rest ip heq hframes'
      rcases hhead heq with ⟨-, rfl, rfl⟩ | ⟨inner', -, rfl⟩
      · exact .inside above { running with ip } hbegins hframes'
      · refine .inside (above ++ { running with ip } :: inner') last hbegins ?_
        rw [hframes', List.append_assoc, List.cons_append]
    obtain ⟨function, offset, running, rest, hat, -⟩ := step_isAt host h
    have heq : running :: rest = inner ++ last :: below := hat.frames.symm.trans hframes
    cases hop : OpCode.ofByte? (function.byteAt offset) with
    | none => exact hstays [] heq (step_passes host hat hop h).1
    | some op =>
      cases step_ends host hat hop h with
      | failed hnone => exact .failed hnone
      | stays _ ip _ hframes' _ => exact hstays [] heq hframes'
      | enters _ closure hframes' _ => exact hstays [_] heq hframes'
      | returns _ hframes' _ htop =>
        rcases hhead heq with ⟨-, rfl, rfl⟩ | ⟨inner', -, rfl⟩
        · exact .returned hframes' (by rw [htop, hbegins])
        · exact .inside inner' last hbegins hframes'

/-- A run in a frame and above it leaves the frames below alone. -/
theorem runsAbove_over (hover : vm.Over slots below) (h : RunsAbove host below.length vm vm') :
    vm'.Over slots below := by
  induction h with
  | refl => exact hover
  | tail _ hstep ih => exact ih.step host hstep.1 hstep.2

/-- What an instruction other than a return has done when its own frame is the innermost one again:
the frames below are the same, the frame goes on where the table says that the instruction ends, and
the height of the stack is what the table says. -/
theorem instruction_effect (hat : vm.IsAt function offset frame rest)
    (hop : OpCode.ofByte? (function.byteAt offset) = some op) (hreturn : op ≠ .return_)
    (hstep : Steps host vm vm') (hruns : RunsAbove host vm.frames.length vm' vm'')
    (hback : vm''.frames.length = vm.frames.length) :
    (∃ ip, vm.gc.Follows function offset op ip ∧ vm''.frames = { frame with ip } :: rest) ∧
      vm''.stackTop = vm.stackTop + op.effect (function.instructionCount offset op) := by
  have hlength : vm.frames.length = rest.length + 1 := by rw [hat.frames, List.length_cons]
  -- a frame that runs already is not run above
  have hsame : vm'.frames.length ≤ vm.frames.length → vm'' = vm' := by
    intro hle
    rcases hruns.cases_head with heq | ⟨_, ⟨hlt, -⟩, -⟩
    · exact heq.symm
    · exact absurd hlt (Nat.not_lt_of_le hle)
  cases step_ends host hat hop hstep with
  | failed hnone =>
    rw [hsame (by rw [hnone]; exact Nat.zero_le _), hnone, hlength] at hback
    cases hback
  | stays _ ip hfollows hframes htop =>
    rw [hsame (by rw [hframes, hlength, List.length_cons])]
    exact ⟨⟨ip, hfollows, hframes⟩, htop⟩
  | returns hop' _ _ _ => exact absurd hop' hreturn
  | enters hcall closure hframes htop =>
    have hbelow : ({ frame with ip := offset + vm.gc.instructionLength function offset op } ::
        rest).length = vm.frames.length := by rw [hlength, List.length_cons]
    rw [← hbelow] at hruns hback
    have heffect : op.effect (function.instructionCount offset op) =
        -function.instructionCount offset op := by
      rcases hcall with rfl | rfl <;> simp [OpCode.effect, opInfo]
    cases runsAbove_over host (.inside [] _ rfl hframes) hruns with
    | inside inner last _ hframes' =>
      rw [hframes', List.length_append, List.length_cons (a := last)] at hback
      omega
    | failed hnone =>
      rw [hnone] at hback
      cases hback
    | returned hframes' htop' =>
      refine ⟨⟨_, ?_, hframes'⟩, ?_⟩
      · rcases hcall with rfl | rfl <;> exact rfl
      · rw [htop', heffect]
        show vm.stackTop - function.instructionCount offset op - 1 + 1 = _
        omega

/-! ### A call that returns -/

/-- A script that calls a function of one argument, and the function, which returns `nil`. -/
def callObjects : List Obj :=
  [.function { chunk := { code := [⟨OpCode.call.toByte, 1⟩, ⟨1, 1⟩, ⟨OpCode.return_.toByte, 1⟩] } },
    .closure { function := 1, upvalues := [] },
    .function {
      arity := 1
      chunk := { code := [⟨OpCode.nil.toByte, 2⟩, ⟨OpCode.return_.toByte, 2⟩] } },
    .closure { function := 3, upvalues := [] }]

def callVM : VM where
  gc :=
    { heap := fun r => if r = 0 then none else callObjects[r - 1]?
      objects := [4, 3, 2, 1]
      nextRef := 5
      policy := stressPolicy }
  stack := fun slot => if slot = 0 then .obj 2 else if slot = 1 then .obj 4 else .nil
  stackTop := 3
  frames := [{ closure := 2, ip := 0, slots := 0 }]

theorem instruction_effect_call :
    (∃ vm' vm'', Steps plainHost callVM vm' ∧ RunsAbove plainHost 1 vm' vm'' ∧
      vm''.frames.length = 1 ∧ vm' ≠ vm'') ∧
    ∀ vm' vm'', Steps plainHost callVM vm' → RunsAbove plainHost 1 vm' vm'' →
      vm''.frames.length = 1 → vm''.stackTop = 2 := by
  have hat : callVM.IsAt { chunk := { code := [⟨OpCode.call.toByte, 1⟩, ⟨1, 1⟩,
      ⟨OpCode.return_.toByte, 1⟩] } } 0 { closure := 2, ip := 0, slots := 0 } [] :=
    ⟨rfl, rfl, rfl⟩
  refine ⟨⟨(step plainHost callVM).2, (step plainHost (step plainHost (step plainHost callVM).2).2).2,
    rfl, ?_, rfl, ?_⟩, fun vm' vm'' hstep hruns hback => ?_⟩
  · refine .tail (.single ⟨by decide, rfl⟩) ⟨by decide, rfl⟩
  · intro heq
    have hlength := congrArg (fun vm : VM => vm.frames.length) heq
    exact absurd hlength (by decide)
  · have hop : OpCode.ofByte? OpCode.call.toByte = some .call := by decide
    exact (instruction_effect plainHost hat hop (by decide) hstep hruns hback).2

end KirbyLang.Vm
