import KirbyLang.ErrorsStop

/-!
# Private members and `let` fields

What the law of the machine says about the members of structs over whole sessions, errors included.

* `Moves`, `Later`: one instruction, or the start of a unit, and any number of them;
* `Moves.goes_of`: a session obeys the forms of the law that let reports through;
* `members_protected`: a private member is used by name by its own struct only, and a `let` field
  keeps its value;
* `escaped_called`: a private method that its struct has handed out is called by others.
-/

namespace KirbyLang.Vm

open Laws

variable {host : Host} {vm vm' : VM}

/-! ### Sessions, one instruction at a time -/

/-- One move of a session: an instruction, or a unit is loaded and entered when none is running. -/
inductive Moves (host : Host) : VM → VM → Prop
  | instruction {vm vm' : VM} {result : Option InterpretResult} (h : step host vm = (.ok result, vm')) :
      Moves host vm vm'
  | input {vm vm' : VM} {compiledUnit : CompiledUnit} (hframes : vm.frames = [])
      (h : entered compiledUnit vm = some vm') : Moves host vm vm'

def Later (host : Host) : VM → VM → Prop := Relation.ReflTransGen (Moves host)

/-- The states that a session comes to. -/
def InSession (host : Host) (vm : VM) : Prop :=
  ∃ policy world start, initVM host policy world = some start ∧ Later host start vm

/-- When reports are let through, a failed program obeys the law like others. -/
theorem lax_obeysFrom {lax : Latitude} (hlax : lax.reports = true) {α : Type} {failed : α → Prop}
    {p : M α} (h : (machineLaw lax).ObeysFrom failed p vm) :
    (machineLaw lax).ObeysFrom never p vm := by
  rcases hp : p vm with ⟨stop | a, vm'⟩
  · exact obeysFrom_error hp (h.stops hp)
  · refine obeysFrom_ok hp (fun hfalse => hfalse) ?_
    by_cases ha : failed a
    · obtain ⟨erring, message, hgoes, rfl⟩ := h.fails hp ha
      exact hgoes.trans (.afterError hlax erring message)
    · exact h.goes hp ha

theorem enterFunction_lax {lax : Latitude} (hlax : lax.reports = true) (function : Ref) :
    (machineLaw lax).Obeys never (enterFunction function) :=
  (obeys_push _).bind fun _ =>
    (obeys_liftMem (@Mem.evolving_newClosure 0 function).advancing
      (Mem.stays_newClosure function)).bind fun closure =>
    obeys_pop.bind fun _ => (obeys_push _).bind fun _ =>
    Law.Obeys.bind (fun vm => lax_obeysFrom hlax (obeys_call closure 0 vm)) fun _ =>
    obeys_pure fun hfalse => hfalse

theorem Moves.goes_of {lax : Latitude} (h : Moves host vm vm') (hlax : lax.reports = true)
    (hupvalues : ∀ op, vm.NextIs op → movesUpvalues op = true → lax.upvalues = true) :
    vm.Goes lax vm' := by
  cases h with
  | instruction h =>
    exact (lax_obeysFrom hlax (step_obeys host (.inl hlax) hupvalues)).goes h fun hfalse => hfalse
  | @input compiledUnit hframes h =>
    have hload : (machineLaw lax).Obeys never (do enterFunction (← liftMem (loadUnit compiledUnit))) :=
      (obeys_liftMem (Mem.advancing_loadUnit compiledUnit)
        (Mem.interning_loadUnit compiledUnit)).bind (enterFunction_lax hlax)
    unfold entered at h
    split at h
    next hrun =>
      cases h
      exact (hload vm).goes hrun fun hfalse => hfalse
    next => cases h

theorem Moves.goes (h : Moves host vm vm') : vm.Goes .lax vm' := h.goes_of rfl fun _ _ _ => rfl

theorem Later.goes (h : Later host vm vm') : vm.Goes .lax vm' := by
  induction h with
  | refl => exact .refl vm
  | tail _ hmove ih => exact ih.trans hmove.goes

theorem initial_fits (policy : ℕ → UInt64 → UInt64 → Bool) : (Memory.initial policy).gc.Fits :=
  ⟨fun _ _ => rfl, fun _ _ h => by cases h⟩

theorem InSession.fits (session : InSession host vm) : vm.gc.Fits := by
  obtain ⟨policy, world, start, hinit, hlater⟩ := session
  exact hlater.goes.fits ((initVM_advances hinit).fits (initial_fits policy))

/-- Everything that has happened in a session is allowed. -/
theorem InSession.allowed (session : InSession host vm) : ∀ e ∈ vm.trace, e.Allowed true := by
  obtain ⟨policy, world, start, hinit, hlater⟩ := session
  obtain ⟨events, htrace, hevents⟩ := hlater.goes.trace
  obtain ⟨first, hfirst, hstack⟩ := (initVM_advances hinit).trace
  intro e he
  rw [htrace, hfirst] at he
  rcases List.mem_append.mp he with he | he
  · exact hevents e he
  · exact (hstack e (by simpa [Memory.initial] using he)).allowed

/-! ### Members -/

/-- The value in a slot of an instance. -/
def GC.fieldValue? (gc : GC) (instance_ : Ref) (slot : ℕ) : Option Value := do
  let o ← gc.instance? instance_
  let fields ← o.fields
  fields[slot]?

/-- The value in a slot of an instance when it is one of a field that its struct declares `let`. -/
def GC.letField? (gc : GC) (instance_ : Ref) (slot : ℕ) : Option Value := do
  let o ← gc.instance? instance_
  let struct_ ← gc.struct? o.struct_
  if slot < struct_.fieldCount ∧ struct_.fieldMutable slot = false then gc.fieldValue? instance_ slot
  else none

/-- A `let` field of an instance keeps its value. -/
theorem Later.letField {before after : VM} (h : Later host before after) (hfits : before.gc.Fits)
    {instance_ : Ref} {slot : ℕ} {value : Value} (hlet : before.gc.letField? instance_ slot = some value)
    (hthere : after.gc.instance? instance_ ≠ none) :
    after.gc.fieldValue? instance_ slot = some value := by
  obtain ⟨i, hi, hlet⟩ := Option.bind_eq_some_iff.mp hlet
  obtain ⟨struct_, hstruct, hlet⟩ := Option.bind_eq_some_iff.mp hlet
  obtain ⟨⟨-, himmutable⟩, hvalue⟩ := Option.ite_none_right_eq_some.mp hlet
  have hnot : ¬ before.gc.IsMutable i.struct_ slot := by
    rintro ⟨o, ho, -, hmutable⟩
    cases (GC.struct?_eq_some.mp hstruct).symm.trans ho
    rw [himmutable] at hmutable
    cases hmutable
  obtain ⟨i', hi'⟩ := Option.ne_none_iff_exists'.mp hthere
  have hheap := Mem.instance?_eq_some hi
  obtain ⟨i₀, hi₀, -, hkeep⟩ := (h.goes.changes hfits).instance_ instance_ i' (hfits.lt hheap)
    (Mem.instance?_eq_some hi')
  cases hheap.symm.trans hi₀
  obtain ⟨_, hi₁, hvalue⟩ := Option.bind_eq_some_iff.mp hvalue
  cases hi.symm.trans hi₁
  obtain ⟨values, hvalues, hslot⟩ := Option.bind_eq_some_iff.mp hvalue
  obtain ⟨values', hvalues', -, hsame⟩ := hkeep values hvalues
  exact Option.bind_eq_some_iff.mpr ⟨i', hi', Option.bind_eq_some_iff.mpr
    ⟨values', hvalues', (hsame slot hnot).trans hslot⟩⟩

/-- In every session: a private member is used by its name, be it to initialize, read, write, call or
bind it, only while a closure runs whose owner is the struct; and from any state in which an instance
is there to any later one, a field declared `let` keeps its value. -/
theorem members_protected {before after : VM} (session : InSession host before)
    (later : Later host before after) :
    (∀ struct_ owner, .access struct_ false owner ∈ after.trace → owner = struct_) ∧
      ∀ instance_ slot value, before.gc.letField? instance_ slot = some value →
        after.gc.instance? instance_ ≠ none →
        after.gc.fieldValue? instance_ slot = some value := by
  refine ⟨fun struct_ owner he => ?_, fun instance_ slot value hlet hthere =>
    later.letField session.fits hlet hthere⟩
  obtain ⟨policy, world, start, hinit, hbefore⟩ := session
  have hsession : InSession host after := ⟨policy, world, start, hinit, hbefore.trans later⟩
  simpa [Event.Allowed] using hsession.allowed _ he

/-! ### A `let` field -/

/-- Whether one of the next instructions is as asked for. -/
def someInstruction (host : Host) (p : VM → VM → Bool) : ℕ → VM → Bool
  | 0, _ => false
  | rounds + 1, vm =>
    match step host vm with
    | (.ok none, vm') => p vm vm' || someInstruction host p rounds vm'
    | _ => false

theorem someInstruction_moves {p : VM → VM → Bool} {rounds : ℕ}
    (h : someInstruction host p rounds vm = true) :
    ∃ before after, Later host vm before ∧ Moves host before after ∧ p before after = true := by
  induction rounds generalizing vm with
  | zero => cases h
  | succ rounds ih =>
    unfold someInstruction at h
    split at h
    next vm' hstep =>
      rcases Bool.or_eq_true_iff.mp h with hp | hrest
      · exact ⟨vm, vm', .refl, .instruction hstep, hp⟩
      · obtain ⟨before, after, hlater, hmove, hp⟩ := ih hrest
        exact ⟨before, after, .head (.instruction hstep) hlater, hmove, hp⟩
    next => cases h

/-- A state that the first program of a session comes to. -/
theorem compiled_moves {program : List AstNode} {p : VM → VM → Bool} {rounds : ℕ}
    (h : ((compiled program).bind fun compiledUnit =>
      (initVM plainHost thresholdPolicy {}).bind (entered compiledUnit)).any
        (someInstruction plainHost p rounds) = true) :
    ∃ before after, InSession plainHost before ∧ Moves plainHost before after ∧
      p before after = true := by
  obtain ⟨vm, hentered, hsome⟩ := exists_of_any h
  obtain ⟨compiledUnit, -, hentered⟩ := Option.bind_eq_some_iff.mp hentered
  obtain ⟨start, hinit, hentered⟩ := Option.bind_eq_some_iff.mp hentered
  obtain ⟨before, after, hlater, hmove, hp⟩ := someInstruction_moves hsome
  have hstart : Later plainHost start vm := .single (.input (initVM_advances hinit).frames hentered)
  exact ⟨before, after, ⟨_, _, start, hinit, hstart.trans hlater⟩, hmove, hp⟩

/-- `struct Point { pub let x: bool; } Point { x: true };` -/
def letProgram : List AstNode :=
  let point := tokenFromCString "Point"
  let x := tokenFromCString "x"
  let decl : VarDeclInfo :=
    { name := x
      declaredType := some (.named 1 (tokenFromCString "bool") [])
      declEndLine := 1
      isMutable := false
      isPublic := true }
  [.struct_ 1 point [] [.varDecl 1 decl none] 1,
    .exprStmt 1 (.structInit 1 point [x] [.literal 1 (.boolean true)] 1)]

/-- The instance on top of the stack, whose `let` field is true, if it is there after an instruction. -/
def letFieldThere (before after : VM) : Option Ref :=
  match before.stack (before.stackTop - 1) with
  | .obj instance_ =>
    if before.gc.letField? instance_ 0 = some (.boolean true) ∧ (after.gc.instance? instance_).isSome then
      some instance_
    else none
  | _ => none

theorem letFieldThere_eq_some {before after : VM} {instance_ : Ref}
    (h : letFieldThere before after = some instance_) :
    before.gc.letField? instance_ 0 = some (.boolean true) ∧ (after.gc.instance? instance_).isSome := by
  unfold letFieldThere at h
  split at h
  next r _ =>
    obtain ⟨hthere, heq⟩ := Option.ite_none_right_eq_some.mp h
    cases heq
    exact hthere
  next => cases h

theorem members_protected_point : ∃ before after instance_, InSession plainHost before ∧
    Moves plainHost before after ∧ before.gc.letField? instance_ 0 = some (.boolean true) ∧
      after.gc.fieldValue? instance_ 0 = some (.boolean true) := by
  obtain ⟨before, after, hsession, hmove, hthere⟩ :=
    @compiled_moves letProgram (fun before after => (letFieldThere before after).isSome) 20
      (by decide +kernel)
  obtain ⟨instance_, hinstance⟩ := Option.isSome_iff_exists.mp hthere
  obtain ⟨hlet, hsome⟩ := letFieldThere_eq_some hinstance
  exact ⟨before, after, instance_, hsession, hmove, hlet,
    (members_protected hsession (.single hmove)).2 instance_ 0 _ hlet
      (Option.ne_none_iff_isSome.mpr hsome)⟩

/-! ### Private methods as values -/

/-- The closure that an instruction has entered. -/
def calledClosure (before after : VM) : Option Ref :=
  match after.frames with
  | frame :: frames => if frames.length = before.frames.length then some frame.closure else none
  | [] => none

/-- The struct that has a closure among its methods as a private one. -/
def GC.privateOwner (gc : GC) (method : Ref) : Option Ref := do
  let closure ← gc.closure? method
  let function ← gc.function? closure.function
  let struct_ ← gc.struct? closure.owner
  if !function.isPublic && tableGet gc.hash struct_.methods function.name == some (some (.obj method)) then
    some closure.owner
  else none

/-- A private method is called while a closure runs that its struct does not own. -/
def calledByOthers (before after : VM) : Bool :=
  match (calledClosure before after).bind after.gc.privateOwner with
  | some struct_ => before.currentOwner != struct_
  | none => false

/-- A method without parameters that returns a value. -/
def methodNode (name : String) (isPublic : Bool) (returnType : TypeNode) (value : AstNode) : AstNode :=
  let fn : FunctionInfo :=
    { name := tokenFromCString name
      params := []
      paramTypes := []
      returnType := some returnType
      bodyEndLine := 1
      isMethod := true
      hasSelf := true
      isPublic }
  .function 1 fn [.return_ 1 (some value)] none none

/-- `struct Safe {} impl Safe { fun secret(self): bool { return true; } pub fun leak(self): fun () => bool
{ return self.secret; } } Safe {}.leak()();` -/
def escapeProgram : List AstNode :=
  let safe := tokenFromCString "Safe"
  let bool := TypeNode.named 1 (tokenFromCString "bool") []
  [.struct_ 1 safe [] [] 1,
    .impl 1 { targetName := safe, resolvedTarget := some safe, traitName := none, endLine := 1 }
      [methodNode "secret" false bool (.literal 1 (.boolean true)),
        methodNode "leak" true (.function 1 [] bool)
          (.get 1 (.self_ 1 (tokenFromCString "self")) (tokenFromCString "secret"))],
    .exprStmt 1
      (callNode (callNode (.get 1 (.structInit 1 safe [] [] 1) (tokenFromCString "leak")) []) [])]

/-- A private method that has been handed out is called by code that its struct does not own. -/
theorem escaped_called : ∃ before after method struct_, InSession plainHost before ∧
    Moves plainHost before after ∧ calledClosure before after = some method ∧
      after.gc.privateOwner method = some struct_ ∧ before.currentOwner ≠ struct_ := by
  obtain ⟨before, after, hsession, hmove, hcalled⟩ :=
    @compiled_moves escapeProgram calledByOthers 40 (by decide +kernel)
  unfold calledByOthers at hcalled
  split at hcalled
  next struct_ howner =>
    obtain ⟨method, hmethod, howner⟩ := Option.bind_eq_some_iff.mp howner
    exact ⟨before, after, method, struct_, hsession, hmove, hmethod, howner, by simpa using hcalled⟩
  next => cases hcalled

end KirbyLang.Vm
