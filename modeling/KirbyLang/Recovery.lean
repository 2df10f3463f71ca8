import KirbyLang.GcExact
import KirbyLang.MemberAccess
import KirbyLang.OpenUpvalues

/-!
# Open upvalues after an error

`runtimeError` empties the stack and forgets the open upvalues, but does not close them. What comes
of it for the inputs that follow in a session.

* `VM.OwnsUpvalues`: the closures that the globals lead to hold the values of their upvalues;
* `VM.OffStack`: what is read and written through an upvalue is no slot of the value stack;
* `VM.Recovers`: what an error should leave, for all later inputs;
* `CarefulMove.lists`: the list of open upvalues is that of all of them, as long as there is none on
  it when an error is reported;
* `errors_recover`: when an error leaves what it should;
* `error_leaves_open`: an error that does not.
-/

namespace KirbyLang.Vm

open Laws

variable {host : Host} {vm vm' after : VM}

/-! ### What an error should leave -/

/-- What the globals lead to. -/
def Memory.FromGlobals (memory : Memory) : Ref → Prop :=
  Tracing.Reaches (fun r => r ≠ null ∧ ∃ key, memory.globals.Maps key (.obj r)) memory.Edge

/-- An upvalue of a closure that the globals lead to. -/
def Memory.GlobalUpvalue (memory : Memory) (upvalue : Ref) (o : ObjUpvalue) : Prop :=
  ∃ closure c, memory.FromGlobals closure ∧ memory.gc.heap closure = some (.closure c) ∧
    upvalue ∈ c.upvalues ∧ memory.gc.heap upvalue = some (.upvalue o)

theorem Memory.GlobalUpvalue.upvalue {memory : Memory} {upvalue : Ref} {o : ObjUpvalue}
    (h : memory.GlobalUpvalue upvalue o) : memory.gc.heap upvalue = some (.upvalue o) := by
  obtain ⟨-, -, -, -, -, ho⟩ := h
  exact ho

/-- Every upvalue of every closure that the globals lead to holds its own value, and none refers to a
slot of the value stack. -/
def VM.OwnsUpvalues (vm : VM) : Prop :=
  ∀ upvalue o, vm.toMemory.GlobalUpvalue upvalue o → o.location = .closed

/-- What is read through an upvalue is not on the value stack, and neither is what is written. -/
structure VM.OffStack (vm : VM) (upvalue : Ref) : Prop where
  closed : ∀ o, vm.gc.heap upvalue = some (.upvalue o) → o.location = .closed
  reads : ∀ stack, Memory.cellValue { vm.toMemory with stack } upvalue = vm.cellValue upvalue
  writes : ∀ value vm', writeUpvalue upvalue value vm = (.ok (), vm') → vm'.stack = vm.stack

/-- What an error should leave: the closures that the globals lead to hold the values of their
upvalues themselves, and no later input reads or writes these through a slot of the stack. -/
structure VM.Recovers (host : Host) (after : VM) : Prop where
  owns : after.OwnsUpvalues
  later : ∀ upvalue o, after.GlobalUpvalue upvalue o → ∀ later, Later host after later →
    later.OffStack upvalue

theorem offStack_of_closed {upvalue : Ref}
    (h : ∀ o, vm.gc.heap upvalue = some (.upvalue o) → o.location = .closed) :
    vm.OffStack upvalue := by
  refine ⟨h, fun stack => ?_, fun value vm' hwrite => ?_⟩
  · unfold Memory.cellValue
    cases hupvalue : vm.gc.upvalue? upvalue with
    | none => rfl
    | some o =>
      obtain ⟨location, closed⟩ := o
      obtain rfl : location = .closed := h _ (upvalue?_eq_some hupvalue)
      rfl
  · obtain ⟨o, vm₁, hread, hrest⟩ := bind_eq_ok hwrite
    obtain ⟨hupvalue, rfl⟩ := orFault_ok hread
    have hclosed := h o (upvalue?_eq_some hupvalue)
    rw [hclosed] at hrest
    obtain ⟨memory, hrun, rfl⟩ := liftMem_ok hrest
    cases hrun
    rfl

/-- An upvalue that has been closed stays so, whatever is run later. -/
theorem Later.closed {upvalue : Ref} {later : VM} (h : Later host vm later)
    (hlt : upvalue < vm.gc.nextRef)
    (hclosed : ∀ o, vm.gc.heap upvalue = some (.upvalue o) → o.location = .closed) (o : ObjUpvalue)
    (ho : later.gc.heap upvalue = some (.upvalue o)) : o.location = .closed := by
  rcases h.goes.upvalues.heap upvalue o ho with ⟨u, hu, hsame | ⟨-, hclosed'⟩⟩ | ⟨-, hnew⟩
  · exact hsame.trans (hclosed u hu)
  · exact hclosed'
  · exact absurd hlt (Nat.not_lt_of_le hnew)

/-! ### Instructions that report an error -/

theorem VM.Goes.not_reports {lax : Latitude} (h : vm.Goes lax vm') (hlax : lax.reports = false) :
    ¬ vm.Reports vm' := by
  rintro ⟨events, message, htrace, hmem⟩
  obtain ⟨events', htrace', hallowed⟩ := h.trace
  obtain rfl : events = events' := List.append_cancel_right (htrace.symm.trans htrace')
  have hreport := hallowed _ hmem
  rw [Event.Allowed, hlax] at hreport
  cases hreport

theorem next_result {p : M Unit} {result : Option InterpretResult}
    (h : next p vm = (.ok result, vm')) : result = none := by
  obtain ⟨_, _, -, hrest⟩ := bind_eq_ok h
  cases hrest
  rfl

/-- An instruction that captures variables or closes upvalues does not end with an error. -/
theorem execute_not_erred {op : OpCode} (hop : movesUpvalues op = true)
    {result : Option InterpretResult} (h : execute host op vm = (.ok result, vm')) :
    ¬ erred result := by
  have hnext : ∀ p : M Unit, next p vm = (.ok result, vm') → ¬ erred result := by
    intro p hp
    rw [next_result hp]
    simp [erred]
  cases op with
  | closure => exact hnext _ h
  | closeUpvalue => exact hnext _ h
  | closeBlockExpr => exact hnext _ h
  | return_ =>
    obtain ⟨frame, vm₁, -, h⟩ := bind_eq_ok (show opReturn vm = _ from h)
    obtain ⟨value, vm₂, -, h⟩ := bind_eq_ok h
    obtain ⟨_, vm₃, -, h⟩ := bind_eq_ok h
    obtain ⟨_, vm₄, -, h⟩ := bind_eq_ok h
    obtain ⟨_, vm₅, -, h⟩ := bind_eq_ok h
    split at h
    · obtain ⟨_, vm₆, -, h⟩ := bind_eq_ok h
      cases h
      simp [erred]
    · obtain rfl := next_result h
      simp [erred]
  | _ => cases hop

/-- It reports none. -/
theorem step_not_reports {op : OpCode} (hnext : vm.NextIs op) (hop : movesUpvalues op = true)
    {result : Option InterpretResult} (h : step host vm = (.ok result, vm')) :
    ¬ vm.Reports vm' := by
  obtain ⟨byte, vm₁, hbyte, hof⟩ := hnext
  have hexecute := h
  rw [step, bind_ok hbyte, hof] at hexecute
  obtain ⟨_, vm₂, hlog, hexecute⟩ := bind_eq_ok hexecute
  cases hlog
  have hread : vm.Goes .strict vm₁ := (obeys_readByte vm).goes hbyte fun hfalse => hfalse
  have hlogged : vm₁.Goes .strict (vm₁.logged (.instruction op)) := .logged trivial
  have hobeys : (machineLaw .strict).ObeysFrom erred (execute host op)
      (vm₁.logged (.instruction op)) := by
    by_cases hreturn : op = .return_
    · subst hreturn
      exact obeys_opReturn rfl _
    · refine obeys_execute host ?_ ?_ hreturn (fun _ => rfl) _
      · rintro rfl
        cases hop
      · rintro rfl
        cases hop
  have hgoes := hobeys.goes hexecute (execute_not_erred hop hexecute)
  exact ((hread.trans hlogged).trans hgoes).not_reports rfl

/-- What becomes of the upvalues in a move that reports an error: nothing. -/
theorem Moves.upvalues_of_reports (h : Moves host vm vm') (hreports : vm.Reports vm') :
    vm.KeepsUpvalues ⟨true, false⟩ vm' := by
  refine (h.goes_of rfl fun op hnext hop => ?_).upvalues
  cases h with
  | instruction hstep => exact absurd hreports (step_not_reports hnext hop hstep)
  | input hframes =>
    obtain ⟨byte, vm₁, hbyte, -⟩ := hnext
    obtain ⟨frame, vm₂, hframe, -⟩ := bind_eq_ok hbyte
    rw [show currentFrame vm = orFault vm.frames.head? vm from rfl, hframes] at hframe
    cases hframe

/-- No variable is captured by a move that reports an error. -/
theorem Moves.openUpvalues_of_reports (h : Moves host vm vm') (hreports : vm.Reports vm')
    (hempty : vm.openUpvalues = []) : vm'.openUpvalues = [] := by
  have hsub := (h.upvalues_of_reports hreports).openUpvalues rfl
  rw [hempty] at hsub
  exact List.subset_nil.mp hsub

/-! ### Sessions -/

/-- A move that reports no error as long as a variable on the stack is captured. -/
def CarefulMove (host : Host) (vm vm' : VM) : Prop :=
  Moves host vm vm' ∧ (vm.Reports vm' → vm.openUpvalues = [])

/-- The states that a session comes to by such moves. -/
def InCarefulSession (host : Host) (vm : VM) : Prop :=
  ∃ policy world start, initVM host policy world = some start ∧
    Relation.ReflTransGen (CarefulMove host) start vm

theorem InCarefulSession.inSession (session : InCarefulSession host vm) : InSession host vm := by
  obtain ⟨policy, world, start, hinit, hmoves⟩ := session
  exact ⟨policy, world, start, hinit, hmoves.lift id fun _ _ hmove => hmove.1⟩

theorem CarefulMove.lists (h : CarefulMove host vm vm') (hlists : vm.ListsOpen) :
    vm'.ListsOpen := by
  obtain ⟨hmove, hcareful⟩ := h
  by_cases hreports : vm.Reports vm'
  · have hempty := hcareful hreports
    have hempty' := hmove.openUpvalues_of_reports hreports hempty
    refine ⟨fun r u' hu' hopen => ?_, by simp [hempty'], by simp [hempty'], by simp [hempty']⟩
    -- it would have been open before, and on the list
    rcases (hmove.upvalues_of_reports hreports).heap r u' hu' with ⟨u, hu, hsame | ⟨hfalse, -⟩⟩ | hnew
    · have hmem := hlists.mem r u hu (hsame ▸ hopen)
      rw [hempty] at hmem
      cases hmem
    · cases hfalse
    · cases hnew.1
  · exact hmove.goes.upvalues.lists hreports hlists

theorem initVM_lists {policy : ℕ → UInt64 → UInt64 → Bool} {world : World}
    (h : initVM host policy world = some vm) : vm.ListsOpen := by
  have hadvances := initVM_advances h
  have hnone : ∀ r u, vm.gc.heap r ≠ some (.upvalue u) := by
    intro r u hu
    rcases hadvances.heap r _ hu with ⟨o, ho, -⟩ | ⟨-, hother⟩
    · cases ho
    · exact hother u rfl
  have hempty : vm.openUpvalues = [] := hadvances.openUpvalues
  exact ⟨fun r u hu => absurd hu (hnone r u), by simp [hempty], by simp [hempty], by simp [hempty]⟩

theorem InCarefulSession.lists (session : InCarefulSession host vm) : vm.ListsOpen := by
  obtain ⟨policy, world, start, hinit, hmoves⟩ := session
  induction hmoves with
  | refl => exact initVM_lists hinit
  | tail _ hmove ih => exact hmove.lists ih

/-- In a session in which no error has been reported with a captured variable on the stack, an error
leaves what it should if none is captured then. It does so exactly if no closure that the globals lead
to has an upvalue that is on the list of open upvalues. -/
theorem errors_recover (session : InCarefulSession host vm) (move : Moves host vm after)
    (reports : vm.Reports after) :
    (vm.openUpvalues = [] → after.Recovers host) ∧
      (after.Recovers host ↔ ∀ upvalue ∈ vm.openUpvalues, ∀ o, ¬ after.GlobalUpvalue upvalue o) := by
  have hlists := session.lists
  have hkeeps := move.upvalues_of_reports reports
  have hbefore : ∀ upvalue o, after.gc.heap upvalue = some (.upvalue o) →
      ∃ u, vm.gc.heap upvalue = some (.upvalue u) ∧ o.location = u.location := by
    intro upvalue o ho
    rcases hkeeps.heap upvalue o ho with ⟨u, hu, hsame | ⟨hfalse, -⟩⟩ | hnew
    · exact ⟨u, hu, hsame⟩
    · cases hfalse
    · cases hnew.1
  have hiff : after.Recovers host ↔
      ∀ upvalue ∈ vm.openUpvalues, ∀ o, ¬ after.GlobalUpvalue upvalue o := by
    constructor
    · intro hrecovers upvalue hmem o hglobal
      have ho := hglobal.upvalue
      obtain ⟨u, hu, hsame⟩ := hbefore upvalue o ho
      exact hlists.isOpen upvalue hmem u hu (hsame ▸ hrecovers.owns upvalue o hglobal)
    · intro hnone
      have howns : after.OwnsUpvalues := by
        intro upvalue o hglobal
        by_contra hopen
        have ho := hglobal.upvalue
        obtain ⟨u, hu, hsame⟩ := hbefore upvalue o ho
        exact hnone upvalue (hlists.mem upvalue u hu (hsame ▸ hopen)) o hglobal
      have hfits : after.gc.Fits := move.goes.fits session.inSession.fits
      refine ⟨howns, fun upvalue o hglobal later hlater => offStack_of_closed ?_⟩
      have ho := hglobal.upvalue
      refine hlater.closed (hfits.lt ho) fun o' ho' => ?_
      cases ho.symm.trans ho'
      exact howns upvalue o hglobal
  exact ⟨fun hempty => hiff.mpr (by simp [hempty]), hiff⟩

/-! ### Two sessions -/

/-- Whether one of the events between two states is a report. -/
def reported (before after : VM) : Bool :=
  (after.trace.take (after.trace.length - before.trace.length)).any fun e =>
    match e with
    | .report _ => true
    | _ => false

theorem Moves.reported_iff (h : Moves host vm vm') : reported vm vm' = true ↔ vm.Reports vm' := by
  obtain ⟨events, htrace, -⟩ := h.goes.trace
  have htake : vm'.trace.take (vm'.trace.length - vm.trace.length) = events := by
    rw [htrace, List.length_append, Nat.add_sub_cancel, List.take_left]
  rw [reported, htake, List.any_eq_true]
  constructor
  · rintro ⟨e, hmem, hreport⟩
    cases e with
    | report message => exact ⟨events, message, htrace, hmem⟩
    | _ => cases hreport
  · rintro ⟨events', message, htrace', hmem⟩
    obtain rfl : events' = events := List.append_cancel_right (htrace'.symm.trans htrace)
    exact ⟨_, hmem, rfl⟩

/-- The first instruction that reports an error, within a number of instructions: the states before
and after it. -/
def firstReport (host : Host) : ℕ → VM → Option (VM × VM)
  | 0, _ => none
  | rounds + 1, vm =>
    match step host vm with
    | (.ok _, vm') => if reported vm vm' then some (vm, vm') else firstReport host rounds vm'
    | _ => none

theorem firstReport_careful {rounds : ℕ} {erring : VM}
    (h : firstReport host rounds vm = some (erring, after)) :
    Relation.ReflTransGen (CarefulMove host) vm erring ∧ Moves host erring after ∧
      erring.Reports after := by
  induction rounds generalizing vm with
  | zero => cases h
  | succ rounds ih =>
    unfold firstReport at h
    split at h
    next vm' hstep =>
      have hmove : Moves host vm vm' := .instruction hstep
      by_cases hreported : reported vm vm' = true
      · rw [if_pos hreported] at h
        cases h
        exact ⟨.refl, hmove, hmove.reported_iff.mp hreported⟩
      · rw [if_neg hreported] at h
        obtain ⟨hmoves, hlast, hreports⟩ := ih h
        have hcareful : CarefulMove host vm vm' :=
          ⟨hmove, fun hreports => absurd (hmove.reported_iff.mpr hreports) hreported⟩
        exact ⟨.head hcareful hmoves, hlast, hreports⟩
    next => cases h

/-- The first report of an error in the first input of a session. -/
def firstError (source : String) : Option (VM × VM) := do
  let compiledUnit ← compiled (← parsed source)
  let start ← initVM plainHost thresholdPolicy {}
  let vm ← entered compiledUnit start
  if reported start vm then none else firstReport plainHost 60 vm

theorem firstError_session {source : String} (h : firstError source = some (vm, after)) :
    InCarefulSession plainHost vm ∧ Moves plainHost vm after ∧ vm.Reports after := by
  obtain ⟨program, -, h⟩ := Option.bind_eq_some_iff.mp h
  obtain ⟨compiledUnit, -, h⟩ := Option.bind_eq_some_iff.mp h
  obtain ⟨start, hinit, h⟩ := Option.bind_eq_some_iff.mp h
  obtain ⟨first, hentered, h⟩ := Option.bind_eq_some_iff.mp h
  have hmove : Moves plainHost start first := .input (initVM_advances hinit).frames hentered
  by_cases hreported : reported start first = true
  · rw [if_pos hreported] at h
    cases h
  · rw [if_neg hreported] at h
    obtain ⟨hmoves, hlast, hreports⟩ := firstReport_careful h
    have hcareful : CarefulMove plainHost start first :=
      ⟨hmove, fun hreports => absurd (hmove.reported_iff.mpr hreports) hreported⟩
    exact ⟨⟨_, _, start, hinit, .head hcareful hmoves⟩, hlast, hreports⟩

/-- An upvalue of a global closure that has a property. -/
def globalUpvalue? (p : ObjUpvalue → Bool) (memory : Memory) : Option (Ref × Ref × ObjUpvalue) :=
  (List.range memory.globals.capacity).findSome? fun i =>
    match memory.globals.entries i with
    | .full _ (.obj closure) =>
      match memory.gc.closure? closure with
      | some c => c.upvalues.findSome? fun upvalue =>
          ((memory.gc.upvalue? upvalue).filter p).map fun o => (closure, upvalue, o)
      | none => none
    | _ => none

theorem globalUpvalue?_eq_some {p : ObjUpvalue → Bool} {memory : Memory} {closure upvalue : Ref}
    {o : ObjUpvalue} (h : globalUpvalue? p memory = some (closure, upvalue, o))
    (hnull : closure ≠ null) : memory.GlobalUpvalue upvalue o ∧ p o = true := by
  obtain ⟨i, hi, h⟩ := List.exists_of_findSome?_eq_some h
  split at h
  next key r hentry =>
    split at h
    next c hclosure =>
      obtain ⟨u, hu, h⟩ := List.exists_of_findSome?_eq_some h
      obtain ⟨o', hfound, heq⟩ := Option.map_eq_some_iff.mp h
      cases heq
      obtain ⟨hupvalue, hp⟩ := Option.filter_eq_some_iff.mp hfound
      exact ⟨⟨closure, c, .root ⟨hnull, key, i, List.mem_range.mp hi, hentry⟩,
        closure?_eq_some hclosure, hu, upvalue?_eq_some hupvalue⟩, hp⟩
    next => cases h
  next => cases h

/-- A variable is captured by a closure in a global and its block comes to its end; then there is an
error. -/
def settledSource : String :=
  "var f = fun(): bool \x7b return false; \x7d; \x7b var x = true; f = fun(): bool \x7b return x; \x7d; \x7d " ++
  "let xs: [bool] = [true]; let i = 5; xs[i];"

theorem errors_recover_settled : ∃ vm after upvalue o, InCarefulSession plainHost vm ∧
    Moves plainHost vm after ∧ vm.Reports after ∧ after.GlobalUpvalue upvalue o ∧
      after.Recovers plainHost := by
  have hrun : (firstError settledSource).any fun run =>
      run.1.openUpvalues.isEmpty &&
        (globalUpvalue? (fun _ => true) run.2.toMemory).any fun found => found.1 ≠ null := by
    decide +kernel
  obtain ⟨⟨vm, after⟩, herror, hrun⟩ := exists_of_any hrun
  obtain ⟨hempty, hfound⟩ := Bool.and_eq_true_iff.mp hrun
  obtain ⟨⟨closure, upvalue, o⟩, hfound, hnull⟩ := exists_of_any hfound
  obtain ⟨session, move, reports⟩ := firstError_session herror
  exact ⟨vm, after, upvalue, o, session, move, reports,
    (globalUpvalue?_eq_some hfound (by simpa using hnull)).1,
    (errors_recover session move reports).1 (List.isEmpty_iff.mp hempty)⟩

/-- The same with the error before the end of the block. -/
def captureSource : String :=
  "var f = fun(): bool \x7b return false; \x7d; \x7b var x = true; f = fun(): bool \x7b return x; \x7d; " ++
  "let xs: [bool] = [true]; let i = 5; xs[i]; \x7d"

/-- An input that calls the global. -/
def callSource : String := "\x7b var y = false; @println(@boolToString(f())); \x7d"

/-- The end of a further input of a session. -/
def furtherInput (source : String) (vm : VM) : Option VM := do
  let compiledUnit ← compiled (← parsed source)
  if vm.frames.isEmpty then
    let (_, later) ← finished (run plainHost 60 (← entered compiledUnit vm))
    return later
  else none

theorem run_later {rounds : ℕ} {result : Option InterpretResult}
    (h : run host rounds vm = (.ok result, vm')) : Later host vm vm' := by
  induction rounds generalizing vm with
  | zero =>
    cases h
    exact .refl
  | succ rounds ih =>
    obtain ⟨result', vm₁, hstep, hrest⟩ := bind_eq_ok h
    cases result' with
    | some result' =>
      cases hrest
      exact .single (.instruction hstep)
    | none => exact .head (.instruction hstep) (ih hrest)

theorem furtherInput_later {source : String} (h : furtherInput source vm = some vm') :
    Later plainHost vm vm' := by
  obtain ⟨program, -, h⟩ := Option.bind_eq_some_iff.mp h
  obtain ⟨compiledUnit, -, h⟩ := Option.bind_eq_some_iff.mp h
  by_cases hframes : vm.frames.isEmpty = true
  · rw [if_pos hframes] at h
    obtain ⟨first, hentered, h⟩ := Option.bind_eq_some_iff.mp h
    obtain ⟨⟨result, later⟩, hfinished, h⟩ := Option.bind_eq_some_iff.mp h
    cases h
    exact .head (.input (List.isEmpty_iff.mp hframes) hentered)
      (run_later (eq_of_finished hfinished))
  · rw [if_neg hframes] at h
    cases h

/-- After the error the closure in the global still refers to the slot that `x` had, and the next
input, which calls it, reads `y` there. -/
theorem error_leaves_open : ∃ vm after later, InSession plainHost vm ∧ Moves plainHost vm after ∧
    vm.Reports after ∧ ¬ after.Recovers plainHost ∧ Later plainHost after later ∧
      later.world.stdout = text "false\n" := by
  have hrun : (firstError captureSource).any fun run =>
      ((globalUpvalue? (fun o => o.location ≠ .closed) run.2.toMemory).any fun found =>
        found.1 ≠ null) &&
      (furtherInput callSource run.2).any fun later => later.world.stdout = text "false\n" := by
    decide +kernel
  obtain ⟨⟨vm, after⟩, herror, hrun⟩ := exists_of_any hrun
  obtain ⟨hfound, hlater⟩ := Bool.and_eq_true_iff.mp hrun
  obtain ⟨⟨closure, upvalue, o⟩, hfound, hnull⟩ := exists_of_any hfound
  obtain ⟨later, hinput, hstdout⟩ := exists_of_any hlater
  obtain ⟨session, move, reports⟩ := firstError_session herror
  obtain ⟨hglobal, hopen⟩ := globalUpvalue?_eq_some hfound (by simpa using hnull)
  refine ⟨vm, after, later, session.inSession, move, reports, fun hrecovers => ?_,
    furtherInput_later hinput, of_decide_eq_true hstdout⟩
  exact (of_decide_eq_true hopen) (hrecovers.owns upvalue o hglobal)

end KirbyLang.Vm
