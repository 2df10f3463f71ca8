import KirbyLang.CodeShape
import KirbyLang.Compiler
import KirbyLang.Lib.StickyErrors

/-!
# The compiler keeps its code well shaped

The state of the compiler between two instructions: the code emitted so far is well shaped, but for
the jumps that are still to be patched, and the functions that are finished are well shaped as a
whole. Every part of the compiler keeps this, unless it reports an error.

* `Compiler.Ok`: the states; `Compiler.Grows`: what happens to a state;
* `KeepsShape`: a program that goes from such a state to such a state;
* one lemma for each way of emitting code, and for variables, scopes and functions.
-/

namespace KirbyLang

open Boundaries StickyErrors

/-! ### States -/

/-- The functions of the unit that are not being compiled any more. -/
def Compiler.Finished (s : Compiler) (i : ℕ) : Prop :=
  i < s.compilingUnit.functions.length ∧ ∀ c ∈ s.current :: s.enclosing, c.fnIndex ≠ i

def Compiler.setting (s : Compiler) : Setting where
  compiledUnit := s.compilingUnit
  finished := s.Finished
  upvalueCount := s.current.upvalues.length

/-- Jumps that are to be patched: those from before, and those that have been emitted since. -/
structure Pending where
  before : List ℕ := []
  new : List ℕ := []

def Pending.all (pending : Pending) : List ℕ := pending.new ++ pending.before

/-- One more jump has been emitted. -/
def Pending.add (pending : Pending) (operand : ℕ) : Pending :=
  { pending with new := operand :: pending.new }

/-- All jumps are from before. -/
def Pending.settle (pending : Pending) : Pending := { before := pending.all }

/-- The operands of jumps that are still to be patched: those that are pending, and the `break`s of
the loops around, without the innermost `closing`. -/
def Compiler.IsOpen (s : Compiler) (closing : ℕ) (pending : Pending) (operand : ℕ) : Prop :=
  operand ∈ pending.all ∨ ∃ loop ∈ s.currentLoop.drop closing, operand ∈ loop.breakJumps

/-- A return stands right before a place. -/
def ReturnsBefore (compiledUnit : CompiledUnit) (fn : CompiledFn) (offset : ℕ) : Prop :=
  ∃ place, IsBoundary compiledUnit fn place ∧ OpCode.ofByte? (codeAt fn place) = some .return_ ∧
    place + 1 = offset

/-- A finished function. -/
structure FunctionOk (compiledUnit : CompiledUnit) (finished : ℕ → Prop) (fn : CompiledFn) :
    Prop where
  shaped : Shaped ⟨compiledUnit, finished, fn.upvalueCount.toNat⟩ (fun _ => False) fn
  returns : ReturnsBefore compiledUnit fn fn.code.length
  arity : 0 ≤ fn.arity ∧ fn.arity ≤ 255
  upvalueCount : 0 ≤ fn.upvalueCount ∧ fn.upvalueCount ≤ 256

/-- The strings of a set are inside its arena. -/
def StringSet.Inside (set : StringSet) : Prop :=
  ∀ entry ∈ set.entries, entry.1 + entry.2 ≤ set.arena.length

/-- A variable that is captured from the function around is captured there. -/
def UpvaluesOk : List FnCompiler → Prop
  | [] => True
  | [c] => c.upvalues = []
  | c :: d :: rest => (c.upvalues.length ≤ 256 ∧
      ∀ u ∈ c.upvalues, u.isLocal = false → u.index.toNat < d.upvalues.length) ∧
      UpvaluesOk (d :: rest)

/-- A state of the compiler between two instructions. -/
structure Compiler.Ok (s : Compiler) (closing : ℕ) (pending : Pending) : Prop where
  code : Shaped s.setting (s.IsOpen closing pending) s.current.fn
  counted : IsBoundary s.compilingUnit s.current.fn s.current.bytesCounted
  returns : s.current.lastOpIsReturn = true →
    ReturnsBefore s.compilingUnit s.current.fn s.current.bytesCounted
  loops : ∀ loop ∈ s.currentLoop.drop closing,
    IsBoundary s.compilingUnit s.current.fn loop.continueTarget
  arity : 0 ≤ s.current.fn.arity ∧ s.current.fn.arity ≤ 255
  upvalues : UpvaluesOk (s.current :: s.enclosing)
  indices : ((s.current :: s.enclosing).map FnCompiler.fnIndex).Nodup
  known : ∀ i ∈ (s.current :: s.enclosing).map FnCompiler.fnIndex,
    i < s.compilingUnit.functions.length
  finished : ∀ i, s.Finished i →
    FunctionOk s.compilingUnit s.Finished (cuGetFnByIndex s.compilingUnit i)
  strings : s.compilingUnit.strings.Inside

/-- What may happen to a compiler while a function inside of its own is compiled. -/
def FnCompiler.Captures (c c' : FnCompiler) : Prop :=
  c.upvalues <+: c'.upvalues ∧ c' = { c with locals := c'.locals, upvalues := c'.upvalues }

/-- How many more loops and scopes are open than before. -/
structure Nesting where
  loops : ℕ := 0
  scopes : ℕ := 0

/-- What has happened since a state with fewer open loops and scopes: code, constants, upvalues,
strings and functions have only been added. -/
structure Compiler.Grows (s₀ : Compiler) (nesting : Nesting) (s : Compiler) : Prop where
  functions : s₀.compilingUnit.functions <+: s.compilingUnit.functions
  arena : s₀.compilingUnit.strings.arena <+: s.compilingUnit.strings.arena
  outer : List.Forall₂ FnCompiler.Captures s₀.enclosing s.enclosing
  fnIndex : s.current.fnIndex = s₀.current.fnIndex
  enclosingLoop : s.current.enclosingLoop = s₀.current.enclosingLoop
  code : s₀.current.fn.code <+: s.current.fn.code
  constants : s₀.current.fn.constants <+: s.current.fn.constants
  upvalues : s₀.current.upvalues <+: s.current.upvalues
  loopCount : s.currentLoop.length = s₀.currentLoop.length + nesting.loops
  scopeDepth : s.current.scopeDepth = s₀.current.scopeDepth + nesting.scopes
  newJumps : ∀ loop ∈ s.currentLoop.take nesting.loops, ∀ operand ∈ loop.breakJumps,
    s₀.current.fn.code.length ≤ operand

/-- A state that has grown out of another. -/
structure Compiler.Good (s₀ : Compiler) (closing : ℕ) (pending : Pending) (nesting : Nesting)
    (s : Compiler) : Prop where
  ok : s.Ok closing pending
  grows : s₀.Grows nesting s
  fresh : ∀ operand ∈ pending.new, s₀.current.fn.code.length ≤ operand

variable {s s' s₀ : Compiler} {closing : ℕ} {pending : Pending} {nesting : Nesting}

theorem FnCompiler.Captures.refl (c : FnCompiler) : c.Captures c := ⟨List.prefix_refl _, rfl⟩

theorem FnCompiler.Captures.trans {c c' c'' : FnCompiler} (h : c.Captures c')
    (h' : c'.Captures c'') : c.Captures c'' := by
  refine ⟨h.1.trans h'.1, ?_⟩
  rw [h'.2, h.2]

theorem FnCompiler.Captures.fnIndex {c c' : FnCompiler} (h : c.Captures c') :
    c'.fnIndex = c.fnIndex := by rw [h.2]

theorem captures_refl (cs : List FnCompiler) : List.Forall₂ FnCompiler.Captures cs cs :=
  List.forall₂_same.mpr fun c _ => .refl c

theorem captures_trans {cs cs' cs'' : List FnCompiler}
    (h : List.Forall₂ FnCompiler.Captures cs cs') (h' : List.Forall₂ FnCompiler.Captures cs' cs'') :
    List.Forall₂ FnCompiler.Captures cs cs'' := by
  induction h generalizing cs'' with
  | nil => exact h'
  | cons hc _ ih =>
    cases h' with
    | cons hc' hrest' => exact .cons (hc.trans hc') (ih hrest')

theorem captures_indices {cs cs' : List FnCompiler} (h : List.Forall₂ FnCompiler.Captures cs cs') :
    cs'.map FnCompiler.fnIndex = cs.map FnCompiler.fnIndex := by
  induction h with
  | nil => rfl
  | cons hc _ ih => rw [List.map_cons, List.map_cons, hc.fnIndex, ih]

theorem Compiler.Grows.refl (s : Compiler) : s.Grows {} s :=
  ⟨List.prefix_refl _, List.prefix_refl _, captures_refl _, rfl, rfl, List.prefix_refl _,
    List.prefix_refl _, List.prefix_refl _, rfl, rfl, by simp⟩

/-- What follows may start anew. -/
theorem Compiler.Ok.good (h : s.Ok closing pending) : s.Good closing pending.settle {} s :=
  ⟨⟨h.code, h.counted, h.returns, h.loops, h.arity, h.upvalues, h.indices, h.known, h.finished,
    h.strings⟩, .refl s, nofun⟩

/-- The indices of the functions that are being compiled stay the same. -/
theorem Compiler.Grows.indices (h : s₀.Grows nesting s) :
    (s.current :: s.enclosing).map FnCompiler.fnIndex =
      (s₀.current :: s₀.enclosing).map FnCompiler.fnIndex := by
  rw [List.map_cons, List.map_cons, h.fnIndex, captures_indices h.outer]

theorem finished_iff {i : ℕ} : s.Finished i ↔ i < s.compilingUnit.functions.length ∧
    i ∉ (s.current :: s.enclosing).map FnCompiler.fnIndex := by
  simp [Compiler.Finished, List.mem_map, eq_comm]

theorem Compiler.Grows.finished (h : s₀.Grows nesting s) {i : ℕ} (hi : s₀.Finished i) :
    s.Finished i := by
  rw [finished_iff] at hi ⊢
  rw [h.indices]
  exact ⟨Nat.lt_of_lt_of_le hi.1 h.functions.length_le, hi.2⟩

theorem cuGetFnByIndex_prefixed {compiledUnit compiledUnit' : CompiledUnit}
    (h : compiledUnit.functions <+: compiledUnit'.functions) {i : ℕ}
    (hi : i < compiledUnit.functions.length) :
    cuGetFnByIndex compiledUnit' i = cuGetFnByIndex compiledUnit i := by
  obtain ⟨rest, hrest⟩ := h
  rw [cuGetFnByIndex, cuGetFnByIndex, ← hrest, List.getD_append _ _ _ _ hi]

/-- What the code relies on is there later too. -/
theorem Compiler.Grows.before (h : s₀.Grows nesting s) : s₀.setting.Before s.setting :=
  ⟨fun _ hi => h.finished hi,
    fun _ hi => by
      show (cuGetFnByIndex s.compilingUnit _).upvalueCount = _
      rw [cuGetFnByIndex_prefixed h.functions hi.1]
      rfl,
    h.arena.length_le, h.upvalues.length_le⟩

/-! ### Changes between states -/

/-- Code, constants, strings and upvalues are added, or something is changed that does not matter
here. -/
structure Compiler.Edits (s s' : Compiler) : Prop where
  functions : s'.compilingUnit.functions = s.compilingUnit.functions
  arena : s.compilingUnit.strings.arena <+: s'.compilingUnit.strings.arena
  strings : s.compilingUnit.strings.Inside → s'.compilingUnit.strings.Inside
  enclosing : List.Forall₂ FnCompiler.Captures s.enclosing s'.enclosing
  currentLoop : s'.currentLoop = s.currentLoop
  upvalues : s.current.upvalues <+: s'.current.upvalues
  chain : UpvaluesOk (s.current :: s.enclosing) → UpvaluesOk (s'.current :: s'.enclosing)
  fnIndex : s'.current.fnIndex = s.current.fnIndex
  enclosingLoop : s'.current.enclosingLoop = s.current.enclosingLoop
  constants : s.current.fn.constants <+: s'.current.fn.constants
  arity : 0 ≤ s.current.fn.arity ∧ s.current.fn.arity ≤ 255 →
    0 ≤ s'.current.fn.arity ∧ s'.current.fn.arity ≤ 255

theorem upvaluesOk_congr {c c' : FnCompiler} {rest : List FnCompiler}
    (h : c'.upvalues = c.upvalues) (hok : UpvaluesOk (c :: rest)) : UpvaluesOk (c' :: rest) := by
  cases rest with
  | nil => exact h.trans hok
  | cons d rest =>
    refine ⟨?_, hok.2⟩
    rw [h]
    exact hok.1

/-- A change inside the function that is being compiled. -/
theorem Compiler.Edits.inside (hfunctions : s'.compilingUnit.functions = s.compilingUnit.functions)
    (harena : s.compilingUnit.strings.arena <+: s'.compilingUnit.strings.arena)
    (hstrings : s.compilingUnit.strings.Inside → s'.compilingUnit.strings.Inside)
    (henclosing : s'.enclosing = s.enclosing) (hloops : s'.currentLoop = s.currentLoop)
    (hupvalues : s'.current.upvalues = s.current.upvalues)
    (hindex : s'.current.fnIndex = s.current.fnIndex)
    (hloop : s'.current.enclosingLoop = s.current.enclosingLoop)
    (hconstants : s.current.fn.constants <+: s'.current.fn.constants)
    (harity : 0 ≤ s.current.fn.arity ∧ s.current.fn.arity ≤ 255 →
      0 ≤ s'.current.fn.arity ∧ s'.current.fn.arity ≤ 255) : s.Edits s' :=
  ⟨hfunctions, harena, hstrings, henclosing ▸ captures_refl _, hloops, by rw [hupvalues],
    fun hok => henclosing ▸ upvaluesOk_congr hupvalues hok, hindex, hloop, hconstants, harity⟩

/-- A change of the code alone. -/
theorem Compiler.Edits.ofCode (s : Compiler) {fn : CompiledFn}
    (hconstants : s.current.fn.constants <+: fn.constants)
    (harity : 0 ≤ s.current.fn.arity ∧ s.current.fn.arity ≤ 255 → 0 ≤ fn.arity ∧ fn.arity ≤ 255) :
    s.Edits { s with current := { s.current with fn } } :=
  .inside rfl (List.prefix_refl _) id rfl rfl rfl rfl rfl hconstants harity

theorem FunctionOk.mono {compiledUnit compiledUnit' : CompiledUnit} {finished finished' : ℕ → Prop}
    {fn : CompiledFn} (h : FunctionOk compiledUnit finished fn)
    (hbefore : Setting.Before ⟨compiledUnit, finished, fn.upvalueCount.toNat⟩
      ⟨compiledUnit', finished', fn.upvalueCount.toNat⟩) :
    FunctionOk compiledUnit' finished' fn := by
  have hcarries := h.shaped.carries_mono hbefore (List.prefix_refl _) rfl
  refine ⟨h.shaped.mono hbefore (List.prefix_refl _) rfl
    (fun c hc => hbefore.holds (h.shaped.pool c hc)) fun hname =>
      hbefore.slice (h.shaped.name hname), ?_, h.arity, h.upvalueCount⟩
  obtain ⟨place, hplace, hop, hend⟩ := h.returns
  exact ⟨place, hcarries.boundary place hplace, hop, hend⟩

theorem ReturnsBefore.carry {compiledUnit compiledUnit' : CompiledUnit} {fn fn' : CompiledFn}
    {offset : ℕ} (h : ReturnsBefore compiledUnit fn offset)
    (hcarries : Carries compiledUnit fn compiledUnit' fn') (hle : offset ≤ fn.code.length) :
    ReturnsBefore compiledUnit' fn' offset := by
  obtain ⟨place, hplace, hop, rfl⟩ := h
  exact ⟨place, hcarries.boundary place hplace, by rw [hcarries.opcode place hplace hle, hop], rfl⟩

namespace Compiler.Edits

variable (h : s.Edits s')

include h

theorem indices : (s'.current :: s'.enclosing).map FnCompiler.fnIndex =
    (s.current :: s.enclosing).map FnCompiler.fnIndex := by
  rw [List.map_cons, List.map_cons, h.fnIndex, captures_indices h.enclosing]

theorem finished {i : ℕ} : s'.Finished i ↔ s.Finished i := by
  rw [finished_iff, finished_iff, h.functions, h.indices]

theorem before : s.setting.Before s'.setting := by
  refine ⟨fun _ hi => h.finished.mpr hi, fun i _ => ?_, h.arena.length_le, h.upvalues.length_le⟩
  show (cuGetFnByIndex s'.compilingUnit i).upvalueCount = _
  rw [cuGetFnByIndex, h.functions]
  rfl

theorem isOpen {operand : ℕ} :
    s'.IsOpen closing pending operand ↔ s.IsOpen closing pending operand := by
  rw [Compiler.IsOpen, Compiler.IsOpen, h.currentLoop]

theorem ok {pending' : Pending} (hok : s.Ok closing pending)
    (hcarries : Carries s.compilingUnit s.current.fn s'.compilingUnit s'.current.fn)
    (hcode : Shaped s'.setting (s'.IsOpen closing pending') s'.current.fn)
    (hcounted : IsBoundary s'.compilingUnit s'.current.fn s'.current.bytesCounted)
    (hreturns : s'.current.lastOpIsReturn = true →
      ReturnsBefore s'.compilingUnit s'.current.fn s'.current.bytesCounted) :
    s'.Ok closing pending' := by
  refine ⟨hcode, hcounted, hreturns, fun loop hloop => ?_, ?_, h.chain hok.upvalues, ?_,
    fun i hi => ?_, fun i hi => ?_, h.strings hok.strings⟩
  · exact hcarries.boundary _ (hok.loops loop (h.currentLoop ▸ hloop))
  · exact h.arity hok.arity
  · rw [h.indices]
    exact hok.indices
  · rw [h.functions]
    exact hok.known i (h.indices ▸ hi)
  · rw [cuGetFnByIndex, h.functions]
    have hbefore := h.before
    exact (hok.finished i (h.finished.mp hi)).mono
      ⟨hbefore.finished, hbefore.captured, hbefore.arena, Nat.le_refl _⟩

theorem grows {nesting' : Nesting} (hgrows : s₀.Grows nesting s)
    (hcode : s₀.current.fn.code <+: s'.current.fn.code) (hloops : nesting'.loops = nesting.loops)
    (hdepth : s'.current.scopeDepth = s₀.current.scopeDepth + nesting'.scopes) :
    s₀.Grows nesting' s' := by
  refine ⟨?_, hgrows.arena.trans h.arena, captures_trans hgrows.outer h.enclosing,
    h.fnIndex.trans hgrows.fnIndex, h.enclosingLoop.trans hgrows.enclosingLoop, hcode,
    hgrows.constants.trans h.constants, hgrows.upvalues.trans h.upvalues, ?_, hdepth, ?_⟩
  · rw [h.functions]
    exact hgrows.functions
  · rw [h.currentLoop, hloops]
    exact hgrows.loopCount
  · rw [h.currentLoop, hloops]
    exact hgrows.newJumps

/-- The code is changed, and what has been counted of it is not. -/
theorem good {pending' : Pending} (hgood : s₀.Good closing pending nesting s)
    (hcarries : Carries s.compilingUnit s.current.fn s'.compilingUnit s'.current.fn)
    (hcode : Shaped s'.setting (s'.IsOpen closing pending') s'.current.fn)
    (hkept : s₀.current.fn.code <+: s'.current.fn.code)
    (hcount : s'.current.toStackCount = s.current.toStackCount)
    (hdepth : s'.current.scopeDepth = s.current.scopeDepth)
    (hfresh : ∀ operand ∈ pending'.new, s₀.current.fn.code.length ≤ operand) :
    s₀.Good closing pending' nesting s' := by
  have hok := hgood.ok
  refine ⟨h.ok hok hcarries hcode ?_ fun hreturn => ?_,
    h.grows hgood.grows hkept rfl (hdepth.trans hgood.grows.scopeDepth), hfresh⟩
  · rw [hcount]
    exact hcarries.boundary _ hok.counted
  · rw [hcount] at hreturn ⊢
    exact (hok.returns hreturn).carry hcarries hok.counted.le

theorem shaped_same (hok : s.Ok closing pending) (hfn : s'.current.fn = s.current.fn) :
    Carries s.compilingUnit s.current.fn s'.compilingUnit s'.current.fn ∧
      Shaped s'.setting (s'.IsOpen closing pending) s'.current.fn := by
  have hcode := hok.code
  have hsame : s'.current.fn.code = s.current.fn.code := congrArg CompiledFn.code hfn
  have hopen : s'.IsOpen closing pending = s.IsOpen closing pending :=
    funext fun operand => propext h.isOpen
  refine ⟨hcode.carries_mono h.before h.constants hsame, ?_⟩
  rw [hopen]
  exact hcode.mono h.before h.constants hsame
    (fun c hc => h.before.holds (hcode.pool c (hfn ▸ hc)))
    fun hname => h.before.slice (hfn ▸ hcode.name (hfn ▸ hname))

/-- A change to what does not matter. -/
theorem same (hgood : s₀.Good closing pending nesting s) (hfn : s'.current.fn = s.current.fn)
    (hcount : s'.current.toStackCount = s.current.toStackCount)
    (hdepth : s'.current.scopeDepth = s.current.scopeDepth) :
    s₀.Good closing pending nesting s' := by
  obtain ⟨hcarries, hcode⟩ := h.shaped_same hgood.ok hfn
  exact h.good hgood hcarries hcode (hfn ▸ hgood.grows.code) hcount hdepth hgood.fresh

end Compiler.Edits

/-! ### Programs -/

abbrev Compiler.Erred (s : Compiler) : Prop := s.hadError = true

variable {α β : Type} {p : CompileM α} {f : α → CompileM β}

/-- The program goes from one state between two instructions to another one. -/
def KeepsShape (closing : ℕ) (p : CompileM α) : Prop :=
  ∀ (s₀ : Compiler) (pending : Pending) (nesting : Nesting),
    Triple Compiler.Erred (s₀.Good closing pending nesting) p fun _ =>
      s₀.Good closing pending nesting

theorem KeepsShape.bind (hp : KeepsShape closing p) (hf : ∀ a, KeepsShape closing (f a)) :
    KeepsShape closing (p >>= f) :=
  fun s₀ pending nesting => (hp s₀ pending nesting).bind fun a => hf a s₀ pending nesting

theorem keepsShape_pure (a : α) : KeepsShape closing (pure a) :=
  fun _ _ _ => triple_pure fun _ h => h

/-- The state is read, and what is read of it does not matter. -/
theorem keepsShape_read {g : Compiler → CompileM β} (h : ∀ s, KeepsShape closing (g s)) :
    KeepsShape closing (get >>= g) :=
  fun s₀ pending nesting => triple_read fun s => h s s₀ pending nesting

theorem KeepsShape.ite {c : Prop} [Decidable c] {q : CompileM α} (hp : c → KeepsShape closing p)
    (hq : ¬ c → KeepsShape closing q) : KeepsShape closing (if c then p else q) :=
  fun s₀ pending nesting =>
    .ite (fun hc => hp hc s₀ pending nesting) fun hc => hq hc s₀ pending nesting

theorem keepsShape_forM {xs : List β} {g : β → CompileM Unit}
    (h : ∀ x ∈ xs, KeepsShape closing (g x)) : KeepsShape closing (xs.forM g) :=
  fun s₀ pending nesting => triple_forM fun x hx => h x hx s₀ pending nesting

/-- What is there in a state is there in a later one. -/
structure Compiler.Stays (s s' : Compiler) : Prop where
  boundary : ∀ place, IsBoundary s.compilingUnit s.current.fn place →
    IsBoundary s'.compilingUnit s'.current.fn place
  constants : s.current.fn.constants <+: s'.current.fn.constants
  before : s.setting.Before s'.setting
  scopeDepth : s'.current.scopeDepth = s.current.scopeDepth

theorem Compiler.Grows.stays (hok : s.Ok closing pending) (h : s.Grows {} s') : s.Stays s' :=
  ⟨(hok.code.carries h.before h.constants (keepsLengths_prefixed h.code)
    h.code.length_le).boundary, h.constants, h.before, h.scopeDepth⟩

/-- A property of states that stays true while a part of the program is compiled. -/
def Stable (F : Compiler → Prop) : Prop := ∀ s s', s.Stays s' → F s → F s'

theorem carrying {change : α → Pending → Pending} {needed : Compiler → Prop}
    (hp : ∀ (s₀ : Compiler) pending nesting,
      Triple Compiler.Erred (fun s => s₀.Good closing pending nesting s ∧ needed s) p fun a =>
        s₀.Good closing (change a pending) nesting)
    {F : Compiler → Prop} (hF : Stable F) (s₀ : Compiler) (pending : Pending) (nesting : Nesting) :
    Triple Compiler.Erred (fun s => s₀.Good closing pending nesting s ∧ needed s ∧ F s) p
      fun a s => s₀.Good closing (change a pending) nesting s ∧ F s := by
  intro s
  refine ⟨(hp s₀ pending nesting s).1, fun ⟨hgood, hneeded, hfact⟩ => ?_⟩
  rcases (hp s₀ pending nesting s).2 ⟨hgood, hneeded⟩ with herr | hgood'
  · exact .inl herr
  · refine ((hp s pending.settle {} s).2 ⟨hgood.ok.good, hneeded⟩).imp_right fun hsince =>
      ⟨hgood', ?_⟩
    exact hF s _ (hsince.grows.stays hgood.ok) hfact

theorem KeepsShape.carrying (hp : KeepsShape closing p) {F : Compiler → Prop} (hF : Stable F)
    (s₀ : Compiler) (pending : Pending) (nesting : Nesting) :
    Triple Compiler.Erred (fun s => s₀.Good closing pending nesting s ∧ F s) p fun _ s =>
      s₀.Good closing pending nesting s ∧ F s :=
  (@KirbyLang.carrying closing α p (fun _ pending => pending) (fun _ => True)
    (fun s₀ pending nesting => (hp s₀ pending nesting).strengthen fun _ h => h.1) F hF s₀ pending
    nesting).strengthen fun _ h => ⟨h.1, trivial, h.2⟩

/-- All of a state that the law is about. -/
def Compiler.shape (s : Compiler) :=
  (s.errors, s.compilingUnit, s.enclosing, s.currentLoop, s.current.fn, s.current.upvalues,
    s.current.fnIndex, s.current.enclosingLoop, s.current.scopeDepth, s.current.toStackCount)

theorem Compiler.Edits.of_shape (h : s'.shape = s.shape) : s.Edits s' := by
  simp only [Compiler.shape, Prod.mk.injEq] at h
  obtain ⟨-, hunit, henclosing, hloops, hfn, hupvalues, hindex, hloop, -⟩ := h
  exact .inside (by rw [hunit]) (by rw [hunit]) (fun hin => hunit ▸ hin) henclosing hloops hupvalues
    hindex hloop (by rw [hfn]) (fun harity => hfn ▸ harity)

theorem Compiler.Good.of_shape (h : s₀.Good closing pending nesting s)
    (hshape : s'.shape = s.shape) : s₀.Good closing pending nesting s' := by
  have hedits := Compiler.Edits.of_shape hshape
  simp only [Compiler.shape, Prod.mk.injEq] at hshape
  obtain ⟨-, -, -, -, hfn, -, -, -, hdepth, hcount⟩ := hshape
  exact hedits.same h hfn hcount hdepth

/-- A change to what does not matter. -/
theorem keepsShape_modify {g : Compiler → Compiler} (h : ∀ s, (g s).shape = s.shape) :
    KeepsShape closing (modify g) := by
  intro s₀ pending nesting
  refine triple_modify (fun s hs => ?_) fun s hs => hs.of_shape (h s)
  have herrors : (g s).errors = s.errors := congrArg Prod.fst (h s)
  rw [Compiler.Erred, Compiler.hadError, herrors]
  exact hs

/-! #### Errors -/

theorem erred_compilerErrorAt (line : ℤ) (place : ErrorPlace) (message : String) (s : Compiler) :
    ((compilerErrorAt line place message).run s).2.Erred := by
  show (!(s.errors ++ _).isEmpty) = true
  simp

theorem triple_compilerErrorAt {pre : Compiler → Prop} {post : Unit → Compiler → Prop} (line : ℤ)
    (place : ErrorPlace) (message : String) :
    Triple Compiler.Erred pre (compilerErrorAt line place message) post :=
  triple_error (erred_compilerErrorAt line place message)

theorem triple_compilerErrorAtToken {pre : Compiler → Prop} {post : Unit → Compiler → Prop}
    (token : Token) (message : String) :
    Triple Compiler.Erred pre (compilerErrorAtToken token message) post :=
  triple_compilerErrorAt _ _ _

theorem triple_compilerError {pre : Compiler → Prop} {post : Unit → Compiler → Prop}
    (message : String) : Triple Compiler.Erred pre (compilerError message) post :=
  triple_error fun s => erred_compilerErrorAt s.currentLine .line message s

theorem keepsShape_compilerErrorAtNode (line : ℤ) (message : String) :
    KeepsShape closing (compilerErrorAtNode line message) :=
  fun _ _ _ => triple_compilerErrorAt _ _ _

theorem keepsShape_compilerErrorAtToken (token : Token) (message : String) :
    KeepsShape closing (compilerErrorAtToken token message) :=
  fun _ _ _ => triple_compilerErrorAtToken _ _

theorem keepsShape_checkStackHeight (ok : Bool) (line : ℤ) :
    KeepsShape closing (checkStackHeight ok line) :=
  keepsShape_read fun _ =>
    .ite (fun _ _ _ _ => triple_compilerErrorAt _ _ _) fun _ => keepsShape_pure ()

theorem keepsShape_setLine (line : ℤ) : KeepsShape closing (setLine line) :=
  keepsShape_modify fun _ => rfl

/-! #### Counting -/

def Compiler.withCount (s : Compiler) (count : StackCount) : Compiler :=
  { s with current := { s.current with toStackCount := count } }

theorem Compiler.Good.withCount {count : StackCount} (h : s₀.Good closing pending nesting s)
    (hcounted : IsBoundary s.compilingUnit s.current.fn count.bytesCounted)
    (hreturns : count.lastOpIsReturn = true →
      ReturnsBefore s.compilingUnit s.current.fn count.bytesCounted) :
    s₀.Good closing pending nesting (s.withCount count) := by
  have hedits : s.Edits (s.withCount count) :=
    .inside rfl (List.prefix_refl _) id rfl rfl rfl rfl rfl (List.prefix_refl _) id
  obtain ⟨hcarries, hcode⟩ := hedits.shaped_same h.ok rfl
  exact ⟨hedits.ok h.ok hcarries hcode hcounted hreturns,
    hedits.grows h.grows h.grows.code rfl h.grows.scopeDepth, h.fresh⟩

/-- One instruction is counted: the count goes on to the next boundary. -/
theorem countInstruction_counts {a : Setting} {isOpen : ℕ → Prop} {op : OpCode} {c : FnCompiler}
    (hshaped : Shaped a isOpen c.fn) (hcounted : IsBoundary a.compiledUnit c.fn c.bytesCounted)
    (hlt : c.bytesCounted < c.fn.code.length)
    (hop : OpCode.ofByte? (codeAt c.fn c.bytesCounted) = some op) :
    c.bytesCounted < (countInstruction a.compiledUnit op c).bytesCounted ∧
      IsBoundary a.compiledUnit c.fn (countInstruction a.compiledUnit op c).bytesCounted ∧
      ((countInstruction a.compiledUnit op c).lastOpIsReturn = true →
        ReturnsBefore a.compiledUnit c.fn (countInstruction a.compiledUnit op c).bytesCounted) := by
  obtain ⟨op', hop', -, hnext⟩ := hshaped.item hcounted hlt
  obtain rfl : op = op' := Option.some.inj (hop.symm.trans hop')
  refine ⟨Nat.lt_add_of_pos_right instructionLength_pos, hnext, fun hreturn => ?_⟩
  obtain rfl : op = .return_ := beq_iff_eq.mp hreturn
  exact ⟨c.bytesCounted, hcounted, hop, rfl⟩

theorem countEmittedCodeLoop_run {a : Setting} {isOpen : ℕ → Prop} (fuel : ℕ) {s : Compiler}
    (hunit : s.compilingUnit = a.compiledUnit) (hshaped : Shaped a isOpen s.current.fn)
    (hcounted : IsBoundary a.compiledUnit s.current.fn s.current.bytesCounted)
    (hreturns : s.current.lastOpIsReturn = true →
      ReturnsBefore a.compiledUnit s.current.fn s.current.bytesCounted) :
    ∃ count, (countEmittedCodeLoop fuel).run s = ((), s.withCount count) ∧
      IsBoundary a.compiledUnit s.current.fn count.bytesCounted ∧
      (count.lastOpIsReturn = true →
        ReturnsBefore a.compiledUnit s.current.fn count.bytesCounted) ∧
      (s.current.fn.code.length ≤ s.current.bytesCounted + fuel →
        count.bytesCounted = s.current.fn.code.length) := by
  induction fuel generalizing s with
  | zero =>
    exact ⟨s.current.toStackCount, rfl, hcounted, hreturns,
      fun hle => Nat.le_antisymm hcounted.le hle⟩
  | succ fuel ih =>
    by_cases hlt : s.current.bytesCounted < s.current.fn.code.length
    · obtain ⟨op, hop, -, -⟩ := hshaped.item hcounted hlt
      obtain ⟨hless, hnext, hlast⟩ := countInstruction_counts hshaped hcounted hlt hop
      have hrun : (countEmittedCodeLoop (fuel + 1)).run s = (countEmittedCodeLoop fuel).run
          (s.withCount (countInstruction a.compiledUnit op s.current).toStackCount) := by
        show (if s.current.bytesCounted < s.current.fn.code.length then _ else _ :
          CompileM Unit).run s = _
        rw [if_pos hlt]
        simp only [hop, ← hunit]
        rfl
      obtain ⟨count, hcount, hboundary, hreturn, hend⟩ :=
        @ih (s.withCount (countInstruction a.compiledUnit op s.current).toStackCount) hunit hshaped
          hnext hlast
      refine ⟨count, hrun.trans hcount, hboundary, hreturn, fun hle => hend ?_⟩
      show s.current.fn.code.length ≤
        (countInstruction a.compiledUnit op s.current).bytesCounted + fuel
      omega
    · have hrun : (countEmittedCodeLoop (fuel + 1)).run s = ((), s) := by
        show (if s.current.bytesCounted < s.current.fn.code.length then _ else _ :
          CompileM Unit).run s = _
        rw [if_neg hlt]
        rfl
      exact ⟨s.current.toStackCount, hrun, hcounted, hreturns,
        fun _ => Nat.le_antisymm hcounted.le (Nat.le_of_not_lt hlt)⟩

theorem sticky_countEmittedCodeLoop (fuel : ℕ) :
    Triple Compiler.Erred (fun _ => False) (countEmittedCodeLoop fuel) fun _ _ => False := by
  induction fuel with
  | zero => exact triple_pure fun _ h => h
  | succ fuel ih =>
    refine triple_read fun s => .ite (fun _ => ?_) fun _ => triple_pure fun _ h => h
    split
    · have hskip : Triple Compiler.Erred (fun _ => False) (modifyCurrent fun c =>
          { c with bytesCounted := c.fn.code.length }) fun _ _ => False :=
        triple_modify (fun _ h => h) fun _ h => h
      exact .ite (fun _ => (triple_compilerErrorAt _ _ _).bind fun _ => hskip) fun _ => hskip
    · exact Triple.bind (triple_modify (fun _ h => h) fun _ h => h) fun _ => ih

/-- All code is counted. -/
def Compiler.Counted (s : Compiler) : Prop := s.current.bytesCounted = s.current.fn.code.length

theorem countEmittedCode_run (h : s.Ok closing pending) :
    ∃ count, countEmittedCode.run s = ((), s.withCount count) ∧
      count.bytesCounted = s.current.fn.code.length ∧
      (count.lastOpIsReturn = true →
        ReturnsBefore s.compilingUnit s.current.fn s.current.fn.code.length) := by
  obtain ⟨count, hrun, -, hreturns, hend⟩ := countEmittedCodeLoop_run
    (s.current.fn.code.length - s.current.bytesCounted) rfl h.code h.counted h.returns
  have hcounted := hend (by omega)
  exact ⟨count, hrun, hcounted, fun hreturn => hcounted ▸ hreturns hreturn⟩

theorem triple_countEmittedCode (s₀ : Compiler) (closing : ℕ) (pending : Pending)
    (nesting : Nesting) :
    Triple Compiler.Erred (s₀.Good closing pending nesting) countEmittedCode fun _ s =>
      s₀.Good closing pending nesting s ∧ s.Counted := by
  intro s
  refine ⟨(sticky_countEmittedCodeLoop _ s).1, fun h => .inr ?_⟩
  obtain ⟨count, hrun, hcounted, hreturns⟩ := countEmittedCode_run h.ok
  rw [hrun]
  exact ⟨h.withCount (hcounted ▸ h.ok.code.whole) fun hreturn => hcounted ▸ hreturns hreturn,
    hcounted⟩

theorem keepsShape_countEmittedCode : KeepsShape closing countEmittedCode :=
  fun s₀ pending nesting =>
    (triple_countEmittedCode s₀ closing pending nesting).weaken (fun _ h => h) fun _ _ h => h.1

theorem keepsShape_currentStackHeight : KeepsShape closing currentStackHeight :=
  keepsShape_countEmittedCode.bind fun _ => keepsShape_read fun _ => keepsShape_pure _

/-- The height is changed, which the law says nothing about. -/
theorem Compiler.Good.withHeight (h : s₀.Good closing pending nesting s) (height : ℤ)
    (isReachable : Bool) :
    s₀.Good closing pending nesting
      (s.withCount { s.current.toStackCount with stackHeight := height, isReachable }) :=
  h.withCount h.ok.counted h.ok.returns

theorem keepsShape_resetStackHeight (height : ℤ) : KeepsShape closing (resetStackHeight height) :=
  keepsShape_countEmittedCode.bind fun _ _ _ _ =>
    triple_modify (fun _ h => h) fun s h => h.withHeight height s.current.isReachable

/-! #### Instructions -/

/-- Bytes are emitted on the current line. -/
def Compiler.emitted (s : Compiler) (bytes : Bytes) : Compiler :=
  { s with current := { s.current with fn := s.current.fn.emit s.currentLine bytes } }

theorem emitBytes_run (byte1 byte2 : UInt8) :
    (emitBytes byte1 byte2).run s = ((), s.emitted [byte1, byte2]) := by
  show ((), (s.emitted [byte1]).emitted [byte2]) = _
  rw [Compiler.emitted, Compiler.emitted]
  dsimp only
  rw [emit_emit]
  rfl

theorem emitted_emitted (bytes bytes' : Bytes) :
    (s.emitted bytes).emitted bytes' = s.emitted (bytes ++ bytes') := by
  rw [Compiler.emitted, Compiler.emitted]
  dsimp only
  rw [emit_emit]
  rfl

/-- A whole instruction is emitted. -/
theorem Compiler.Good.emitted (h : s₀.Good closing pending nesting s) {op : OpCode}
    {operands : List UInt8} {pending' : Pending}
    (hlength : instructionLength s.compilingUnit
      (s.emitted (op.toByte :: operands)).current.fn s.current.fn.code.length op =
        1 + operands.length)
    (hok : InstructionOk s.setting (s.IsOpen closing pending')
      (s.emitted (op.toByte :: operands)).current.fn s.current.fn.code.length op)
    (hopen : ∀ operand ∈ pending.all, operand ∈ pending'.all)
    (hnew : ∀ operand ∈ pending'.all, operand ∈ pending.all ∨
      operand = s.current.fn.code.length + 1 ∧ op.JumpsForward)
    (hfresh : ∀ operand ∈ pending'.new, s₀.current.fn.code.length ≤ operand) :
    s₀.Good closing pending' nesting (s.emitted (op.toByte :: operands)) := by
  have hedits : s.Edits (s.emitted (op.toByte :: operands)) := .ofCode s (List.prefix_refl _) id
  have hsetting : (s.emitted (op.toByte :: operands)).setting = s.setting := by
    rw [Compiler.setting, Compiler.setting]
    congr 1
    exact funext fun i => propext hedits.finished
  refine hedits.good h h.ok.code.carries_emit ?_ ?_ rfl rfl hfresh
  · rw [hsetting]
    exact h.ok.code.append hlength hok (fun operand hoperand => hoperand.imp_left (hopen operand))
      fun operand hoperand => hoperand.elim
        (fun hmem => (hnew operand hmem).imp_left fun h => .inl h) fun hloop => .inl (.inr hloop)
  · exact h.grows.code.trans (List.prefix_append _ _)

/-- The instructions that need nothing of their operands. -/
def OpCode.IsFree (op : OpCode) : Prop :=
  constantUse op = none ∧ ¬ op.JumpsForward ∧
    op ∉ [OpCode.loop, .getUpvalue, .setUpvalue, .cast, .closure]

instance (op : OpCode) : Decidable op.JumpsForward :=
  inferInstanceAs (Decidable (op = .jump ∨ op = .jumpIfFalse ∨ op = .jumpIfNotNil))

instance (op : OpCode) : Decidable op.IsFree :=
  inferInstanceAs (Decidable (constantUse op = none ∧ ¬ op.JumpsForward ∧
    op ∉ [OpCode.loop, .getUpvalue, .setUpvalue, .cast, .closure]))

section Instructions

variable {a : Setting} {isOpen : ℕ → Prop} {fn : CompiledFn} {offset : ℕ} {op : OpCode}
  {use : ConstantUse} {operands : List UInt8}

theorem instructionLength_of_ne {compiledUnit : CompiledUnit} (hne : op ≠ .closure) :
    instructionLength compiledUnit fn offset op = 1 + (opInfo op).operandBytes := by
  rw [instructionLength_eq, if_neg hne, Nat.add_zero]

theorem OpCode.IsFree.instructionOk (h : op.IsFree) : InstructionOk a isOpen fn offset op := by
  obtain ⟨hconstant, hforward, hother⟩ := h
  refine ⟨fun use huse => ?_, fun hjump => absurd hjump hforward, fun hloop => ?_,
    fun hupvalue => ?_, fun hcast => ?_, fun hclosure => ?_⟩
  · rw [hconstant] at huse
    cases huse
  · exact absurd (by simp [hloop]) hother
  · exact absurd (by rcases hupvalue with rfl | rfl <;> simp) hother
  · exact absurd (by simp [hcast]) hother
  · exact absurd (by simp [hclosure]) hother

theorem OpCode.IsFree.ne_closure (h : op.IsFree) : op ≠ .closure := by
  rintro rfl
  exact absurd h (by decide)

/-- An instruction that only needs its constant. -/
theorem instructionOk_of_constant (huse : constantUse op = some use) (hne : op ≠ .closure)
    (hconstant : ∃ c, fn.constants[(codeAt fn (offset + 1)).toNat]? = some c ∧ use.Fits c) :
    InstructionOk a isOpen fn offset op := by
  refine ⟨fun use' huse' => ?_, fun hjump => ?_, fun hloop => ?_, fun hupvalue => ?_,
    fun hcast => ?_, fun hclosure => absurd hclosure hne⟩
  · obtain rfl : use = use' := Option.some.inj (huse.symm.trans huse')
    exact hconstant
  · rcases hjump with rfl | rfl | rfl <;> cases huse
  · subst hloop
    cases huse
  · rcases hupvalue with rfl | rfl <;> cases huse
  · subst hcast
    cases huse

theorem instructionOk_of_upvalue (hop : op = .getUpvalue ∨ op = .setUpvalue)
    (h : (codeAt fn (offset + 1)).toNat < a.upvalueCount) :
    InstructionOk a isOpen fn offset op := by
  rcases hop with rfl | rfl <;>
  exact ⟨nofun, fun hjump => absurd hjump (by decide), nofun, fun _ => h, nofun, nofun⟩

theorem instructionOk_cast (kind : NumberKind)
    (h : NumberKind.ofByte? (codeAt fn (offset + 1)) = some kind) :
    InstructionOk a isOpen fn offset .cast :=
  ⟨nofun, fun hjump => absurd hjump (by decide), nofun, fun hupvalue => absurd hupvalue (by decide),
    fun _ => ⟨kind, h⟩, nofun⟩

theorem instructionOk_loop (target : ℕ) (hle : target ≤ offset)
    (htarget : IsBoundary a.compiledUnit fn target)
    (hdistance : target + shortAt fn (offset + 1) = offset + 3) :
    InstructionOk a isOpen fn offset .loop :=
  ⟨nofun, fun hjump => absurd hjump (by decide), fun _ => ⟨target, hle, htarget, hdistance⟩,
    fun hupvalue => absurd hupvalue (by decide), nofun, nofun⟩

/-- The first operand of an instruction that is emitted. -/
theorem codeAt_emitted (byte : UInt8) (operand : UInt8) (rest : List UInt8) :
    codeAt (s.emitted (byte :: operand :: rest)).current.fn (s.current.fn.code.length + 1) =
      operand := codeAt_emit 1

theorem Compiler.Good.emittedFree (h : s₀.Good closing pending nesting s) (hfree : op.IsFree)
    (hlength : operands.length = (opInfo op).operandBytes) :
    s₀.Good closing pending nesting (s.emitted (op.toByte :: operands)) :=
  h.emitted (by rw [instructionLength_of_ne hfree.ne_closure, hlength]) hfree.instructionOk
    (fun _ h => h) (fun _ h => .inl h) h.fresh

/-- The constant that an operand names. -/
def Compiler.HasConstant (use : ConstantUse) (index : UInt8) (s : Compiler) : Prop :=
  ∃ c, s.current.fn.constants[index.toNat]? = some c ∧ use.Fits c

theorem stable_hasConstant (use : ConstantUse) (index : UInt8) :
    Stable (Compiler.HasConstant use index) :=
  fun _ _ hstays ⟨c, hc, hfits⟩ => ⟨c, getElem?_constants_mono hstays.constants hc, hfits⟩

theorem Compiler.Good.emittedConstant {index : UInt8} (h : s₀.Good closing pending nesting s)
    (huse : constantUse op = some use) (hne : op ≠ .closure)
    (hlength : operands.length + 1 = (opInfo op).operandBytes)
    (hconstant : s.HasConstant use index) :
    s₀.Good closing pending nesting (s.emitted (op.toByte :: index :: operands)) := by
  refine h.emitted ?_ (instructionOk_of_constant huse hne ?_) (fun _ h => h) (fun _ h => .inl h)
    h.fresh
  · rw [instructionLength_of_ne hne, ← hlength, List.length_cons]
  · rw [codeAt_emitted]
    exact hconstant

theorem Compiler.Good.emittedUpvalue {index : UInt8} (h : s₀.Good closing pending nesting s)
    (hop : op = .getUpvalue ∨ op = .setUpvalue) (hindex : index.toNat < s.current.upvalues.length) :
    s₀.Good closing pending nesting (s.emitted [op.toByte, index]) := by
  refine h.emitted ?_ (instructionOk_of_upvalue hop ?_) (fun _ h => h) (fun _ h => .inl h) h.fresh
  · rcases hop with rfl | rfl <;> rw [instructionLength_of_ne (by decide)] <;> rfl
  · rw [codeAt_emitted]
    exact hindex

theorem Compiler.Good.emittedCast (h : s₀.Good closing pending nesting s) (kind : NumberKind) :
    s₀.Good closing pending nesting (s.emitted [OpCode.cast.toByte, kind.toByte]) := by
  refine h.emitted ?_ (instructionOk_cast kind ?_) (fun _ h => h) (fun _ h => .inl h) h.fresh
  · rw [instructionLength_of_ne (by decide)]
    rfl
  · rw [codeAt_emitted]
    exact NumberKind.ofByte?_toByte kind

theorem shortAt_emitted (byte : UInt8) {distance : ℕ} (hdistance : distance ≤ UINT16_MAX) :
    shortAt (s.emitted [byte, highByte distance, lowByte distance]).current.fn
      (s.current.fn.code.length + 1) = distance := by
  have hhigh : codeAt (s.emitted [byte, highByte distance, lowByte distance]).current.fn
      (s.current.fn.code.length + 1) = highByte distance := codeAt_emit 1
  have hlow : codeAt (s.emitted [byte, highByte distance, lowByte distance]).current.fn
      (s.current.fn.code.length + 2) = lowByte distance := codeAt_emit 2
  have hmax : distance ≤ 65535 := hdistance
  rw [shortAt, hhigh, hlow, toNat_highByte, toNat_lowByte]
  omega

theorem Compiler.Good.emittedLoop {target : ℕ} (h : s₀.Good closing pending nesting s)
    (htarget : IsBoundary s.compilingUnit s.current.fn target)
    (hdistance : s.current.fn.code.length + 3 - target ≤ UINT16_MAX) :
    s₀.Good closing pending nesting (s.emitted [OpCode.loop.toByte,
      highByte (s.current.fn.code.length + 3 - target : ℕ),
      lowByte (s.current.fn.code.length + 3 - target : ℕ)]) := by
  have hle := htarget.le
  refine h.emitted ?_ (instructionOk_loop target hle ?_ ?_) (fun _ h => h) (fun _ h => .inl h)
    h.fresh
  · rw [instructionLength_of_ne (by decide)]
    rfl
  · exact h.ok.code.carries_emit.boundary _ htarget
  · rw [shortAt_emitted _ hdistance]
    omega

/-- A jump is emitted whose operand is open. -/
theorem Compiler.Good.emittedJump (h : s₀.Good closing pending nesting s) (hop : op.JumpsForward)
    (hlength : operands.length = 2) :
    s₀.Good closing (pending.add (s.current.fn.code.length + 1)) nesting
      (s.emitted (op.toByte :: operands)) := by
  refine h.emitted ?_ (hop.instructionOk (.inl (.inl List.mem_cons_self)))
    (fun _ h => List.mem_cons_of_mem _ h) (fun operand hmem => ?_) fun operand hmem => ?_
  · rw [hop.length, hlength]
  · rcases List.mem_cons.mp hmem with rfl | hmem
    · exact .inr ⟨rfl, hop⟩
    · exact .inl hmem
  · rcases List.mem_cons.mp hmem with rfl | hmem
    · exact Nat.le_trans h.grows.code.length_le (Nat.le_succ _)
    · exact h.fresh operand hmem

end Instructions

/-! #### Emitting -/

section Emitting

variable {pre : Compiler → Prop} {post : Compiler → Prop} {op : OpCode}

theorem triple_emitByte {byte : UInt8} (h : ∀ s, pre s → post (s.emitted [byte])) :
    Triple Compiler.Erred pre (emitByte byte) fun _ => post :=
  fun s => ⟨id, fun hs => .inr (h s hs)⟩

theorem triple_emitBytes {byte1 byte2 : UInt8}
    (h : ∀ s, pre s → post (s.emitted [byte1, byte2])) :
    Triple Compiler.Erred pre (emitBytes byte1 byte2) fun _ => post := by
  intro s
  rw [emitBytes_run]
  exact ⟨id, fun hs => .inr (h s hs)⟩

/-- An instruction of which some bytes have been emitted. -/
def Started (bytes : Bytes) (F : Compiler → Prop) (s' : Compiler) : Prop :=
  ∃ s, F s ∧ s' = s.emitted bytes

theorem triple_emitByte_started {bytes : Bytes} {byte : UInt8}
    (h : ∀ s, pre s → post (s.emitted (bytes ++ [byte]))) :
    Triple Compiler.Erred (Started bytes pre) (emitByte byte) fun _ => post := by
  refine triple_emitByte ?_
  rintro _ ⟨s, hs, rfl⟩
  rw [emitted_emitted]
  exact h s hs

theorem triple_emitBytes_started {bytes : Bytes} {byte1 byte2 : UInt8}
    (h : ∀ s, pre s → post (s.emitted (bytes ++ [byte1, byte2]))) :
    Triple Compiler.Erred (Started bytes pre) (emitBytes byte1 byte2) fun _ => post := by
  refine triple_emitBytes ?_
  rintro _ ⟨s, hs, rfl⟩
  rw [emitted_emitted]
  exact h s hs

theorem triple_start (bytes : List UInt8) (byte : UInt8) :
    Triple Compiler.Erred (Started bytes pre) (emitByte byte) fun _ =>
      Started (bytes ++ [byte]) pre :=
  triple_emitByte_started fun s hs => ⟨s, hs, rfl⟩

theorem triple_startOp (op : OpCode) :
    Triple Compiler.Erred pre (emitOp op) fun _ => Started [op.toByte] pre :=
  triple_emitByte fun s hs => ⟨s, hs, rfl⟩

theorem triple_startBytes (byte1 byte2 : UInt8) :
    Triple Compiler.Erred pre (emitBytes byte1 byte2) fun _ => Started [byte1, byte2] pre :=
  triple_emitBytes fun s hs => ⟨s, hs, rfl⟩

theorem keepsShape_emitOp (hfree : op.IsFree) (hlength : (opInfo op).operandBytes = 0) :
    KeepsShape closing (emitOp op) :=
  fun _ _ _ => triple_emitByte fun _ h => h.emittedFree hfree hlength.symm

theorem keepsShape_emitOperand (hfree : op.IsFree) (hlength : (opInfo op).operandBytes = 1)
    (operand : UInt8) : KeepsShape closing (emitBytes op.toByte operand) :=
  fun _ _ _ => triple_emitBytes fun _ h => h.emittedFree hfree hlength.symm

theorem keepsShape_emitCast (kind : NumberKind) :
    KeepsShape closing (do emitOp .cast; emitByte kind.toByte) :=
  fun _ _ _ => (triple_startOp .cast).bind fun _ =>
    triple_emitByte_started fun _ h => h.emittedCast kind

variable {use : ConstantUse} {index : UInt8}

theorem triple_emitConstant (huse : constantUse op = some use) (hne : op ≠ .closure)
    (hlength : (opInfo op).operandBytes = 1) (s₀ : Compiler) (pending : Pending)
    (nesting : Nesting) :
    Triple Compiler.Erred (fun s => s₀.Good closing pending nesting s ∧ s.HasConstant use index)
      (emitBytes op.toByte index) fun _ => s₀.Good closing pending nesting :=
  triple_emitBytes fun _ h => h.1.emittedConstant huse hne hlength.symm h.2

theorem triple_codeCount : Triple Compiler.Erred pre codeCount fun count s =>
    pre s ∧ count = s.current.fn.code.length :=
  fun _ => ⟨id, fun h => .inr ⟨h, rfl⟩⟩

theorem triple_emitJump (hop : op.JumpsForward) (s₀ : Compiler) (pending : Pending)
    (nesting : Nesting) :
    Triple Compiler.Erred (s₀.Good closing pending nesting) (emitJump op) fun jump =>
      s₀.Good closing (pending.add jump) nesting := by
  refine (keepsShape_currentStackHeight s₀ pending nesting).bind fun height => ?_
  refine (triple_startOp op).bind fun _ => ?_
  have hbytes : Triple Compiler.Erred (Started [op.toByte] (s₀.Good closing pending nesting))
      (emitBytes (highByte height) (lowByte height)) fun _ s =>
        s₀.Good closing (pending.add (s.current.fn.code.length - 2)) nesting s := by
    refine triple_emitBytes_started fun s h => ?_
    have hend :
        (s.emitted ([op.toByte] ++ [highByte height, lowByte height])).current.fn.code.length - 2 =
          s.current.fn.code.length + 1 := by
      show (s.current.fn.emit _ _).code.length - 2 = _
      rw [length_emit]
      rfl
    rw [hend]
    exact h.emittedJump hop rfl
  refine hbytes.bind fun _ => triple_codeCount.bind fun count => triple_pure ?_
  rintro s ⟨h, rfl⟩
  exact h

theorem triple_emitLoop (target : ℕ) (s₀ : Compiler) (pending : Pending) (nesting : Nesting) :
    Triple Compiler.Erred
      (fun s => s₀.Good closing pending nesting s ∧ IsBoundary s.compilingUnit s.current.fn target)
      (emitLoop target) fun _ => s₀.Good closing pending nesting := by
  refine (triple_startOp .loop).bind fun _ => triple_codeCount.bind fun count => ?_
  refine .ite (fun _ => ?_) fun hmax => ?_
  · exact (triple_compilerError _).bind fun _ =>
      @triple_emitBytes (fun _ => False) _ _ _ fun _ h => h.elim
  · refine triple_emitBytes ?_
    rintro _ ⟨⟨s, ⟨h, htarget⟩, rfl⟩, hcount⟩
    have hle := htarget.le
    have hend : count = s.current.fn.code.length + 1 := by
      rw [hcount]
      exact length_emit
    have hoffset : count - target + 2 = s.current.fn.code.length + 3 - target := by omega
    rw [hoffset] at hmax ⊢
    rw [emitted_emitted]
    exact h.emittedLoop htarget (Nat.le_of_not_lt hmax)

/-- The program leaves the loops around alone. -/
def KeepsLoops (p : CompileM α) : Prop :=
  ∀ loops, Triple (fun _ => False) (fun s => s.currentLoop = loops) p fun _ s =>
    s.currentLoop = loops

theorem KeepsLoops.bind (hp : KeepsLoops p) (hf : ∀ a, KeepsLoops (f a)) : KeepsLoops (p >>= f) :=
  fun loops => (hp loops).bind fun a => hf a loops

theorem keepsLoops_pure (a : α) : KeepsLoops (pure a) := fun _ => triple_pure fun _ h => h

theorem keepsLoops_read {g : Compiler → CompileM β} (h : ∀ s, KeepsLoops (g s)) :
    KeepsLoops (get >>= g) := fun loops => triple_read fun s => h s loops

theorem keepsLoops_modify {g : Compiler → Compiler} (h : ∀ s, (g s).currentLoop = s.currentLoop) :
    KeepsLoops (modify g) := fun _ => triple_modify (fun _ h => h) fun s hs => (h s).trans hs

theorem KeepsLoops.ite {c : Prop} [Decidable c] {q : CompileM α} (hp : KeepsLoops p)
    (hq : KeepsLoops q) : KeepsLoops (if c then p else q) :=
  fun loops => .ite (fun _ => hp loops) fun _ => hq loops

theorem keepsLoops_modifyCurrent (g : FnCompiler → FnCompiler) : KeepsLoops (modifyCurrent g) :=
  keepsLoops_modify fun _ => rfl

theorem keepsLoops_compilerErrorAt (line : ℤ) (place : ErrorPlace) (message : String) :
    KeepsLoops (compilerErrorAt line place message) := keepsLoops_modify fun _ => rfl

theorem keepsLoops_compilerError (message : String) : KeepsLoops (compilerError message) :=
  keepsLoops_read fun _ => keepsLoops_compilerErrorAt _ _ _

theorem keepsLoops_countEmittedCodeLoop (fuel : ℕ) : KeepsLoops (countEmittedCodeLoop fuel) := by
  induction fuel with
  | zero => exact keepsLoops_pure ()
  | succ fuel ih =>
    refine keepsLoops_read fun s => .ite ?_ (keepsLoops_pure ())
    split
    · exact .ite ((keepsLoops_compilerErrorAt _ _ _).bind fun _ => keepsLoops_modifyCurrent _)
        (keepsLoops_modifyCurrent _)
    · exact (keepsLoops_modifyCurrent _).bind fun _ => ih

theorem keepsLoops_countEmittedCode : KeepsLoops countEmittedCode :=
  keepsLoops_read fun _ => keepsLoops_countEmittedCodeLoop _

theorem keepsLoops_patchJump (operand : ℕ) : KeepsLoops (patchJump operand) := by
  refine keepsLoops_read fun s => ?_
  refine (keepsLoops_countEmittedCode.bind fun _ => keepsLoops_read fun _ => keepsLoops_pure _).bind
    fun height => keepsLoops_read fun s' => ?_
  extract_lets rest
  have hrest : ∀ r, KeepsLoops (rest r) := by
    intro r
    refine (keepsLoops_read fun _ => keepsLoops_pure _).bind fun count => ?_
    exact .ite ((keepsLoops_compilerError _).bind fun _ => keepsLoops_modify fun _ => rfl)
      (keepsLoops_modify fun _ => rfl)
  refine .ite ?_ ?_
  · exact keepsLoops_read fun _ => (keepsLoops_read fun _ =>
      .ite (keepsLoops_compilerErrorAt _ _ _) (keepsLoops_pure _)).bind hrest
  · exact (keepsLoops_countEmittedCode.bind fun _ => keepsLoops_modifyCurrent _).bind fun _ =>
      (keepsLoops_modifyCurrent _).bind hrest

theorem prefix_patch {code : List CodeByte} {fn : CompiledFn} {operand distance : ℕ}
    (h : code <+: fn.code) (hle : code.length ≤ operand) :
    code <+: (fn.patch operand distance).code := by
  rw [List.prefix_iff_getElem?] at h ⊢
  intro i hi
  have hne : operand ≠ i := by omega
  have hne' : operand + 1 ≠ i := by omega
  rw [← h i hi]
  simp [CompiledFn.patch, CompiledFn.setByte, hne, hne']

/-- A jump is patched to go on behind the code. -/
theorem Compiler.Good.patched {operand : ℕ} (h : s₀.Good closing (pending.add operand) nesting s)
    (hdistance : s.current.fn.code.length - operand - 2 ≤ UINT16_MAX) :
    s₀.Good closing pending nesting { s with
      current := { s.current with
        fn := s.current.fn.patch operand (s.current.fn.code.length - operand - 2) } } := by
  have hopen : s.IsOpen closing (pending.add operand) operand := .inl List.mem_cons_self
  have hle := h.fresh operand List.mem_cons_self
  have hedits : s.Edits { s with
      current := { s.current with
        fn := s.current.fn.patch operand (s.current.fn.code.length - operand - 2) } } :=
    .ofCode s (List.prefix_refl _) id
  refine hedits.good h (h.ok.code.carries_patch hopen) ?_ (prefix_patch h.grows.code hle) rfl rfl
    fun x hx => h.fresh x (List.mem_cons_of_mem _ hx)
  have hsetting : Compiler.setting { s with
      current := { s.current with
        fn := s.current.fn.patch operand (s.current.fn.code.length - operand - 2) } } =
      s.setting := by
    rw [Compiler.setting, Compiler.setting]
    congr 1
    exact funext fun i => propext hedits.finished
  rw [hsetting]
  refine h.ok.code.patch hopen hdistance (fun x hx => ?_) fun x hx =>
    hx.imp_left fun hmem => List.mem_cons_of_mem _ hmem
  rcases hx with hmem | hloop
  · exact (List.mem_cons.mp hmem).imp id .inl
  · exact .inr (.inr hloop)

theorem triple_patchJump_carrying (operand : ℕ) {F : Compiler → Prop} (hF : Stable F)
    (s₀ : Compiler) (pending : Pending) (nesting : Nesting) :
    Triple Compiler.Erred (fun s => s₀.Good closing (pending.add operand) nesting s ∧ F s)
      (patchJump operand) fun _ s => s₀.Good closing pending nesting s ∧ F s := by
  refine triple_read fun s => ?_
  refine (keepsShape_currentStackHeight.carrying hF s₀ (pending.add operand) nesting).bind
    fun height => triple_read fun s' => ?_
  extract_lets rest
  have hrest : ∀ r, Triple Compiler.Erred
      (fun s => s₀.Good closing (pending.add operand) nesting s ∧ F s) (rest r)
      fun _ s => s₀.Good closing pending nesting s ∧ F s := by
    intro r
    refine triple_codeCount.bind fun count => .ite (fun _ => ?_) fun hmax => ?_
    · exact (triple_compilerError _).bind fun _ => triple_modify (fun _ h => h) fun _ h => h
    · refine triple_modify (fun _ h => h) ?_
      rintro s ⟨⟨h, hfact⟩, rfl⟩
      refine ⟨h.patched (Nat.le_of_not_lt hmax), hF s _ ⟨?_, constants_patch, ?_, rfl⟩ hfact⟩
      · exact (h.ok.code.carries_patch (.inl List.mem_cons_self)).boundary
      · exact (Compiler.Edits.ofCode s constants_patch id).before
  have hcheck : ∀ ok line, KeepsShape closing (checkStackHeight ok line) :=
    keepsShape_checkStackHeight
  have hreset : KeepsShape closing (do
      resetStackHeight ((codeAt s.current.fn operand).toNat * 256 +
        (codeAt s.current.fn (operand + 1)).toNat : ℤ)
      modifyCurrent fun c => { c with isReachable := true }) :=
    (keepsShape_resetStackHeight _).bind fun _ _ _ _ =>
      triple_modify (fun _ h => h) fun s h => h.withHeight s.current.stackHeight true
  refine .ite (fun _ => ?_) fun _ => ?_
  · exact triple_read fun s =>
      ((hcheck _ _).carrying hF s₀ (pending.add operand) nesting).bind hrest
  · exact (hreset.carrying hF s₀ (pending.add operand) nesting).bind hrest

theorem triple_patchJump (operand : ℕ) (s₀ : Compiler) (pending : Pending) (nesting : Nesting) :
    Triple Compiler.Erred (s₀.Good closing (pending.add operand) nesting) (patchJump operand)
      fun _ => s₀.Good closing pending nesting :=
  (triple_patchJump_carrying operand (fun _ _ _ _ => trivial) s₀ pending nesting).weaken
    (fun _ h => ⟨h, trivial⟩) fun _ _ h => h.1

end Emitting

end KirbyLang
