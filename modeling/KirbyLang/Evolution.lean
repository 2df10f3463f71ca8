import KirbyLang.GcExact
import KirbyLang.MemoryRules

/-!
# What allocation leaves as it was

Every program over the memory makes objects, frees unreachable ones, and writes over a few it has
made; it leaves the frames and the open upvalues alone, and what it pushes it pops again.

* `Memory.Advances`: what all programs do; `Memory.Evolves`: those that leave the stack as it was;
* one lemma for each constructor, for tables and strings, and for the loader.
-/

namespace KirbyLang.Vm

open Preorders

/-- A push or a pop. -/
def Event.IsStack : Event → Prop
  | .push _ => True
  | .pop _ => True
  | _ => False

/-- A pop, or a push that leaves the stack no higher than a limit. -/
def Event.Within (limit : ℤ) : Event → Prop
  | .push top => top ≤ limit
  | .pop _ => True
  | _ => False

theorem Event.Within.mono {limit limit' : ℤ} {e : Event} (hle : limit ≤ limit')
    (h : e.Within limit) : e.Within limit' := by
  cases e with
  | push top => exact Int.le_trans h hle
  | pop _ => trivial
  | instruction _ => exact h
  | report _ => exact h
  | access _ _ _ => exact h

/-- No object is at an address that is still to be given, and an instance has no more fields than its
struct. -/
structure GC.Fits (gc : GC) : Prop where
  fresh : ∀ r, gc.nextRef ≤ r → gc.heap r = none
  fields : ∀ r i, gc.heap r = some (.instance_ i) → ∀ values, i.fields = some values →
    i.struct_ < gc.nextRef ∧
      ∀ o, gc.heap i.struct_ = some (.struct_ o) → values.length ≤ o.fieldCount

theorem GC.Fits.lt {gc : GC} (h : gc.Fits) {r : Ref} {o : Obj} (ho : gc.heap r = some o) :
    r < gc.nextRef := by
  by_contra hle
  rw [h.fresh r (Nat.le_of_not_lt hle)] at ho
  cases ho

/-- What every program over the memory does but `newUpvalue`. -/
structure Memory.Advances (memory memory' : Memory) : Prop where
  frames : memory'.frames = memory.frames
  openUpvalues : memory'.openUpvalues = memory.openUpvalues
  trace : ∃ events, memory'.trace = events ++ memory.trace ∧ ∀ e ∈ events, e.IsStack
  nextRef : memory.gc.nextRef ≤ memory'.gc.nextRef
  fits : memory.gc.Fits → memory'.gc.Fits
  heap : ∀ r o', memory'.gc.heap r = some o' →
    (∃ o, memory.gc.heap r = some o ∧ o.Kept o') ∨
      memory.gc.nextRef ≤ r ∧ ∀ u, o' ≠ .upvalue u

/-- A program that pops what it pushes, no more than `depth` values. -/
structure Memory.Evolves (depth : ℕ) (memory memory' : Memory) : Prop
    extends memory.Advances memory' where
  stackTop : memory'.stackTop = memory.stackTop
  stack : ∀ slot < memory.stackTop, memory'.stack slot = memory.stack slot
  within : ∃ events, memory'.trace = events ++ memory.trace ∧
    ∀ e ∈ events, e.Within (memory.stackTop + depth)

section Preorder

variable {memory memory' memory'' : Memory} {depth depth' : ℕ}

theorem Memory.Advances.refl (memory : Memory) : memory.Advances memory :=
  ⟨rfl, rfl, ⟨[], rfl, by simp⟩, Nat.le_refl _, id, fun _ o ho => .inl ⟨o, ho, .refl o⟩⟩

theorem Memory.Advances.trans (h : memory.Advances memory') (h' : memory'.Advances memory'') :
    memory.Advances memory'' := by
  refine ⟨h'.frames.trans h.frames, h'.openUpvalues.trans h.openUpvalues, ?_,
    Nat.le_trans h.nextRef h'.nextRef, fun hfits => h'.fits (h.fits hfits), fun r o'' ho'' => ?_⟩
  · obtain ⟨events, htrace, hevents⟩ := h.trace
    obtain ⟨events', htrace', hevents'⟩ := h'.trace
    refine ⟨events' ++ events, by rw [htrace', htrace, List.append_assoc], fun e he => ?_⟩
    rcases List.mem_append.mp he with he | he
    · exact hevents' e he
    · exact hevents e he
  · rcases h'.heap r o'' ho'' with ⟨o', ho', hkept'⟩ | ⟨hle, hother⟩
    · rcases h.heap r o' ho' with ⟨o, ho, hkept⟩ | ⟨hle, hother⟩
      · exact .inl ⟨o, ho, hkept.trans hkept'⟩
      · refine .inr ⟨hle, ?_⟩
        rintro u rfl
        obtain ⟨u', rfl, -⟩ := hkept'.of_upvalue
        exact hother u' rfl
    · exact .inr ⟨Nat.le_trans h.nextRef hle, hother⟩

theorem Memory.Evolves.refl (memory : Memory) : memory.Evolves depth memory :=
  ⟨.refl memory, rfl, fun _ _ => rfl, [], rfl, by simp⟩

theorem Memory.Evolves.mono (hle : depth ≤ depth') (h : memory.Evolves depth memory') :
    memory.Evolves depth' memory' := by
  obtain ⟨events, htrace, hevents⟩ := h.within
  exact ⟨h.toAdvances, h.stackTop, h.stack, events, htrace,
    fun e he => (hevents e he).mono (by omega)⟩

theorem Memory.Evolves.trans (h : memory.Evolves depth memory')
    (h' : memory'.Evolves depth memory'') : memory.Evolves depth memory'' := by
  refine ⟨h.toAdvances.trans h'.toAdvances, h'.stackTop.trans h.stackTop, fun slot hslot => ?_, ?_⟩
  · rw [h'.stack slot (by rw [h.stackTop]; exact hslot), h.stack slot hslot]
  · obtain ⟨events, htrace, hevents⟩ := h.within
    obtain ⟨events', htrace', hevents'⟩ := h'.within
    refine ⟨events' ++ events, by rw [htrace', htrace, List.append_assoc], fun e he => ?_⟩
    rcases List.mem_append.mp he with he | he
    · rw [← h.stackTop]
      exact hevents' e he
    · exact hevents e he

instance : IsPreorder Memory Memory.Advances where
  refl := .refl
  trans := fun _ _ _ => .trans

instance : IsPreorder Memory (Memory.Evolves depth) where
  refl := fun _ => .refl _
  trans := fun _ _ _ => .trans

/-- A change that only the heap and the collector's state see. -/
theorem Memory.Evolves.ofGc {gc : GC} (hnext : memory.gc.nextRef ≤ gc.nextRef)
    (hfits : memory.gc.Fits → gc.Fits)
    (hheap : ∀ r o', gc.heap r = some o' →
      (∃ o, memory.gc.heap r = some o ∧ o.Kept o') ∨
        memory.gc.nextRef ≤ r ∧ ∀ u, o' ≠ .upvalue u) :
    memory.Evolves depth { memory with gc } :=
  ⟨⟨rfl, rfl, ⟨[], rfl, by simp⟩, hnext, hfits, hheap⟩, rfl, fun _ _ => rfl, [], rfl, by simp⟩

/-- What is pushed is popped again. -/
theorem Memory.Evolves.holding {value : Value} (h : (memory.pushed value).Evolves depth memory') :
    memory.Evolves (depth + 1) (memory'.popped 1) := by
  have htop : memory'.stackTop = memory.stackTop + 1 := h.stackTop
  refine ⟨⟨h.frames, h.openUpvalues, ?_, h.nextRef, h.fits, h.heap⟩, ?_, fun slot hslot => ?_, ?_⟩
  · obtain ⟨events, htrace, hevents⟩ := h.trace
    refine ⟨.pop (memory'.stackTop - 1) :: events ++ [.push (memory.stackTop + 1)], ?_, ?_⟩
    · show _ :: memory'.trace = _
      rw [htrace]
      simp [Memory.pushed]
    · intro e he
      simp only [List.cons_append, List.mem_cons, List.mem_append, List.not_mem_nil, or_false] at he
      rcases he with rfl | he | rfl
      · trivial
      · exact hevents e he
      · trivial
  · show memory'.stackTop - 1 = _
    omega
  · show memory'.stack slot = _
    rw [h.stack slot (show slot < memory.stackTop + 1 by omega)]
    exact Function.update_of_ne (show slot ≠ memory.stackTop by omega) _ _
  · obtain ⟨events, htrace, hevents⟩ := h.within
    refine ⟨.pop (memory'.stackTop - 1) :: events ++ [.push (memory.stackTop + 1)], ?_, ?_⟩
    · show _ :: memory'.trace = _
      rw [htrace]
      simp [Memory.pushed]
    · intro e he
      simp only [List.cons_append, List.mem_cons, List.mem_append, List.not_mem_nil, or_false] at he
      rcases he with rfl | he | rfl
      · trivial
      · refine (hevents e he).mono ?_
        show memory.stackTop + 1 + (depth : ℤ) ≤ memory.stackTop + (depth + 1 : ℕ)
        omega
      · show memory.stackTop + 1 ≤ memory.stackTop + ((depth + 1 : ℕ) : ℤ)
        omega

theorem Memory.Advances.pushed (memory : Memory) (value : Value) :
    memory.Advances (memory.pushed value) :=
  ⟨rfl, rfl, ⟨[.push (memory.stackTop + 1)], rfl, by simp [Event.IsStack]⟩, Nat.le_refl _, id,
    fun _ o ho => .inl ⟨o, ho, .refl o⟩⟩

theorem Memory.Advances.popped (memory : Memory) (count : ℤ) :
    memory.Advances (memory.popped count) :=
  ⟨rfl, rfl, ⟨[.pop (memory.stackTop - count)], rfl, by simp [Event.IsStack]⟩, Nat.le_refl _, id,
    fun _ o ho => .inl ⟨o, ho, .refl o⟩⟩

/-- An object is written over. -/
theorem Memory.Evolves.setObj {r : Ref} {o o' : Obj} (ho : memory.gc.heap r = some o)
    (hkept : o.Kept o') : memory.Evolves depth (memory.setObj r o') := by
  have hback : ∀ r' o'', (memory.setObj r o').gc.heap r' = some o'' →
      ∃ o, memory.gc.heap r' = some o ∧ o.Kept o'' := by
    intro r' o'' ho''
    by_cases heq : r' = r
    · subst heq
      have hself : Function.update memory.gc.heap r' (some o') r' = some o'' := ho''
      rw [Function.update_self] at hself
      cases hself
      exact ⟨o, ho, hkept⟩
    · exact ⟨o'', (Function.update_of_ne heq _ _).symm.trans ho'', .refl o''⟩
  refine .ofGc (Nat.le_refl _) (fun hfits => ⟨fun r' hr' => ?_, fun r' i hi values hvalues => ?_⟩)
    fun r' o'' ho'' => .inl (hback r' o'' ho'')
  · by_contra hne
    obtain ⟨o'', ho''⟩ := Option.ne_none_iff_exists'.mp hne
    obtain ⟨_, hlive, -⟩ := hback r' o'' ho''
    exact absurd (hfits.lt hlive) (Nat.not_lt_of_le hr')
  · obtain ⟨_, hi', hkept'⟩ := hback r' _ hi
    cases hkept'
    obtain ⟨hlt, hlength⟩ := hfits.fields r' i hi' values hvalues
    refine ⟨hlt, fun s hs => ?_⟩
    obtain ⟨_, hs', hkept'⟩ := hback i.struct_ _ hs
    cases hkept' with
    | refl => exact hlength s hs'
    | struct_ _ hcount _ _ => exact hcount ▸ hlength _ hs'

/-- An instance that is new gets its fields. -/
theorem Memory.Evolves.setFields {r : Ref} {i : ObjInstance} {values : List Value}
    (h : memory.Evolves depth memory') (hr : memory.gc.nextRef ≤ r)
    (hi : memory'.gc.heap r = some (.instance_ i))
    (hvalues : memory.gc.Fits → i.struct_ < memory'.gc.nextRef ∧
      ∀ o, memory'.gc.heap i.struct_ = some (.struct_ o) → values.length ≤ o.fieldCount) :
    memory.Evolves depth (memory'.setObj r (.instance_ { i with fields := some values })) := by
  have hother : ∀ r' ≠ r, (memory'.setObj r (.instance_ { i with fields := some values })).gc.heap r' =
      memory'.gc.heap r' := fun r' hne => Function.update_of_ne hne _ _
  have hself : (memory'.setObj r (.instance_ { i with fields := some values })).gc.heap r =
      some (.instance_ { i with fields := some values }) := Function.update_self ..
  have hstruct : ∀ r' o, (memory'.setObj r (.instance_ { i with fields := some values })).gc.heap r' =
      some (.struct_ o) → memory'.gc.heap r' = some (.struct_ o) := by
    intro r' o ho
    by_cases heq : r' = r
    · rw [heq, hself] at ho
      cases ho
    · exact (hother r' heq).symm.trans ho
  refine ⟨⟨h.frames, h.openUpvalues, h.trace, h.nextRef, fun hfits => ⟨fun r' hr' => ?_, ?_⟩,
    fun r' o ho => ?_⟩, h.stackTop, h.stack, h.within⟩
  · have hne : r' ≠ r := fun heq => absurd ((h.fits hfits).lt hi) (Nat.not_lt_of_le (heq ▸ hr'))
    exact (hother r' hne).trans ((h.fits hfits).fresh r' hr')
  · intro r' i' hi' values' hvalues'
    by_cases heq : r' = r
    · rw [heq, hself] at hi'
      cases hi'
      cases hvalues'
      obtain ⟨hlt, hlength⟩ := hvalues hfits
      exact ⟨hlt, fun o ho => hlength o (hstruct _ o ho)⟩
    · rw [hother r' heq] at hi'
      obtain ⟨hlt', hlength'⟩ := (h.fits hfits).fields r' i' hi' values' hvalues'
      exact ⟨hlt', fun o ho => hlength' o (hstruct _ o ho)⟩
  · by_cases heq : r' = r
    · rw [heq, hself] at ho
      cases ho
      exact .inr ⟨heq ▸ hr, by simp⟩
    · exact h.heap r' o ((hother r' heq).symm.trans ho)

/-- A function that is new is written over. -/
theorem Memory.Advances.setFunction {r : Ref} {f : ObjFunction} (h : memory.Advances memory')
    (hr : memory.gc.nextRef ≤ r) (hf : memory'.gc.heap r = some (.function f)) (f' : ObjFunction) :
    memory.Advances (memory'.setObj r (.function f')) := by
  have hself : (memory'.setObj r (.function f')).gc.heap r = some (.function f') :=
    Function.update_self ..
  have hother : ∀ r' ≠ r, (memory'.setObj r (.function f')).gc.heap r' = memory'.gc.heap r' :=
    fun r' hne => Function.update_of_ne hne _ _
  have hback : ∀ r' o, (∀ f, o ≠ .function f) →
      (memory'.setObj r (.function f')).gc.heap r' = some o → memory'.gc.heap r' = some o := by
    intro r' o hne ho
    by_cases heq : r' = r
    · rw [heq, hself] at ho
      cases ho
      exact absurd rfl (hne f')
    · exact (hother r' heq).symm.trans ho
  refine ⟨h.frames, h.openUpvalues, h.trace, h.nextRef, fun hfits => ⟨fun r' hr' => ?_, ?_⟩,
    fun r' o ho => ?_⟩
  · have hne : r' ≠ r := fun heq => absurd ((h.fits hfits).lt hf) (Nat.not_lt_of_le (heq ▸ hr'))
    exact (hother r' hne).trans ((h.fits hfits).fresh r' hr')
  · intro r' i hi values hvalues
    obtain ⟨hlt, hlength⟩ := (h.fits hfits).fields r' i (hback r' _ (by simp) hi) values hvalues
    exact ⟨hlt, fun o ho => hlength o (hback _ _ (by simp) ho)⟩
  · by_cases heq : r' = r
    · rw [heq, hself] at ho
      cases ho
      exact .inr ⟨heq ▸ hr, by simp⟩
    · exact h.heap r' o ((hother r' heq).symm.trans ho)

/-- No function with another arity is or will be at an address. -/
def Memory.HasArity (memory : Memory) (r : Ref) (arity : ℤ) : Prop :=
  r < memory.gc.nextRef ∧ ∀ f, memory.gc.heap r = some (.function f) → f.arity = arity

theorem Memory.Advances.hasArity {r : Ref} {arity : ℤ} (h : memory.Advances memory')
    (harity : memory.HasArity r arity) : memory'.HasArity r arity := by
  obtain ⟨hlt, hfunction⟩ := harity
  refine ⟨Nat.lt_of_lt_of_le hlt h.nextRef, fun f hf => ?_⟩
  rcases h.heap r _ hf with ⟨o, ho, hkept⟩ | ⟨hle, -⟩
  · cases hkept with
    | refl => exact hfunction f ho
    | function hsame => exact hsame.trans (hfunction _ ho)
  · exact absurd hlt (Nat.not_lt_of_le hle)

end Preorder

/-! ### Programs -/

namespace Mem

variable {α β : Type} {depth depth' : ℕ} {memory : Memory}

/-- A program that pops what it pushes. -/
def Evolving (depth : ℕ) (p : Mem α) : Prop := Stays (Memory.Evolves depth) p

/-- The same, for programs that leave something on the stack. -/
def Advancing (p : Mem α) : Prop := Stays Memory.Advances p

theorem bind_eq_some {p : Mem α} {f : α → Mem β} {b : β} {memory'' : Memory}
    (h : (p >>= f) memory = some (b, memory'')) :
    ∃ a memory', p memory = some (a, memory') ∧ f a memory' = some (b, memory'') :=
  Preorders.bind_eq_some h

theorem evolving_pure (a : α) : Evolving depth (pure a : Mem α) := stays_pure a

theorem Evolving.bind {p : Mem α} {f : α → Mem β} (hp : p.Evolving depth)
    (hf : ∀ a, (f a).Evolving depth) : (p >>= f).Evolving depth := Stays.bind hp hf

theorem Evolving.mono (hle : depth ≤ depth') {p : Mem α} (h : p.Evolving depth) :
    p.Evolving depth' :=
  fun memory a memory' hp => (h memory a memory' hp).mono hle

theorem Evolving.advancing {p : Mem α} (h : p.Evolving depth) : p.Advancing :=
  fun memory a memory' hp => (h memory a memory' hp).toAdvances

theorem advancing_pure (a : α) : Advancing (pure a : Mem α) := stays_pure a

theorem Advancing.bind {p : Mem α} {f : α → Mem β} (hp : p.Advancing)
    (hf : ∀ a, (f a).Advancing) : (p >>= f).Advancing := Stays.bind hp hf

theorem Advancing.forM {γ : Type*} {xs : List γ} {f : γ → Mem PUnit} (h : ∀ x, (f x).Advancing) :
    (xs.forM f).Advancing := Stays.forM h

theorem Advancing.mapM {xs : List β} {f : β → Mem α} (h : ∀ x, (f x).Advancing) :
    (xs.mapM f).Advancing := Stays.mapM h

theorem evolving_read (f : Memory → Option α) : (readMemory f).Evolving depth := stays_read f

theorem evolving_holding {p : Mem α} {f : α → β} {value : Value} (hp : p.Evolving depth) :
    Evolving (depth + 1) (do
      pushOnStack value
      let a ← p
      let _ ← popFromStack
      return f a) := by
  intro memory b memory'' h
  obtain ⟨_, memory₁, h₁, h⟩ := bind_eq_some h
  obtain ⟨a, memory₂, h₂, h⟩ := bind_eq_some h
  obtain ⟨_, memory₃, h₃, h⟩ := bind_eq_some h
  cases h₁
  cases h₃
  cases h
  exact (hp _ a memory₂ h₂).holding

end Mem

/-! ### Collection -/

section Collection

variable {gc gc' : GC}

/-- A relation between a collector's states that marking one object is in, and taking one off the
gray stack. -/
structure MarkStep (R : GC → GC → Prop) : Prop where
  refl : ∀ gc, R gc gc
  trans : ∀ {gc gc' gc''}, R gc gc' → R gc' gc'' → R gc gc''
  mark : ∀ {gc gc' r}, markObject gc r = some gc' → R gc gc'
  pop : ∀ gc rest, R gc { gc with grayStack := rest }

section Lifts

variable {R : GC → GC → Prop} (step : MarkStep R)
include step

theorem MarkStep.markAll {refs : List Ref} (h : markAll gc refs = some gc') : R gc gc' := by
  induction refs generalizing gc with
  | nil =>
    cases h
    exact step.refl _
  | cons r refs ih =>
    rw [markAll_cons] at h
    obtain ⟨gc₁, h₁, h₂⟩ := Option.bind_eq_some_iff.mp h
    exact step.trans (step.mark h₁) (ih h₂)

theorem MarkStep.markValue {value : Value} (h : markValue gc value = some gc') : R gc gc' :=
  step.markAll ((markValue_eq gc value).symm.trans h)

theorem MarkStep.markArray {values : List Value} (h : markArray gc values = some gc') : R gc gc' :=
  step.markAll ((markArray_eq gc values).symm.trans h)

theorem MarkStep.markTable {table : Table Ref Value} (h : markTable gc table = some gc') :
    R gc gc' := step.markAll ((markTable_eq gc table).symm.trans h)

theorem MarkStep.blackenObject {r : Ref} (h : blackenObject gc r = some gc') : R gc gc' := by
  unfold KirbyLang.Vm.blackenObject at h
  obtain ⟨o, -, h⟩ := Option.bind_eq_some_iff.mp h
  cases o with
  | struct_ o =>
    obtain ⟨gc₁, h₁, h⟩ := Option.bind_eq_some_iff.mp h
    obtain ⟨gc₂, h₂, h⟩ := Option.bind_eq_some_iff.mp h
    exact step.trans (step.trans (step.mark h₁) (step.markTable h₂)) (step.markTable h)
  | instance_ o =>
    obtain ⟨gc₁, h₁, h⟩ := Option.bind_eq_some_iff.mp h
    refine step.trans (step.mark h₁) ?_
    cases hfields : o.fields with
    | none =>
      simp only [hfields] at h
      cases h
      exact step.refl _
    | some fields =>
      simp only [hfields] at h
      obtain ⟨struct_, -, h⟩ := Option.bind_eq_some_iff.mp h
      by_cases hle : struct_.fieldCount ≤ fields.length
      · rw [if_pos hle] at h
        exact step.markArray h
      · rw [if_neg hle] at h
        cases h
  | boundMethod o =>
    obtain ⟨gc₁, h₁, h⟩ := Option.bind_eq_some_iff.mp h
    exact step.trans (step.markValue h₁) (step.mark h)
  | closure o =>
    obtain ⟨gc₁, h₁, h⟩ := Option.bind_eq_some_iff.mp h
    obtain ⟨gc₂, h₂, h⟩ := Option.bind_eq_some_iff.mp h
    exact step.trans (step.trans (step.mark h₁) (step.mark h₂)) (step.markAll h)
  | function o =>
    obtain ⟨gc₁, h₁, h⟩ := Option.bind_eq_some_iff.mp h
    exact step.trans (step.mark h₁) (step.markArray h)
  | native o =>
    cases h
    exact step.refl _
  | string o =>
    cases h
    exact step.refl _
  | upvalue o => exact step.markValue h
  | list o => exact step.markArray h
  | array o => exact step.markArray h

theorem MarkStep.traceReferences {rounds : ℕ} (h : traceReferences rounds gc = some gc') :
    R gc gc' := by
  induction rounds generalizing gc with
  | zero =>
    unfold KirbyLang.Vm.traceReferences at h
    split at h
    · cases h
      exact step.refl _
    · cases h
  | succ rounds ih =>
    unfold KirbyLang.Vm.traceReferences at h
    split at h
    next =>
      cases h
      exact step.refl _
    next object rest _ =>
      obtain ⟨gc₁, h₁, h⟩ := Option.bind_eq_some_iff.mp h
      exact step.trans (step.trans (step.pop gc rest) (step.blackenObject h₁)) (ih h)

end Lifts

theorem markStep_same : MarkStep SameButMarks :=
  ⟨.refl, .trans, markObject_same, fun _ _ => ⟨rfl, rfl, rfl, rfl, rfl, rfl, rfl⟩⟩

theorem markAll_same {refs : List Ref} (h : markAll gc refs = some gc') : SameButMarks gc gc' :=
  markStep_same.markAll h

theorem traceReferences_same {rounds : ℕ} (h : traceReferences rounds gc = some gc') :
    SameButMarks gc gc' := markStep_same.traceReferences h

/-- Marks stay. -/
def MarksGrow (gc gc' : GC) : Prop := ∀ r, gc.isMarked r = true → gc'.isMarked r = true

theorem markObject_marks {r : Ref} (h : markObject gc r = some gc') (hr : r ≠ null) :
    gc'.isMarked r = true := by
  unfold markObject at h
  rw [if_neg hr] at h
  cases hheap : gc.heap r with
  | none =>
    rw [hheap] at h
    cases h
  | some o =>
    rw [hheap] at h
    by_cases hmarked : gc.isMarked r = true
    · simp only [hmarked, if_true] at h
      cases h
      exact hmarked
    · simp only [hmarked] at h
      cases h
      exact Function.update_self ..

theorem markObject_grows {r : Ref} (h : markObject gc r = some gc') : MarksGrow gc gc' := by
  intro r' hr'
  by_cases hnull : r = null
  · unfold markObject at h
    rw [if_pos hnull] at h
    cases h
    exact hr'
  by_cases hrr : r' = r
  · subst hrr
    exact markObject_marks h hnull
  · unfold markObject at h
    rw [if_neg hnull] at h
    cases hheap : gc.heap r with
    | none =>
      rw [hheap] at h
      cases h
    | some o =>
      rw [hheap] at h
      by_cases hmarked : gc.isMarked r = true
      · simp only [hmarked, if_true] at h
        cases h
        exact hr'
      · simp only [hmarked] at h
        cases h
        exact (Function.update_of_ne hrr _ _).trans hr'

theorem markStep_grows : MarkStep MarksGrow :=
  ⟨fun _ _ => id, fun h h' r hr => h' r (h r hr), markObject_grows, fun _ _ _ => id⟩

theorem markAll_marks {refs : List Ref} (h : markAll gc refs = some gc') {r : Ref} (hr : r ∈ refs)
    (hnull : r ≠ null) : gc'.isMarked r = true := by
  induction refs generalizing gc with
  | nil => cases hr
  | cons r' refs ih =>
    rw [markAll_cons] at h
    obtain ⟨gc₁, h₁, h₂⟩ := Option.bind_eq_some_iff.mp h
    rcases List.mem_cons.mp hr with rfl | hr
    · exact markStep_grows.markAll h₂ r (markObject_marks h₁ hnull)
    · exact ih h₂ hr

/-- Sweeping takes objects from the heap and does nothing else to it. -/
theorem sweepLoop_heap {rest kept : List Ref} (h : sweepLoop kept rest gc = some gc') :
    gc'.nextRef = gc.nextRef ∧ ∀ r, gc'.heap r = none ∨ gc'.heap r = gc.heap r := by
  induction rest generalizing kept gc with
  | nil =>
    cases h
    exact ⟨rfl, fun _ => .inr rfl⟩
  | cons object rest ih =>
    unfold sweepLoop at h
    obtain ⟨_, -, h⟩ := Option.bind_eq_some_iff.mp h
    split at h
    · have hrest := ih h
      exact hrest
    · obtain ⟨gc₁, h₁, h⟩ := Option.bind_eq_some_iff.mp h
      obtain ⟨o, -, h₁⟩ := Option.bind_eq_some_iff.mp h₁
      obtain ⟨owned, -, h₁⟩ := Option.bind_eq_some_iff.mp h₁
      cases h₁
      obtain ⟨hnext, hheap⟩ := ih h
      refine ⟨hnext, fun r => ?_⟩
      rcases hheap r with hr | hr
      · exact .inl hr
      · by_cases heq : r = object
        · left
          rw [hr, heq]
          exact Function.update_self ..
        · right
          rw [hr]
          exact Function.update_of_ne heq _ _

theorem collectGarbage_evolves {memory memory' : Memory}
    (h : collectGarbage memory = some memory') {depth : ℕ} : memory.Evolves depth memory' := by
  obtain ⟨gc₁, h₁, h⟩ := Option.bind_eq_some_iff.mp h
  obtain ⟨gc₂, h₂, h⟩ := Option.bind_eq_some_iff.mp h
  obtain ⟨strings, -, h⟩ := Option.bind_eq_some_iff.mp h
  obtain ⟨gc₃, h₃, h⟩ := Option.bind_eq_some_iff.mp h
  cases h
  have hmarks : SameButMarks memory.gc gc₂ :=
    (markAll_same ((markVMRoots_eq memory).symm.trans h₁)).trans (traceReferences_same h₂)
  obtain ⟨hnext, hheap⟩ := sweepLoop_heap h₃
  have hnext' : gc₃.nextRef = memory.gc.nextRef := hnext.trans hmarks.nextRef
  have hheap' : ∀ r, gc₃.heap r = none ∨ gc₃.heap r = memory.gc.heap r := fun r => by
    rw [← hmarks.heap]
    exact hheap r
  have hlive : ∀ r o, gc₃.heap r = some o → memory.gc.heap r = some o := fun r o ho => by
    rcases hheap' r with hnone | hsame
    · exact absurd (hnone.symm.trans ho) (by simp)
    · exact hsame.symm.trans ho
  refine .ofGc (Nat.le_of_eq hnext'.symm) (fun hfits => ⟨fun r hr => ?_, ?_⟩)
    fun r o ho => .inl ⟨o, hlive r o ho, .refl o⟩
  · rcases hheap' r with hnone | hsame
    · exact hnone
    · exact hsame.trans (hfits.fresh r (hnext' ▸ hr))
  · intro r i hi values hvalues
    obtain ⟨hlt, hlength⟩ := hfits.fields r i (hlive r _ hi) values hvalues
    exact ⟨hnext'.symm ▸ hlt, fun o ho => hlength o (hlive _ _ ho)⟩

end Collection

/-! ### Allocation -/

namespace Mem

variable {α β : Type} {depth depth' : ℕ}

theorem evolving_reallocate (oldSize newSize : ℕ) : (reallocate oldSize newSize).Evolving depth := by
  intro memory a memory' h
  have hsame : ∀ gc : GC, gc.heap = memory.gc.heap → gc.nextRef = memory.gc.nextRef →
      memory.Evolves depth { memory with gc } := by
    intro gc hheap hnext
    refine .ofGc (Nat.le_of_eq hnext.symm) (fun hfits => ⟨?_, ?_⟩)
      fun r o ho => .inl ⟨o, hheap ▸ ho, .refl o⟩
    · rw [hheap, hnext]
      exact hfits.fresh
    · rw [hheap, hnext]
      exact hfits.fields
  unfold reallocate at h
  simp only at h
  split at h
  · split at h
    · obtain ⟨collected, hcollect, h⟩ := Option.bind_eq_some_iff.mp h
      cases h
      refine Memory.Evolves.trans ?_ (collectGarbage_evolves hcollect)
      exact hsame _ rfl rfl
    · cases h
      exact hsame _ rfl rfl
  · cases h
    exact hsame _ rfl rfl

theorem link_evolves (memory : Memory) {o : Obj} (hnew : o.IsNew) :
    memory.Evolves depth { memory with gc := memory.gc.link o } := by
  have hother : ∀ r ≠ memory.gc.nextRef, (memory.gc.link o).heap r = memory.gc.heap r :=
    fun r hne => Function.update_of_ne hne _ _
  have hself : (memory.gc.link o).heap memory.gc.nextRef = some o := Function.update_self ..
  refine .ofGc (Nat.le_succ _) (fun hfits => ⟨fun r hr => ?_, ?_⟩) fun r o' ho' => ?_
  · have hr' : memory.gc.nextRef + 1 ≤ r := hr
    rw [hother r (Nat.ne_of_gt hr')]
    exact hfits.fresh r (Nat.le_of_succ_le hr')
  · intro r i hi values hvalues
    by_cases heq : r = memory.gc.nextRef
    · rw [heq, hself] at hi
      cases hi
      exact absurd (hnew.symm.trans hvalues) (by simp)
    · rw [hother r heq] at hi
      obtain ⟨hlt, hlength⟩ := hfits.fields r i hi values hvalues
      refine ⟨Nat.lt_succ_of_lt hlt, fun s hs => hlength s ?_⟩
      rwa [hother _ (Nat.ne_of_lt hlt)] at hs
  · by_cases heq : r = memory.gc.nextRef
    · rw [heq, hself] at ho'
      cases ho'
      refine .inr ⟨Nat.le_of_eq heq.symm, ?_⟩
      rintro u rfl
      exact hnew
    · exact .inl ⟨o', (hother r heq).symm.trans ho', .refl o'⟩

instance : MemRule (Memory.Evolves depth) where
  reallocate := evolving_reallocate
  link := fun memory _ hnew _ => link_evolves memory hnew
  setObj := fun _ _ _ _ ho hkept _ => .setObj ho hkept

theorem evolving_allocateObject {o : Obj} (hnew : o.IsNew) : (allocateObject o).Evolving depth := by
  refine (evolving_reallocate 0 o.sizeof).bind fun _ => ?_
  intro memory a memory' h
  cases h
  exact link_evolves memory hnew

/-! ### Tables and strings -/

theorem write_evolves {memory memory' : Memory} {place : TablePlace} {table : Table Ref Value}
    (h : place.write memory table = some memory') : memory.Evolves depth memory' := by
  have hsame : ∀ memory' : Memory, memory'.stack = memory.stack → memory'.stackTop = memory.stackTop →
      memory'.frames = memory.frames → memory'.openUpvalues = memory.openUpvalues →
      memory'.trace = memory.trace → memory'.gc.heap = memory.gc.heap →
      memory'.gc.nextRef = memory.gc.nextRef → memory.Evolves depth memory' := by
    intro memory' hstack htop hframes hopen htrace hheap hnext
    refine ⟨⟨hframes, hopen, ⟨[], htrace, by simp⟩, Nat.le_of_eq hnext.symm,
      fun hfits => ⟨?_, ?_⟩, fun r o ho => .inl ⟨o, hheap ▸ ho, .refl o⟩⟩, htop,
      fun slot _ => congrFun hstack slot, [], htrace, by simp⟩
    · rw [hheap, hnext]
      exact hfits.fresh
    · rw [hheap, hnext]
      exact hfits.fields
  cases place with
  | strings =>
    cases h
    exact hsame _ rfl rfl rfl rfl rfl rfl rfl
  | globals =>
    cases h
    exact hsame _ rfl rfl rfl rfl rfl rfl rfl
  | methods struct_ =>
    obtain ⟨o, ho, h⟩ := Option.bind_eq_some_iff.mp h
    cases h
    exact .setObj (GC.struct?_eq_some.mp ho) (.struct_ rfl rfl rfl rfl)
  | fields struct_ =>
    obtain ⟨o, ho, h⟩ := Option.bind_eq_some_iff.mp h
    cases h
    exact .setObj (GC.struct?_eq_some.mp ho) (.struct_ rfl rfl rfl rfl)

theorem evolving_tableSet (place : TablePlace) (key : Ref) (value : Value) :
    (tableSet place key value).Evolving depth := stays_tableSet (fun _ _ _ => write_evolves) key value

theorem evolving_findString (chars : Bytes) : (findString chars).Evolving depth := by
  intro memory a memory' h
  obtain ⟨found, -, h⟩ := Option.bind_eq_some_iff.mp h
  cases h
  exact .refl memory

theorem evolving_allocateString (chars : Bytes) (hash : UInt32) :
    (allocateString chars hash).Evolving 1 :=
  (evolving_allocateObject (show Obj.IsNew (.string { chars, hash }) from trivial)).bind fun string =>
    evolving_holding (f := fun _ => string) (@evolving_tableSet 0 .strings string .nil)

theorem evolving_takeString (chars : Bytes) : (takeString chars).Evolving 1 := by
  refine (evolving_findString chars).bind fun found => ?_
  cases found with
  | some interned => exact (evolving_reallocate _ _).bind fun _ => evolving_pure _
  | none => exact evolving_allocateString _ _

theorem evolving_copyString (chars : Bytes) : (copyString chars).Evolving 1 := by
  refine (evolving_findString chars).bind fun found => ?_
  cases found with
  | some interned => exact evolving_pure _
  | none => exact (evolving_reallocate _ _).bind fun _ => evolving_allocateString _ _

/-! ### Constructors -/

theorem evolving_newBoundMethod (receiver : Value) (method : Ref) :
    (newBoundMethod receiver method).Evolving depth := stays_newBoundMethod receiver method

theorem evolving_newStruct (name : Ref) : (newStruct name).Evolving depth := stays_newStruct name

theorem evolving_newClosure (function : Ref) : (newClosure function).Evolving depth :=
  stays_newClosure function

theorem evolving_newFunction : newFunction.Evolving depth := stays_newFunction

theorem evolving_newNative (function : Bytes) : (newNative function).Evolving depth :=
  stays_newNative function

theorem evolving_newList : newList.Evolving depth := stays_newList

theorem evolving_newArray (count : ℕ) : (newArray count).Evolving depth := stays_newArray count

/-- What `newUpvalue` does that no other program does: an upvalue that is open is at a new address. -/
theorem newUpvalue_made {memory memory' : Memory} {slot : ℤ} {r : Ref}
    (h : newUpvalue slot memory = some (r, memory')) :
    ∃ memory₁, reallocate 0 (Obj.sizeof (.upvalue { location := .stack slot })) memory =
      some ((), memory₁) ∧ r = memory₁.gc.nextRef ∧ memory' =
      { memory₁ with gc := memory₁.gc.link (.upvalue { location := .stack slot }) } := by
  obtain ⟨_, memory₁, h₁, h⟩ := bind_eq_some h
  cases h
  exact ⟨memory₁, h₁, rfl, rfl⟩

/-- A new object is at an address that has not been given before. -/
theorem allocateObject_new {memory memory' : Memory} {o : Obj} {r : Ref}
    (h : allocateObject o memory = some (r, memory')) :
    memory.gc.nextRef ≤ r ∧ r < memory'.gc.nextRef ∧ memory'.gc.heap r = some o := by
  obtain ⟨_, memory₁, h₁, h⟩ := bind_eq_some h
  cases h
  exact ⟨(@evolving_reallocate 0 _ _ _ _ _ h₁).nextRef, Nat.lt_succ_self _, Function.update_self ..⟩

theorem evolving_newInstance (struct_ : Ref) : (newInstance struct_).Evolving 1 := by
  intro memory r memory' h
  obtain ⟨instance_, memory₁, h₁, h⟩ := bind_eq_some h
  obtain ⟨hnew, hlt, hmade'⟩ := allocateObject_new h₁
  have hmade : memory.Evolves 1 memory₁ :=
    evolving_allocateObject (show Obj.IsNew (.instance_ { struct_ }) from rfl) _ _ _ h₁
  obtain ⟨_, memory₂, h₂, h⟩ := bind_eq_some h
  cases h₂
  obtain ⟨o, memory₃, h₃, h⟩ := bind_eq_some h
  obtain ⟨_, ho, heq⟩ := Option.map_eq_some_iff.mp h₃
  cases heq
  by_cases hcount : 0 < o.fieldCount
  · rw [if_pos hcount] at h
    obtain ⟨_, memory₅, h₅, h⟩ := bind_eq_some h
    obtain ⟨i, memory₆, h₆, h⟩ := bind_eq_some h
    obtain ⟨_, hi, heq⟩ := Option.map_eq_some_iff.mp h₆
    cases heq
    cases h
    have hgrown : (memory₁.pushed (.obj r)).Evolves 0 memory₅ := evolving_reallocate _ _ _ _ _ h₅
    have hi' := instance?_eq_some hi
    have ho' := GC.struct?_eq_some.mp ho
    -- the instance is the one that was made, and its struct has kept its fields
    have hstruct : i = { struct_ } := by
      rcases hgrown.heap r _ hi' with ⟨o', hlive, hkept⟩ | ⟨hle, -⟩
      · have heq : o' = .instance_ { struct_ } := Option.some.inj (hlive.symm.trans hmade')
        subst heq
        cases hkept
        rfl
      · exact absurd hle (Nat.not_le_of_lt hlt)
    subst hstruct
    refine (hmade.trans (Memory.Evolves.holding hgrown)).setFields hnew hi' fun hfits => ?_
    have hlt' : struct_ < memory₁.gc.nextRef := (hmade.fits hfits).lt ho'
    refine ⟨Nat.lt_of_lt_of_le hlt' hgrown.nextRef, fun s hs => ?_⟩
    rcases hgrown.heap _ _ hs with ⟨o', hlive, hkept⟩ | ⟨hle, -⟩
    · have heq : o' = .struct_ o := Option.some.inj (hlive.symm.trans ho')
      subst heq
      cases hkept with
      | refl => simp
      | struct_ _ hcount' _ _ => simp [hcount']
    · exact absurd hle (Nat.not_le_of_lt hlt')
  · rw [if_neg hcount] at h
    cases h
    exact hmade.trans (Memory.Evolves.holding (.refl _))

/-! ### Growing arrays -/

theorem evolving_setListValues (list : Ref) (values : List Value) :
    (setListValues list values).Evolving depth := stays_setListValues list values

theorem evolving_setArrayValues (array : Ref) (values : List Value) :
    (setArrayValues array values).Evolving depth := stays_setArrayValues array values

theorem evolving_writeValueToListObj (list : Ref) (value : Value) :
    (writeValueToListObj list value).Evolving depth := stays_writeValueToListObj list value

theorem evolving_writeConstant (function : Ref) (value : Value) :
    (writeConstant function value).Evolving depth := stays_writeConstant function value

/-! ### The loader -/

theorem advancing_push (value : Value) : (pushOnStack value).Advancing := by
  intro memory a memory' h
  cases h
  exact .pushed memory value

theorem advancing_pop : popFromStack.Advancing := by
  intro memory a memory' h
  cases h
  exact .popped memory 1

theorem evolving_functionOf (byIndex : List Ref) (functionIndex : ℤ) :
    (functionOf byIndex functionIndex).Evolving depth := stays_functionOf byIndex functionIndex

theorem evolving_forM {xs : List β} {f : β → Mem PUnit} (h : ∀ x, (f x).Evolving depth) :
    (xs.forM f).Evolving depth := Stays.forM h

theorem evolving_resolveConst (compiledUnit : CompiledUnit) (byIndex : List Ref) (function : Ref)
    (constant : CompiledConst) : (resolveConst compiledUnit byIndex function constant).Evolving 1 :=
  Evolving.bind (stays_resolveConstToValue evolving_copyString compiledUnit byIndex constant)
    fun resolvedValue =>
    evolving_holding (f := fun _ => ()) (@evolving_writeConstant 0 function resolvedValue)

theorem evolving_resolveConsts (compiledUnit : CompiledUnit) (byIndex : List Ref) :
    (resolveConstsInFunctionsToValues compiledUnit byIndex).Evolving 1 :=
  evolving_forM fun _ => evolving_forM fun constant =>
    evolving_resolveConst compiledUnit byIndex _ constant

/-- What the loader makes is on the stack afterwards, and has the arity that the unit says. -/
theorem allocateFunction_made {compiledUnit : CompiledUnit} {compiledFn : CompiledFn}
    {memory memory' : Memory} {function : Ref}
    (h : allocateFunction compiledUnit compiledFn memory = some (function, memory')) :
    memory.Advances memory' ∧ memory'.HasArity function compiledFn.arity := by
  obtain ⟨function', memory₁, h₁, h⟩ := bind_eq_some h
  obtain ⟨hnew, hlt, hmade⟩ := allocateObject_new h₁
  have hadvances₁ : memory.Advances memory₁ := (@evolving_newFunction 0 _ _ _ h₁).toAdvances
  obtain ⟨_, memory₂, h₂, h⟩ := bind_eq_some h
  cases h₂
  obtain ⟨o, memory₃, h₃, h⟩ := bind_eq_some h
  obtain ⟨_, -, heq⟩ := Option.map_eq_some_iff.mp h₃
  cases heq
  obtain ⟨_, memory₄, h₄, h⟩ := bind_eq_some h
  cases h₄
  have hadvances₂ := (hadvances₁.trans (.pushed memory₁ (.obj function'))).setFunction hnew hmade
    { o with
      arity := compiledFn.arity
      upvalueCount := compiledFn.upvalueCount
      isStatic := compiledFn.isStatic
      isPublic := compiledFn.isPublic }
  have hrest : Memory.Evolves 1 _ memory' :=
    stays_nameAndCode evolving_copyString compiledUnit compiledFn function' _ _ _ h
  have hsame : function = function' := by
    dsimp only at h
    split at h
    · obtain ⟨_, _, -, h⟩ := bind_eq_some h
      obtain ⟨_, _, -, h⟩ := bind_eq_some h
      obtain ⟨_, _, -, h⟩ := bind_eq_some h
      obtain ⟨_, _, -, h⟩ := bind_eq_some h
      cases h
      rfl
    · obtain ⟨_, _, -, h⟩ := bind_eq_some h
      cases h
      rfl
  subst hsame
  refine ⟨hadvances₂.trans hrest.toAdvances, hrest.toAdvances.hasArity ⟨hlt, fun f hf => ?_⟩⟩
  cases (Function.update_self .. : Function.update memory₁.gc.heap function _ function = _).symm.trans hf
  rfl

theorem advancing_allocateFunction (compiledUnit : CompiledUnit) (compiledFn : CompiledFn) :
    (allocateFunction compiledUnit compiledFn).Advancing :=
  fun _ _ _ h => (allocateFunction_made h).1

theorem advancing_cleanup (n : ℕ) : (cleanupFromAllocatingFunctions n).Advancing := by
  induction n with
  | zero => exact advancing_pure ()
  | succ n ih => exact advancing_pop.bind fun _ => ih

theorem advancing_loadUnit (compiledUnit : CompiledUnit) : (loadUnit compiledUnit).Advancing :=
  (Advancing.mapM fun compiledFn => advancing_allocateFunction compiledUnit compiledFn).bind
    fun byIndex => (evolving_resolveConsts compiledUnit byIndex).advancing.bind fun _ =>
      (advancing_cleanup _).bind fun _ => (@evolving_functionOf 0 byIndex 0).advancing

/-- The script has the arity of the first function of the unit. -/
theorem loadUnit_hasArity {compiledUnit : CompiledUnit} {memory memory' : Memory} {function : Ref}
    (h : loadUnit compiledUnit memory = some (function, memory')) :
    ∃ compiledFn, compiledUnit.functions[0]? = some compiledFn ∧
      memory'.HasArity function compiledFn.arity := by
  obtain ⟨byIndex, memory₁, h₁, h⟩ := bind_eq_some h
  obtain ⟨_, memory₂, h₂, h⟩ := bind_eq_some h
  obtain ⟨_, memory₃, h₃, h⟩ := bind_eq_some h
  have hafter : memory₁.Advances memory' :=
    ((evolving_resolveConsts compiledUnit byIndex _ _ _ h₂).toAdvances.trans
      (advancing_cleanup _ _ _ _ h₃)).trans (@evolving_functionOf 0 byIndex 0 _ _ _ h).toAdvances
  have hhead : byIndex[0]? = some function := by
    unfold functionOf at h
    rw [if_neg (by decide)] at h
    obtain ⟨_, hhead, heq⟩ := Option.map_eq_some_iff.mp h
    cases heq
    exact hhead
  unfold allocateFunctions at h₁
  cases hfunctions : compiledUnit.functions with
  | nil =>
    rw [hfunctions] at h₁
    cases h₁
    cases hhead
  | cons compiledFn rest =>
    rw [hfunctions, List.mapM_cons] at h₁
    obtain ⟨first, memory₄, hfirst, h₁⟩ := bind_eq_some h₁
    obtain ⟨others, memory₅, hothers, h₁⟩ := bind_eq_some h₁
    cases h₁
    cases hhead
    obtain ⟨-, harity⟩ := allocateFunction_made hfirst
    have hrest := Advancing.mapM (fun fn => advancing_allocateFunction compiledUnit fn) _ _ _ hothers
    exact ⟨compiledFn, rfl, (hrest.trans hafter).hasArity harity⟩

end Mem

end KirbyLang.Vm
