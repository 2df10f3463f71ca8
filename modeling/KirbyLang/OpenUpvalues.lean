import KirbyLang.Interning
import KirbyLang.Interpreter
import KirbyLang.Spared
import Mathlib.Data.List.TakeWhile

/-!
# Open upvalues

The list of open upvalues over any sequence of captures and closings, between which the stack is
written, pushed to and popped, and variables are written through their upvalues. The collector may
run in each capture.

* `UpvalueCall`, `UpvalueRun`: one call, and any number of calls;
* `Memory.OpenList`: the list goes down the stack, and has every open upvalue on it;
* `Memory.closedFrom`: all upvalues at or above a slot closed at once;
* `upvalues_shared`: a variable is one cell, before and after it has left its scope.
-/

namespace KirbyLang.Vm

variable {memory memory' : Memory} {gc gc' : GC} {r r' : Ref} {slot slot' last : ℤ}

/-! ### A new upvalue -/

/-- What `newUpvalue` does when it succeeds: an open upvalue at a new address, and no other object
but those that the collector has freed is any different. -/
structure Opened (slot : ℤ) (memory : Memory) (r : Ref) (memory' : Memory) : Prop where
  rest : memory' = { memory with gc := memory'.gc }
  tidy : memory'.gc.Tidy
  fresh : memory.gc.heap r = none
  created : memory'.gc.heap r = some (.upvalue { location := .stack slot })
  open_kept : ∀ r' ∈ memory.openUpvalues, r' ≠ r → memory'.gc.heap r' = memory.gc.heap r'
  sub : ∀ r' o, r' ≠ r → memory'.gc.heap r' = some o → memory.gc.heap r' = some o

theorem newUpvalue_opened (h : newUpvalue slot memory = some (r, memory')) (tidy : memory.gc.Tidy) :
    Opened slot memory r memory' := by
  obtain ⟨_, memory₁, h₁, h₂⟩ := Mem.bind_eq_some h
  cases h₂
  obtain ⟨hspared, -⟩ := reallocate_spared h₁ tidy
  have hother : ∀ r' ≠ memory₁.gc.nextRef,
      (memory₁.gc.link (.upvalue { location := .stack slot })).heap r' = memory₁.gc.heap r' :=
    fun r' hne => Function.update_of_ne hne _ _
  refine ⟨?_, hspared.tidy.link _, ?_, ?_, fun r' hr' hne => ?_, fun r' o hne ho => ?_⟩
  · rw [hspared.rest]
  · rw [hspared.nextRef]
    exact tidy.fresh (Nat.le_refl _)
  · exact Function.update_self ..
  · exact (hother r' hne).trans (hspared.kept r' (Memory.mem_rootRefs.mpr (.openUpvalue hr')))
  · exact hspared.sub r' o ((hother r' hne).symm.trans ho)

/-! ### The list -/

/-- The open upvalues from the top of the stack down: all of them, and one for a slot. -/
structure Memory.OpenList (memory : Memory) : Prop where
  descending : memory.openUpvalues.Pairwise fun r r' => ∀ slot slot',
    memory.gc.upvalueSlot r = some slot → memory.gc.upvalueSlot r' = some slot' → slot' < slot
  mem_iff : ∀ r, r ∈ memory.openUpvalues ↔ ∃ slot, memory.gc.upvalueSlot r = some slot

theorem upvalueSlot_eq_some_iff {gc : GC} :
    gc.upvalueSlot r = some slot ↔
      ∃ closed, gc.heap r = some (.upvalue { location := .stack slot, closed }) := by
  unfold GC.upvalueSlot GC.upvalue?
  cases hheap : gc.heap r with
  | none => simp
  | some o =>
    cases o with
    | upvalue o =>
      obtain ⟨location, closed⟩ := o
      cases location <;> simp [Obj.upvalue?]
    | _ => simp [Obj.upvalue?]

/-- An upvalue is where it was as long as its object is what it was. -/
theorem upvalueSlot_congr (h : gc'.heap r = gc.heap r) : gc'.upvalueSlot r = gc.upvalueSlot r := by
  unfold GC.upvalueSlot GC.upvalue?
  rw [h]

theorem isAbove_iff : gc.isAbove slot r = true ↔ ∃ slot', gc.upvalueSlot r = some slot' ∧ slot < slot' := by
  unfold GC.isAbove
  cases gc.upvalueSlot r <;> simp

namespace Memory.OpenList

theorem mem (h : memory.OpenList) (hr : memory.gc.upvalueSlot r = some slot) :
    r ∈ memory.openUpvalues := (h.mem_iff r).mpr ⟨slot, hr⟩

/-- A slot has at most one open upvalue. -/
theorem unique (h : memory.OpenList) (hr : memory.gc.upvalueSlot r = some slot)
    (hr' : memory.gc.upvalueSlot r' = some slot) : r = r' := by
  have hpairs := List.pairwise_iff_getElem.mp h.descending
  obtain ⟨i, hi, hri⟩ := List.mem_iff_getElem.mp (h.mem hr)
  obtain ⟨j, hj, hrj⟩ := List.mem_iff_getElem.mp (h.mem hr')
  subst hri
  subst hrj
  rcases Nat.lt_trichotomy i j with hlt | rfl | hgt
  · exact absurd (hpairs i j hi hj hlt slot slot hr hr') (lt_irrefl _)
  · rfl
  · exact absurd (hpairs j i hj hi hgt slot slot hr' hr) (lt_irrefl _)

/-- Beyond the upvalues above a slot come those at it and below it. -/
theorem le_of_mem_rest (h : memory.OpenList)
    (hr : r ∈ memory.openUpvalues.dropWhile (memory.gc.isAbove slot))
    (hslot : memory.gc.upvalueSlot r = some slot') : slot' ≤ slot := by
  have hpairs := h.descending.sublist (List.dropWhile_sublist (memory.gc.isAbove slot))
  cases hrest : memory.openUpvalues.dropWhile (memory.gc.isAbove slot) with
  | nil =>
    rw [hrest] at hr
    cases hr
  | cons first rest =>
    have hfirst : memory.gc.isAbove slot first = false := by
      have hnot := List.head?_dropWhile_not (memory.gc.isAbove slot) memory.openUpvalues
      rw [hrest] at hnot
      exact hnot
    have hmem : first ∈ memory.openUpvalues :=
      (List.dropWhile_sublist _).subset (hrest ▸ List.mem_cons_self)
    obtain ⟨top, htop⟩ := (h.mem_iff first).mp hmem
    have hle : top ≤ slot := by
      by_contra hlt
      rw [isAbove_iff.mpr ⟨top, htop, by omega⟩] at hfirst
      cases hfirst
    rw [hrest] at hr hpairs
    rcases List.mem_cons.mp hr with rfl | hr
    · rw [htop] at hslot
      cases hslot
      exact hle
    · have hlt := (List.pairwise_cons.mp hpairs).1 r hr top slot' htop hslot
      omega

/-- The walk of `captureUpvalue` stops at the upvalue of the slot, if there is one. -/
theorem head?_rest (h : memory.OpenList) (hr : memory.gc.upvalueSlot r = some slot) :
    (memory.openUpvalues.dropWhile (memory.gc.isAbove slot)).head? = some r := by
  have hmem : r ∈ memory.openUpvalues.takeWhile (memory.gc.isAbove slot) ++
      memory.openUpvalues.dropWhile (memory.gc.isAbove slot) := by
    rw [List.takeWhile_append_dropWhile]
    exact h.mem hr
  have hrest : r ∈ memory.openUpvalues.dropWhile (memory.gc.isAbove slot) := by
    rcases List.mem_append.mp hmem with htake | hdrop
    · obtain ⟨s, hs, hlt⟩ := isAbove_iff.mp (List.mem_takeWhile_imp htake)
      rw [hr] at hs
      cases hs
      exact absurd hlt (lt_irrefl _)
    · exact hdrop
  have hpairs := h.descending.sublist (List.dropWhile_sublist (memory.gc.isAbove slot))
  cases hlist : memory.openUpvalues.dropWhile (memory.gc.isAbove slot) with
  | nil =>
    rw [hlist] at hrest
    cases hrest
  | cons first rest =>
    have hfirst : first ∈ memory.openUpvalues.dropWhile (memory.gc.isAbove slot) := by
      rw [hlist]
      exact List.mem_cons_self
    obtain ⟨top, htop⟩ := (h.mem_iff first).mp ((List.dropWhile_sublist _).subset hfirst)
    have hle := h.le_of_mem_rest hfirst htop
    rw [hlist] at hrest hpairs
    rcases List.mem_cons.mp hrest with rfl | hrest
    · rfl
    · have hlt := (List.pairwise_cons.mp hpairs).1 r hrest top slot htop hr
      omega

/-- The list with a new upvalue in its place. -/
theorem create (h : memory.OpenList) (hnone : ∀ r', memory.gc.upvalueSlot r' ≠ some slot)
    (opened : Opened slot memory r memory') :
    Memory.OpenList { memory' with
      openUpvalues := memory.openUpvalues.takeWhile (memory.gc.isAbove slot) ++
        r :: memory.openUpvalues.dropWhile (memory.gc.isAbove slot) } := by
  have hnew : memory'.gc.upvalueSlot r = some slot := upvalueSlot_eq_some_iff.mpr ⟨_, opened.created⟩
  have hne : ∀ r' ∈ memory.openUpvalues, r' ≠ r := by
    rintro r' hr' rfl
    obtain ⟨slot', hslot'⟩ := (h.mem_iff r').mp hr'
    obtain ⟨closed, hheap⟩ := upvalueSlot_eq_some_iff.mp hslot'
    rw [opened.fresh] at hheap
    cases hheap
  have hold : ∀ r' ∈ memory.openUpvalues,
      memory'.gc.upvalueSlot r' = memory.gc.upvalueSlot r' := fun r' hr' =>
    upvalueSlot_congr (opened.open_kept r' hr' (hne r' hr'))
  have hpart : ∀ part : List Ref, part.Sublist memory.openUpvalues →
      part.Pairwise fun a b => ∀ s s', memory'.gc.upvalueSlot a = some s →
        memory'.gc.upvalueSlot b = some s' → s' < s := by
    intro part hsub
    refine (h.descending.sublist hsub).imp_of_mem fun ha hb hab s s' hs hs' => ?_
    rw [hold _ (hsub.subset ha)] at hs
    rw [hold _ (hsub.subset hb)] at hs'
    exact hab s s' hs hs'
  have htake := @List.takeWhile_sublist _ memory.openUpvalues (memory.gc.isAbove slot)
  have hdrop := @List.dropWhile_sublist _ memory.openUpvalues (memory.gc.isAbove slot)
  have habove : ∀ a ∈ memory.openUpvalues.takeWhile (memory.gc.isAbove slot), ∀ s,
      memory'.gc.upvalueSlot a = some s → slot < s := by
    intro a ha s hs
    obtain ⟨s', hs', hlt⟩ := isAbove_iff.mp (List.mem_takeWhile_imp ha)
    rw [hold a (htake.subset ha), hs'] at hs
    cases hs
    exact hlt
  have hbelow : ∀ a ∈ memory.openUpvalues.dropWhile (memory.gc.isAbove slot), ∀ s,
      memory'.gc.upvalueSlot a = some s → s < slot := by
    intro a ha s hs
    rw [hold a (hdrop.subset ha)] at hs
    have hle := h.le_of_mem_rest ha hs
    rcases lt_or_eq_of_le hle with hlt | rfl
    · exact hlt
    · exact absurd hs (hnone a)
  constructor
  · show List.Pairwise _ (_ ++ _)
    rw [List.pairwise_append, List.pairwise_cons]
    refine ⟨hpart _ htake, ⟨fun b hb s s' hs hs' => ?_, hpart _ hdrop⟩, fun a ha b hb s s' hs hs' => ?_⟩
    · rw [hnew] at hs
      cases hs
      exact hbelow b hb s' hs'
    · have hlt := habove a ha s hs
      rcases List.mem_cons.mp hb with rfl | hb
      · rw [hnew] at hs'
        cases hs'
        exact hlt
      · exact lt_trans (hbelow b hb s' hs') hlt
  · intro r'
    have hlist : r' ∈ memory.openUpvalues.takeWhile (memory.gc.isAbove slot) ++
        r :: memory.openUpvalues.dropWhile (memory.gc.isAbove slot) ↔
          r' = r ∨ r' ∈ memory.openUpvalues := by
      conv => rhs; rw [← @List.takeWhile_append_dropWhile _ (memory.gc.isAbove slot) memory.openUpvalues]
      simp only [List.mem_append, List.mem_cons]
      tauto
    refine hlist.trans ⟨?_, ?_⟩
    · rintro (rfl | hr')
      · exact ⟨slot, hnew⟩
      · obtain ⟨s, hs⟩ := (h.mem_iff r').mp hr'
        exact ⟨s, (hold r' hr').trans hs⟩
    · rintro ⟨s, hs⟩
      by_cases heq : r' = r
      · exact .inl heq
      · obtain ⟨closed, hheap⟩ := upvalueSlot_eq_some_iff.mp hs
        exact .inr (h.mem (upvalueSlot_eq_some_iff.mpr ⟨closed, opened.sub r' _ heq hheap⟩))

end Memory.OpenList

/-! ### Capturing -/

variable {vm vm' : VM} {value : Value}

theorem get_bind {α : Type} (f : VM → M α) (vm : VM) : (get >>= f) vm = f vm vm := rfl

theorem captureUpvalue_of_head
    (hrest : (vm.openUpvalues.dropWhile (vm.gc.isAbove slot)).head? = some r)
    (hslot : vm.gc.upvalueSlot r = some slot) : captureUpvalue slot vm = (.ok r, vm) := by
  unfold captureUpvalue
  rw [get_bind, hrest]
  show (if vm.gc.upvalueSlot r = some slot then _ else _ : M Ref) vm = _
  rw [if_pos hslot]
  rfl

/-- The machine with a new upvalue in its list. -/
def VM.created (vm : VM) (slot : ℤ) (r : Ref) (memory : Memory) : VM :=
  { vm with
    toMemory := { memory with
      openUpvalues := vm.openUpvalues.takeWhile (vm.gc.isAbove slot) ++
        r :: vm.openUpvalues.dropWhile (vm.gc.isAbove slot) } }

/-- A capture where the slot has no upvalue makes one. -/
theorem captureUpvalue_of_not_open (hnone : ∀ r', vm.gc.upvalueSlot r' ≠ some slot) :
    captureUpvalue slot vm =
      match newUpvalue slot vm.toMemory with
      | some (r, memory) => (.ok r, vm.created slot r memory)
      | none => (.error .fault, vm) := by
  have hcreate : captureUpvalue slot vm = captureUpvalue.create slot
      (vm.openUpvalues.takeWhile (vm.gc.isAbove slot))
      (vm.openUpvalues.dropWhile (vm.gc.isAbove slot)) vm := by
    unfold captureUpvalue
    rw [get_bind]
    cases (vm.openUpvalues.dropWhile (vm.gc.isAbove slot)).head? with
    | none => rfl
    | some upvalue =>
      show (if vm.gc.upvalueSlot upvalue = some slot then _ else _ : M Ref) vm = _
      rw [if_neg (hnone upvalue)]
  rw [hcreate]
  unfold captureUpvalue.create
  cases hnew : newUpvalue slot vm.toMemory with
  | none =>
    have hlift : liftMem (newUpvalue slot) vm = (.error .fault, vm) := by
      unfold liftMem
      rw [hnew]
    simp only [bind, ExceptT.bind, ExceptT.mk, StateT.bind, hlift]
    rfl
  | some result =>
    have hlift : liftMem (newUpvalue slot) vm = (.ok result.1, { vm with toMemory := result.2 }) := by
      unfold liftMem
      rw [hnew]
    simp only [bind, ExceptT.bind, ExceptT.mk, StateT.bind, hlift]
    rfl

/-- The upvalues in order: what every call keeps. -/
structure Memory.Ordered (memory : Memory) : Prop extends memory.OpenList where
  tidy : memory.gc.Tidy

/-- A slot that has an upvalue is captured by giving it out again. -/
theorem Memory.Ordered.captureUpvalue_again (h : vm.toMemory.Ordered)
    (hr : vm.gc.upvalueSlot r = some slot) : captureUpvalue slot vm = (.ok r, vm) :=
  captureUpvalue_of_head (h.head?_rest hr) hr

/-- What a capture comes to: the upvalue of the slot, or a new one in its place. -/
theorem Memory.Ordered.captureUpvalue_cases (h : vm.toMemory.Ordered)
    (hcapture : captureUpvalue slot vm = (.ok r, vm')) :
    vm.gc.upvalueSlot r = some slot ∧ vm' = vm ∨
      (∀ r', vm.gc.upvalueSlot r' ≠ some slot) ∧ ∃ memory, Opened slot vm.toMemory r memory ∧
        vm' = vm.created slot r memory := by
  by_cases hopen : ∃ r', vm.gc.upvalueSlot r' = some slot
  · obtain ⟨r', hr'⟩ := hopen
    rw [h.captureUpvalue_again hr'] at hcapture
    cases hcapture
    exact .inl ⟨hr', rfl⟩
  · have hnone : ∀ r', vm.gc.upvalueSlot r' ≠ some slot := fun r' hr' => hopen ⟨r', hr'⟩
    rw [captureUpvalue_of_not_open hnone] at hcapture
    cases hnew : newUpvalue slot vm.toMemory with
    | none =>
      rw [hnew] at hcapture
      cases hcapture
    | some result =>
      rw [hnew] at hcapture
      cases hcapture
      exact .inr ⟨hnone, result.2, newUpvalue_opened hnew h.tidy, rfl⟩

theorem Memory.Ordered.capture (h : vm.toMemory.Ordered)
    (hcapture : captureUpvalue slot vm = (.ok r, vm')) :
    vm'.toMemory.Ordered ∧ vm'.gc.upvalueSlot r = some slot ∧ vm'.stack = vm.stack ∧
      (∀ r' slot', vm.gc.upvalueSlot r' = some slot' → vm'.gc.upvalueSlot r' = some slot') ∧
      ∀ r' o, r' ≠ r → vm'.gc.heap r' = some o → vm.gc.heap r' = some o := by
  rcases h.captureUpvalue_cases hcapture with ⟨hr, rfl⟩ | ⟨hnone, memory, opened, rfl⟩
  · exact ⟨h, hr, rfl, fun _ _ hr' => hr', fun _ _ _ ho => ho⟩
  · refine ⟨⟨h.toOpenList.create hnone opened, opened.tidy⟩,
      upvalueSlot_eq_some_iff.mpr ⟨_, opened.created⟩, ?_, fun r' slot' hr' => ?_, opened.sub⟩
    · show memory.stack = vm.stack
      rw [opened.rest]
    · have hne : r' ≠ r := by
        rintro rfl
        obtain ⟨closed, hheap⟩ := upvalueSlot_eq_some_iff.mp hr'
        rw [opened.fresh] at hheap
        cases hheap
      show memory.gc.upvalueSlot r' = some slot'
      rw [upvalueSlot_congr (opened.open_kept r' (h.mem hr') hne)]
      exact hr'

/-! ### Closing -/

/-- The object at an address once the upvalues at or above a slot are closed. -/
def Memory.closedObj (memory : Memory) (last : ℤ) (r : Ref) : Option Obj :=
  match memory.gc.upvalueSlot r with
  | some slot =>
    if last ≤ slot then some (.upvalue { location := .closed, closed := memory.stack slot })
    else memory.gc.heap r
  | none => memory.gc.heap r

/-- The memory once they are closed, all at once. -/
def Memory.closedFrom (memory : Memory) (last : ℤ) : Memory :=
  { memory with
    gc := { memory.gc with heap := memory.closedObj last }
    openUpvalues := memory.openUpvalues.filter fun r => !memory.gc.isAbove (last - 1) r }

theorem closedObj_of_at (hr : memory.gc.upvalueSlot r = some slot) (hle : last ≤ slot) :
    memory.closedObj last r =
      some (.upvalue { location := .closed, closed := memory.stack slot }) := by
  simp [Memory.closedObj, hr, hle]

theorem closedObj_of_below (h : ∀ slot, memory.gc.upvalueSlot r = some slot → slot < last) :
    memory.closedObj last r = memory.gc.heap r := by
  unfold Memory.closedObj
  cases hr : memory.gc.upvalueSlot r with
  | none => rfl
  | some slot => exact if_neg (Int.not_le.mpr (h slot hr))

theorem closedObj_eq_none : memory.closedObj last r = none ↔ memory.gc.heap r = none := by
  unfold Memory.closedObj
  cases hr : memory.gc.upvalueSlot r with
  | none => rfl
  | some slot =>
    obtain ⟨closed, hheap⟩ := upvalueSlot_eq_some_iff.mp hr
    dsimp only
    split <;> simp [hheap]

/-- The loop closes from the front of a list that goes down the stack, and stops below `last`. -/
theorem closeUpvaluesLoop_eq {upvalues : List Ref}
    (hopen : ∀ r ∈ upvalues, ∃ slot, memory.gc.upvalueSlot r = some slot)
    (hdesc : upvalues.Pairwise fun r r' => ∀ slot slot',
      memory.gc.upvalueSlot r = some slot → memory.gc.upvalueSlot r' = some slot' → slot' < slot) :
    closeUpvaluesLoop last upvalues memory =
      { memory with
        gc := { memory.gc with
          heap := fun r => if r ∈ upvalues then memory.closedObj last r else memory.gc.heap r }
        openUpvalues := upvalues.filter fun r => !memory.gc.isAbove (last - 1) r } := by
  induction upvalues generalizing memory with
  | nil => simp [closeUpvaluesLoop]
  | cons first rest ih =>
    obtain ⟨hfirst, hrest⟩ := List.pairwise_cons.mp hdesc
    obtain ⟨top, htop⟩ := hopen first List.mem_cons_self
    unfold closeUpvaluesLoop
    simp only [htop]
    by_cases hle : last ≤ top
    · rw [if_pos hle]
      let closed : Obj := .upvalue { location := .closed, closed := memory.stack top }
      have hne : ∀ r ∈ rest, r ≠ first := by
        rintro r hr rfl
        exact absurd (hfirst r hr top top htop htop) (lt_irrefl _)
      have hsame : ∀ r ∈ rest, (memory.setObj first closed).gc.upvalueSlot r =
          memory.gc.upvalueSlot r := fun r hr =>
        upvalueSlot_congr (Function.update_of_ne (hne r hr) _ _)
      have hloop := @ih (memory.setObj first closed)
        (fun r hr => by
          obtain ⟨slot, hslot⟩ := hopen r (List.mem_cons_of_mem _ hr)
          exact ⟨slot, (hsame r hr).trans hslot⟩)
        (hrest.imp_of_mem fun ha hb hab s s' hs hs' =>
          hab s s' ((hsame _ ha).symm.trans hs) ((hsame _ hb).symm.trans hs'))
      rw [hloop]
      have habove : memory.gc.isAbove (last - 1) first = true :=
        isAbove_iff.mpr ⟨top, htop, by omega⟩
      have hfilter : (first :: rest).filter (fun r => !memory.gc.isAbove (last - 1) r) =
          rest.filter fun r => !(memory.setObj first closed).gc.isAbove (last - 1) r := by
        rw [List.filter_cons_of_neg (by simp [habove])]
        apply List.filter_congr
        intro r hr
        unfold GC.isAbove
        rw [hsame r hr]
      have hheap : (fun r => if r ∈ rest then (memory.setObj first closed).closedObj last r
            else (memory.setObj first closed).gc.heap r) =
          fun r => if r ∈ first :: rest then memory.closedObj last r else memory.gc.heap r := by
        funext r
        by_cases hr : r ∈ rest
        · rw [if_pos hr, if_pos (List.mem_cons_of_mem _ hr)]
          unfold Memory.closedObj
          rw [hsame r hr]
          have hkept : (memory.setObj first closed).gc.heap r = memory.gc.heap r :=
            Function.update_of_ne (hne r hr) _ _
          rw [hkept]
          rfl
        · rw [if_neg hr]
          by_cases heq : r = first
          · subst heq
            rw [if_pos List.mem_cons_self, closedObj_of_at htop hle]
            exact Function.update_self ..
          · rw [if_neg (by simp [heq, hr])]
            exact Function.update_of_ne heq _ _
      rw [hfilter, hheap]
      rfl
    · rw [if_neg hle]
      have hbelow : ∀ r ∈ first :: rest, ∀ slot, memory.gc.upvalueSlot r = some slot →
          slot < last := by
        intro r hr slot hslot
        rcases List.mem_cons.mp hr with rfl | hr
        · rw [htop] at hslot
          cases hslot
          omega
        · have := hfirst r hr top slot htop hslot
          omega
      have hheap : (fun r => if r ∈ first :: rest then memory.closedObj last r
          else memory.gc.heap r) = memory.gc.heap := by
        funext r
        split
        · rename_i hr
          exact closedObj_of_below (hbelow r hr)
        · rfl
      have hfilter : (first :: rest).filter (fun r => !memory.gc.isAbove (last - 1) r) =
          first :: rest := by
        rw [List.filter_eq_self]
        intro r hr
        by_contra habove
        obtain ⟨slot, hslot, hlt⟩ := isAbove_iff.mp (by simpa using habove)
        have := hbelow r hr slot hslot
        omega
      rw [hheap, hfilter]

theorem Memory.OpenList.closeUpvaluesLoop (h : memory.OpenList) (last : ℤ) :
    closeUpvaluesLoop last memory.openUpvalues memory = memory.closedFrom last := by
  have hheap : (fun r => if r ∈ memory.openUpvalues then memory.closedObj last r
      else memory.gc.heap r) = memory.closedObj last := by
    funext r
    split
    · rfl
    · rename_i hr
      refine (closedObj_of_below fun slot hslot => ?_).symm
      exact absurd (h.mem hslot) hr
  rw [closeUpvaluesLoop_eq (fun r hr => (h.mem_iff r).mp hr) h.descending, hheap]
  rfl

theorem Memory.Ordered.closeUpvalues (h : vm.toMemory.Ordered) (last : ℤ) :
    closeUpvalues last vm = (.ok (), { vm with toMemory := vm.toMemory.closedFrom last }) := by
  rw [← h.toOpenList.closeUpvaluesLoop last]
  rfl

/-- The upvalues below `last` stay open, and no others. -/
theorem upvalueSlot_closedFrom :
    (memory.closedFrom last).gc.upvalueSlot r = some slot ↔
      memory.gc.upvalueSlot r = some slot ∧ slot < last := by
  by_cases hat : ∃ slot', memory.gc.upvalueSlot r = some slot' ∧ last ≤ slot'
  · obtain ⟨slot', hslot', hle⟩ := hat
    have hclosed : (memory.closedFrom last).gc.upvalueSlot r = none := by
      have hheap : (memory.closedFrom last).gc.heap r = _ := closedObj_of_at hslot' hle
      unfold GC.upvalueSlot GC.upvalue?
      rw [hheap]
      rfl
    rw [hclosed, hslot']
    simp only [reduceCtorEq, Option.some.injEq, false_iff, not_and, not_lt]
    rintro rfl
    exact hle
  · have hbelow : ∀ s, memory.gc.upvalueSlot r = some s → s < last := by
      intro s hs
      by_contra hle
      exact hat ⟨s, hs, by omega⟩
    have hsame : (memory.closedFrom last).gc.upvalueSlot r = memory.gc.upvalueSlot r :=
      upvalueSlot_congr (closedObj_of_below hbelow)
    rw [hsame]
    exact ⟨fun hs => ⟨hs, hbelow slot hs⟩, fun hs => hs.1⟩

theorem Memory.Ordered.closed (h : memory.Ordered) (last : ℤ) : (memory.closedFrom last).Ordered := by
  refine ⟨⟨?_, fun r => ?_⟩, h.tidy.congr rfl (fun _ => closedObj_eq_none) rfl⟩
  · refine (h.descending.filter _).imp fun hab s s' hs hs' => ?_
    exact hab s s' (upvalueSlot_closedFrom.mp hs).1 (upvalueSlot_closedFrom.mp hs').1
  · show r ∈ memory.openUpvalues.filter _ ↔ _
    simp only [List.mem_filter, Bool.not_eq_true', upvalueSlot_closedFrom]
    constructor
    · rintro ⟨hr, hnot⟩
      obtain ⟨slot, hslot⟩ := (h.mem_iff r).mp hr
      refine ⟨slot, hslot, ?_⟩
      by_contra hle
      rw [isAbove_iff.mpr ⟨slot, hslot, by omega⟩] at hnot
      cases hnot
    · rintro ⟨slot, hslot, hlt⟩
      refine ⟨h.mem hslot, ?_⟩
      rw [← Bool.not_eq_true]
      intro habove
      obtain ⟨slot', hslot', hlt'⟩ := isAbove_iff.mp habove
      rw [hslot] at hslot'
      cases hslot'
      omega

/-! ### The variable behind an upvalue -/

/-- What is read through an upvalue. -/
def Memory.cellValue (memory : Memory) (r : Ref) : Option Value :=
  match memory.gc.upvalue? r with
  | some ⟨.stack slot, _⟩ => some (memory.stack slot)
  | some ⟨.closed, value⟩ => some value
  | none => none

theorem upvalue?_eq_some_iff {o : ObjUpvalue} :
    gc.upvalue? r = some o ↔ gc.heap r = some (.upvalue o) := by
  unfold GC.upvalue?
  cases gc.heap r with
  | none => simp
  | some o' => cases o' <;> simp [Obj.upvalue?]

theorem cellValue_of_open (hr : memory.gc.upvalueSlot r = some slot) :
    memory.cellValue r = some (memory.stack slot) := by
  obtain ⟨closed, hheap⟩ := upvalueSlot_eq_some_iff.mp hr
  unfold Memory.cellValue
  rw [upvalue?_eq_some_iff.mpr hheap]

/-- An upvalue that is not open does not depend on the stack. -/
theorem cellValue_congr (hheap : memory'.gc.heap r = memory.gc.heap r)
    (hstack : ∀ slot, memory.gc.upvalueSlot r = some slot → memory'.stack slot = memory.stack slot) :
    memory'.cellValue r = memory.cellValue r := by
  have hsame : memory'.gc.upvalue? r = memory.gc.upvalue? r := by
    unfold GC.upvalue?
    rw [hheap]
  unfold Memory.cellValue
  rw [hsame]
  unfold GC.upvalueSlot at hstack
  cases hr : memory.gc.upvalue? r with
  | none => rfl
  | some o =>
    obtain ⟨location, closed⟩ := o
    cases location with
    | closed => rfl
    | stack slot =>
      rw [hr] at hstack
      show some (memory'.stack slot) = some (memory.stack slot)
      rw [hstack slot rfl]

/-- Closing changes no variable. -/
theorem cellValue_closedFrom (memory : Memory) (last : ℤ) (r : Ref) :
    (memory.closedFrom last).cellValue r = memory.cellValue r := by
  by_cases hat : ∃ slot, memory.gc.upvalueSlot r = some slot ∧ last ≤ slot
  · obtain ⟨slot, hslot, hle⟩ := hat
    rw [cellValue_of_open hslot]
    unfold Memory.cellValue
    have hheap : (memory.closedFrom last).gc.heap r = _ := closedObj_of_at hslot hle
    rw [upvalue?_eq_some_iff.mpr hheap]
  · refine cellValue_congr (closedObj_of_below fun slot hslot => ?_) fun _ _ => rfl
    by_contra hle
    exact hat ⟨slot, hslot, by omega⟩

/-- A write to the stack is a write to the variable whose slot it is. -/
theorem cellValue_stackWrite (memory : Memory) (slot : ℤ) (value : Value) (r : Ref) :
    Memory.cellValue { memory with stack := Function.update memory.stack slot value } r =
      if memory.gc.upvalueSlot r = some slot then some value else memory.cellValue r := by
  split
  · rename_i hr
    have hopen := @cellValue_of_open
      { memory with stack := Function.update memory.stack slot value } r slot hr
    rw [hopen]
    exact congrArg some (Function.update_self ..)
  · rename_i hr
    refine cellValue_congr rfl fun slot' hslot' => ?_
    have hne : slot' ≠ slot := by
      rintro rfl
      exact hr hslot'
    exact Function.update_of_ne hne _ _

theorem upvalueAt_eq {o : ObjUpvalue} (h : vm.gc.upvalue? r = some o) :
    upvalueAt r vm = (.ok o, vm) := by
  show orFault (vm.gc.upvalue? r) vm = _
  rw [h]
  rfl

theorem readUpvalue_eq (hr : vm.cellValue r = some value) : readUpvalue r vm = (.ok value, vm) := by
  unfold Memory.cellValue at hr
  unfold readUpvalue
  cases hupvalue : vm.gc.upvalue? r with
  | none =>
    rw [hupvalue] at hr
    cases hr
  | some o =>
    obtain ⟨location, closed⟩ := o
    rw [hupvalue] at hr
    simp only [bind, ExceptT.bind, ExceptT.mk, StateT.bind, upvalueAt_eq hupvalue]
    cases location with
    | stack slot =>
      cases hr
      rfl
    | closed =>
      cases hr
      rfl

/-- What a write through an upvalue comes to: a write to its slot, or to its own cell. -/
theorem writeUpvalue_cases (hr : (vm.cellValue r).isSome) (value : Value) :
    (∃ slot, vm.gc.upvalueSlot r = some slot ∧ writeUpvalue r value vm =
      (.ok (), { vm with stack := Function.update vm.stack slot value })) ∨
    (∃ closed, vm.gc.heap r = some (.upvalue { location := .closed, closed }) ∧
      writeUpvalue r value vm = (.ok (), { vm with
        toMemory := vm.toMemory.setObj r (.upvalue { location := .closed, closed := value }) })) := by
  unfold Memory.cellValue at hr
  unfold writeUpvalue
  cases hupvalue : vm.gc.upvalue? r with
  | none =>
    rw [hupvalue] at hr
    cases hr
  | some o =>
    have hheap := upvalue?_eq_some_iff.mp hupvalue
    obtain ⟨location, closed⟩ := o
    simp only [bind, ExceptT.bind, ExceptT.mk, StateT.bind, upvalueAt_eq hupvalue]
    cases location with
    | stack slot => exact .inl ⟨slot, upvalueSlot_eq_some_iff.mpr ⟨closed, hheap⟩, rfl⟩
    | closed => exact .inr ⟨closed, hheap, rfl⟩

/-- A write through an upvalue changes one variable, and the slot of the variable if it has one. -/
theorem Memory.Ordered.writeUpvalue (h : vm.toMemory.Ordered) (hr : (vm.cellValue r).isSome)
    (value : Value) :
    ∃ vm', writeUpvalue r value vm = (.ok (), vm') ∧ vm'.toMemory.Ordered ∧
      vm'.cellValue r = some value ∧ (∀ r', r' ≠ r → vm'.cellValue r' = vm.cellValue r') ∧
      (∀ r', vm'.gc.upvalueSlot r' = vm.gc.upvalueSlot r') ∧
      vm'.stack = match vm.gc.upvalueSlot r with
        | some slot => Function.update vm.stack slot value
        | none => vm.stack := by
  rcases writeUpvalue_cases hr value with ⟨slot, hslot, hwrite⟩ | ⟨closed, hheap, hwrite⟩
  · refine ⟨_, hwrite, ⟨⟨h.descending, h.mem_iff⟩, h.tidy⟩, ?_, fun r' hr' => ?_, fun _ => rfl, ?_⟩
    · exact (cellValue_stackWrite vm.toMemory slot value r).trans (if_pos hslot)
    · refine (cellValue_stackWrite vm.toMemory slot value r').trans (if_neg fun hslot' => ?_)
      exact hr' (h.unique hslot' hslot)
    · rw [hslot]
  · let o : Obj := .upvalue { location := .closed, closed := value }
    have hself : (vm.toMemory.setObj r o).gc.heap r = some o := Function.update_self ..
    have hother : ∀ r', r' ≠ r → (vm.toMemory.setObj r o).gc.heap r' = vm.gc.heap r' :=
      fun r' hne => Function.update_of_ne hne _ _
    have hclosed : vm.gc.upvalueSlot r = none := by
      unfold GC.upvalueSlot
      rw [upvalue?_eq_some_iff.mpr hheap]
    have hslots : ∀ r', (vm.toMemory.setObj r o).gc.upvalueSlot r' = vm.gc.upvalueSlot r' := by
      intro r'
      by_cases hne : r' = r
      · subst hne
        rw [hclosed]
        unfold GC.upvalueSlot
        rw [upvalue?_eq_some_iff.mpr hself]
      · exact upvalueSlot_congr (hother r' hne)
    have hlive : vm.gc.heap r ≠ none := by
      rw [hheap]
      simp
    refine ⟨_, hwrite, ⟨⟨?_, fun r' => ?_⟩, h.tidy.setObj hlive o⟩, ?_, fun r' hne => ?_, hslots, ?_⟩
    · exact h.descending.imp fun hab s s' hs hs' =>
        hab s s' ((hslots _).symm.trans hs) ((hslots _).symm.trans hs')
    · rw [hslots]
      exact h.mem_iff r'
    · show (vm.toMemory.setObj r o).cellValue r = some value
      unfold Memory.cellValue
      rw [upvalue?_eq_some_iff.mpr hself]
    · exact cellValue_congr (hother r' hne) fun _ _ => rfl
    · rw [hclosed]
      rfl

/-! ### Any sequence of calls -/

/-- A capture, a closing, a write through an upvalue, or any writes to the stack, pushes and pops
among them. -/
inductive UpvalueCall
  | capture (slot : ℤ)
  | close (last : ℤ)
  | write (upvalue : Ref) (value : Value)
  | setStack (stack : ℤ → Value) (stackTop : ℤ)

def UpvalueCall.Makes (vm vm' : VM) : UpvalueCall → Prop
  | .capture slot => ∃ r, captureUpvalue slot vm = (.ok r, vm')
  | .close last => closeUpvalues last vm = (.ok (), vm')
  | .write upvalue value => writeUpvalue upvalue value vm = (.ok (), vm')
  | .setStack stack stackTop => vm' = { vm with stack, stackTop }

inductive UpvalueRun : List UpvalueCall → VM → VM → Prop
  | nil (vm : VM) : UpvalueRun [] vm vm
  | cons {call : UpvalueCall} {calls : List UpvalueCall} {vm vm' vm'' : VM} :
      call.Makes vm vm' → UpvalueRun calls vm' vm'' → UpvalueRun (call :: calls) vm vm''

theorem cellValue_isSome_of_write (h : writeUpvalue r value vm = (.ok (), vm')) :
    (vm.cellValue r).isSome := by
  unfold Memory.cellValue
  cases hupvalue : vm.gc.upvalue? r with
  | none =>
    have hfault : upvalueAt r vm = (.error .fault, vm) := by
      show orFault (vm.gc.upvalue? r) vm = _
      rw [hupvalue]
      rfl
    unfold KirbyLang.Vm.writeUpvalue at h
    simp only [bind, ExceptT.bind, ExceptT.mk, StateT.bind, hfault] at h
    cases h
  | some o =>
    obtain ⟨location, closed⟩ := o
    cases location <;> rfl

/-- One call keeps the list in order, and closes no upvalue below the slots it is asked to close. -/
theorem Memory.Ordered.call (h : vm.toMemory.Ordered) {call : UpvalueCall}
    (hcall : call.Makes vm vm') :
    vm'.toMemory.Ordered ∧ ∀ r slot, vm.gc.upvalueSlot r = some slot →
      (∀ last, call = .close last → slot < last) → vm'.gc.upvalueSlot r = some slot := by
  cases call with
  | capture slot =>
    obtain ⟨r, hcapture⟩ := hcall
    obtain ⟨h', -, -, hkept, -⟩ := h.capture hcapture
    exact ⟨h', fun r' slot' hr' _ => hkept r' slot' hr'⟩
  | close last =>
    have hclose := (h.closeUpvalues last).symm.trans hcall
    cases hclose
    exact ⟨h.closed last, fun r slot hr hlt => upvalueSlot_closedFrom.mpr ⟨hr, hlt last rfl⟩⟩
  | write r value =>
    obtain ⟨vm₁, hwrite, h', -, -, hslots, -⟩ :=
      h.writeUpvalue (cellValue_isSome_of_write hcall) value
    have heq := hwrite.symm.trans hcall
    cases heq
    exact ⟨h', fun r' slot hr' _ => (hslots r').trans hr'⟩
  | setStack stack stackTop =>
    cases hcall
    exact ⟨⟨⟨h.descending, h.mem_iff⟩, h.tidy⟩, fun _ _ hr _ => hr⟩

theorem Memory.Ordered.run {calls : List UpvalueCall} (h : vm.toMemory.Ordered)
    (hrun : UpvalueRun calls vm vm') :
    vm'.toMemory.Ordered ∧ ∀ r slot, vm.gc.upvalueSlot r = some slot →
      (∀ last, .close last ∈ calls → slot < last) → vm'.gc.upvalueSlot r = some slot := by
  induction hrun with
  | nil vm => exact ⟨h, fun _ _ hr _ => hr⟩
  | cons hcall _ ih =>
    obtain ⟨h₁, hkept⟩ := h.call hcall
    obtain ⟨h₂, hkept'⟩ := ih h₁
    refine ⟨h₂, fun r slot hr hlt => hkept' r slot ?_ fun last hlast => ?_⟩
    · exact hkept r slot hr fun last heq => hlt last (heq ▸ List.mem_cons_self)
    · exact hlt last (List.mem_cons_of_mem _ hlast)

/-- What holds of the upvalues of a machine. -/
structure VM.SharesUpvalues (vm : VM) : Prop where
  /-- The list goes strictly down the stack. -/
  descending : ∃ slots : List ℤ,
    vm.openUpvalues.map vm.gc.upvalueSlot = slots.map some ∧ slots.Pairwise (· > ·)
  /-- It holds all open upvalues, one for a slot. -/
  complete : ∀ r slot, vm.gc.upvalueSlot r = some slot → r ∈ vm.openUpvalues
  unique : ∀ r r' slot, vm.gc.upvalueSlot r = some slot → vm.gc.upvalueSlot r' = some slot → r = r'
  /-- A capture gives the upvalue of its slot and leaves the others alone. -/
  capture : ∀ slot r vm', captureUpvalue slot vm = (.ok r, vm') →
    vm'.gc.upvalueSlot r = some slot ∧ vm'.stack = vm.stack ∧
    (∀ r' slot', vm.gc.upvalueSlot r' = some slot' → vm'.gc.upvalueSlot r' = some slot') ∧
    ∀ r' o, r' ≠ r → vm'.gc.heap r' = some o → vm.gc.heap r' = some o
  /-- Closing moves the value of a slot at or above `last` into the upvalue of the slot. -/
  close : ∀ last, ∃ vm', closeUpvalues last vm = (.ok (), vm') ∧ vm'.stack = vm.stack ∧
    (∀ r slot, vm.gc.upvalueSlot r = some slot → last ≤ slot →
      vm'.gc.heap r = some (.upvalue { location := .closed, closed := vm.stack slot })) ∧
    (∀ r, (∀ slot, vm.gc.upvalueSlot r = some slot → slot < last) →
      vm'.gc.heap r = vm.gc.heap r) ∧
    ∀ r, vm'.cellValue r = vm.cellValue r
  /-- All that have an upvalue read what was last written through it or to its slot. -/
  read : ∀ r value, vm.cellValue r = some value → readUpvalue r vm = (.ok value, vm)
  write : ∀ r value, (vm.cellValue r).isSome → ∃ vm', writeUpvalue r value vm = (.ok (), vm') ∧
    vm'.cellValue r = some value ∧ (∀ r', r' ≠ r → vm'.cellValue r' = vm.cellValue r') ∧
    vm'.stack = match vm.gc.upvalueSlot r with
      | some slot => Function.update vm.stack slot value
      | none => vm.stack
  stackWrite : ∀ slot value r,
    Memory.cellValue { vm.toMemory with stack := Function.update vm.stack slot value } r =
      if vm.gc.upvalueSlot r = some slot then some value else vm.cellValue r

/-- The slots of the list, in its order. -/
theorem Memory.OpenList.slots (h : memory.OpenList) : ∃ slots : List ℤ,
    memory.openUpvalues.map memory.gc.upvalueSlot = slots.map some ∧ slots.Pairwise (· > ·) := by
  have hlist : ∀ list : List Ref, (∀ r ∈ list, ∃ slot, memory.gc.upvalueSlot r = some slot) →
      (list.Pairwise fun r r' => ∀ slot slot', memory.gc.upvalueSlot r = some slot →
        memory.gc.upvalueSlot r' = some slot' → slot' < slot) →
      ∃ slots : List ℤ, list.map memory.gc.upvalueSlot = slots.map some ∧
        slots.Pairwise (· > ·) := by
    intro list hopen hdesc
    induction list with
    | nil => exact ⟨[], rfl, .nil⟩
    | cons first rest ih =>
      obtain ⟨top, htop⟩ := hopen first List.mem_cons_self
      obtain ⟨hfirst, hrest⟩ := List.pairwise_cons.mp hdesc
      obtain ⟨slots, hslots, hsorted⟩ := ih (fun r hr => hopen r (List.mem_cons_of_mem _ hr)) hrest
      refine ⟨top :: slots, by simp [htop, hslots], List.pairwise_cons.mpr ⟨fun slot hslot => ?_, hsorted⟩⟩
      have hmem : some slot ∈ rest.map memory.gc.upvalueSlot := by
        rw [hslots]
        exact List.mem_map_of_mem hslot
      obtain ⟨r, hr, hrslot⟩ := List.mem_map.mp hmem
      exact hfirst r hr top slot htop hrslot
  exact hlist _ (fun r hr => (h.mem_iff r).mp hr) h.descending

theorem Memory.Ordered.sharesUpvalues (h : vm.toMemory.Ordered) : vm.SharesUpvalues where
  descending := h.slots
  complete := fun _ _ => h.mem
  unique := fun _ _ _ => h.unique
  capture := fun slot r vm' hcapture => by
    obtain ⟨-, hslot, hstack, hkept, hothers⟩ := h.capture hcapture
    exact ⟨hslot, hstack, hkept, hothers⟩
  close := fun last => ⟨_, h.closeUpvalues last, rfl, fun _ _ => closedObj_of_at,
    fun _ => closedObj_of_below, cellValue_closedFrom vm.toMemory last⟩
  read := fun _ _ => readUpvalue_eq
  write := fun r value hr => by
    obtain ⟨vm', hwrite, -, hself, hothers, -, hstack⟩ := h.writeUpvalue hr value
    exact ⟨vm', hwrite, hself, hothers, hstack⟩
  stackWrite := cellValue_stackWrite vm.toMemory

/-- Where no reference dangles, a capture succeeds, and frees nothing that can be reached. -/
theorem captureUpvalue_succeeds (h : vm.toMemory.Ordered) (wf : vm.toMemory.WellFormed) (slot : ℤ) :
    ∃ r vm', captureUpvalue slot vm = (.ok r, vm') ∧
      ∀ r', vm.toMemory.FieldReachable r' → vm'.gc.heap r' = vm.gc.heap r' := by
  by_cases hopen : ∃ r', vm.gc.upvalueSlot r' = some slot
  · obtain ⟨r', hr'⟩ := hopen
    exact ⟨r', vm, h.captureUpvalue_again hr', fun _ _ => rfl⟩
  · have hnone : ∀ r', vm.gc.upvalueSlot r' ≠ some slot := fun r' hr' => hopen ⟨r', hr'⟩
    let o : Obj := .upvalue { location := .stack slot }
    obtain ⟨memory, hmemory, wf', hshrunk, -⟩ := reallocate_spec wf 0 o.sizeof
    have hnew : newUpvalue slot vm.toMemory =
        some (memory.gc.nextRef, { memory with gc := memory.gc.link o }) := by
      show (reallocate 0 o.sizeof vm.toMemory).bind _ = _
      rw [hmemory]
      rfl
    refine ⟨memory.gc.nextRef,
      vm.created slot memory.gc.nextRef { memory with gc := memory.gc.link o }, ?_, fun r' hr' => ?_⟩
    · rw [captureUpvalue_of_not_open hnone, hnew]
    · have hkept := hshrunk.kept r' hr'
      have hne : r' ≠ memory.gc.nextRef := wf'.ne_nextRef (by
        rw [hkept]
        exact (wf.alive hr').2)
      exact (Function.update_of_ne hne _ _).trans hkept

/-- Over any sequence of captures, closings and writes from a machine without open upvalues: the
list goes down the stack with one upvalue for a slot, captures, closings, reads and writes do what
they should, a capture succeeds where no reference dangles, and two captures of a slot with no
closing of it in between give the same upvalue. -/
theorem upvalues_shared {start vm : VM} {calls : List UpvalueCall}
    (wf : start.toMemory.WellFormed) (hempty : start.openUpvalues = [])
    (hnone : ∀ r, start.gc.upvalueSlot r = none) (hrun : UpvalueRun calls start vm) :
    vm.SharesUpvalues ∧
    (vm.toMemory.WellFormed → ∀ slot, ∃ r vm', captureUpvalue slot vm = (.ok r, vm') ∧
      ∀ r', vm.toMemory.FieldReachable r' → vm'.gc.heap r' = vm.gc.heap r') ∧
    ∀ r slot vm' later vm'', captureUpvalue slot vm = (.ok r, vm') → UpvalueRun later vm' vm'' →
      (∀ last, .close last ∈ later → slot < last) → captureUpvalue slot vm'' = (.ok r, vm'') := by
  have hstart : start.toMemory.Ordered := by
    refine ⟨⟨?_, fun r => ?_⟩, wf.tidy⟩
    · rw [hempty]
      exact .nil
    · simp [hempty, hnone]
  have h := (hstart.run hrun).1
  refine ⟨h.sharesUpvalues, fun wf slot => captureUpvalue_succeeds h wf slot,
    fun r slot vm' later vm'' hcapture hlater hlt => ?_⟩
  obtain ⟨h', hslot, -⟩ := h.capture hcapture
  obtain ⟨h'', hkept⟩ := h'.run hlater
  exact h''.captureUpvalue_again (hkept r slot hslot hlt)

/-- A machine without objects. -/
def bareVM : VM := { gc := { policy := thresholdPolicy }, stackTop := 2 }

theorem bareVM_wellFormed : bareVM.toMemory.WellFormed := by
  refine ⟨.nil, fun r => by simp [bareVM], ?_, by decide, rfl, fun _ => rfl, rfl, ?_, ?_, ?_,
    Table.valid_empty _ 0, ?_⟩
  · intro r hr
    cases hr
  · intro r o r' ho
    cases ho
  · intro r hr
    cases hr with
    | slot _ _ h => cases h
    | frame h => cases h
    | openUpvalue h => cases h
    | globalName h => exact absurd h (Table.not_maps_empty 0)
    | globalValue h => exact absurd h (Table.not_maps_empty 0)
  · intro r o ho
    cases ho
  · rintro r ⟨value, h⟩
    exact absurd h (Table.not_maps_empty 0)

/-- The slots 0 and 1 are captured, the upper one twice, which gives one upvalue. What is written
through it is read through it, and goes with it when it is closed, and so does what is written
then. -/
theorem upvalues_shared_closed : ∃ vm vm' vm'',
    UpvalueRun [.capture 0, .capture 1, .write 2 (.boolean true)] bareVM vm ∧
    vm.SharesUpvalues ∧ captureUpvalue 1 vm = (.ok 2, vm) ∧ vm.stack 1 = .boolean true ∧
    readUpvalue 2 vm = (.ok (.boolean true), vm) ∧
    UpvalueRun [.capture 0, .capture 1, .write 2 (.boolean true), .close 1,
      .setStack (fun _ => .nil) 1] bareVM vm' ∧
    vm'.SharesUpvalues ∧ readUpvalue 2 vm' = (.ok (.boolean true), vm') ∧
    UpvalueRun [.capture 0, .capture 1, .write 2 (.boolean true), .close 1,
      .setStack (fun _ => .nil) 1, .write 2 (.boolean false)] bareVM vm'' ∧
    vm''.SharesUpvalues ∧ readUpvalue 2 vm'' = (.ok (.boolean false), vm'') := by
  let vm₁ := (captureUpvalue 0 bareVM).2
  let vm₂ := (captureUpvalue 1 vm₁).2
  let vm₃ := (writeUpvalue 2 (.boolean true) vm₂).2
  let vm₄ := (closeUpvalues 1 vm₃).2
  let vm₅ : VM := { vm₄ with stack := fun _ => .nil, stackTop := 1 }
  let vm₆ := (writeUpvalue 2 (.boolean false) vm₅).2
  have h₁ : UpvalueCall.Makes bareVM vm₁ (.capture 0) := ⟨1, rfl⟩
  have h₂ : UpvalueCall.Makes vm₁ vm₂ (.capture 1) := ⟨2, rfl⟩
  have h₃ : UpvalueCall.Makes vm₂ vm₃ (.write 2 (.boolean true)) := rfl
  have h₄ : UpvalueCall.Makes vm₃ vm₄ (.close 1) := rfl
  have h₅ : UpvalueCall.Makes vm₄ vm₅ (.setStack (fun _ => .nil) 1) := rfl
  have h₆ : UpvalueCall.Makes vm₅ vm₆ (.write 2 (.boolean false)) := rfl
  have hopen := UpvalueRun.cons h₁ (.cons h₂ (.cons h₃ (.nil vm₃)))
  have hclosed := UpvalueRun.cons h₁ (.cons h₂ (.cons h₃ (.cons h₄ (.cons h₅ (.nil vm₅)))))
  have hwritten := UpvalueRun.cons h₁ (.cons h₂ (.cons h₃ (.cons h₄ (.cons h₅ (.cons h₆
    (.nil vm₆))))))
  have hshares := (upvalues_shared bareVM_wellFormed rfl (fun _ => rfl) hopen).1
  have hshares' := (upvalues_shared bareVM_wellFormed rfl (fun _ => rfl) hclosed).1
  have hshares'' := (upvalues_shared bareVM_wellFormed rfl (fun _ => rfl) hwritten).1
  exact ⟨vm₃, vm₅, vm₆, hopen, hshares, rfl, rfl, hshares.read 2 _ rfl, hclosed, hshares',
    hshares'.read 2 _ rfl, hwritten, hshares'', hshares''.read 2 _ rfl⟩

end KirbyLang.Vm
