import KirbyLang.Loader
import Mathlib.Data.List.Infix

/-!
# The constant pool of a function

`cuAddConstant` gives equal constants one index. What it takes for equal are constants of the same
bits, but for one pair: C's `==` finds the two zeros of a float kind equal.

* `cuAddConstants`: one call after the other;
* `KeepsConstants`: every index denotes the constant that was added, and the value that is pushed
  for it is that constant;
* `keepsConstants_iff`: it holds as long as not both zeros of a float kind are added.
-/

namespace KirbyLang

/-- The `f64` that is zero with a minus sign. -/
def NumberPayload.negativeZero : NumberPayload := 0x8000000000000000

/-- Equal doubles have the same bits or are the two zeros. -/
theorem NumberPayload.eq_or_zeros_of_f64Equal {a b : NumberPayload} (h : a.f64Equal b) :
    a = b ∨ a = 0 ∧ b = negativeZero ∨ a = negativeZero ∧ b = 0 := by
  have hzero : (0 : NumberPayload).toNat = 0 := rfl
  have hnegative : negativeZero.toNat = 2 ^ 63 := rfl
  have ha := a.toNat_lt
  have hb := b.toNat_lt
  simp only [f64Equal, Bool.and_eq_true, beq_iff_eq, f64Order] at h
  simp only [← UInt64.toNat_inj, hzero, hnegative]
  have horder := h.2
  split at horder <;> split at horder <;> omega

/-- Constants that share an index are the same or the two zeros of a float kind. -/
theorem eq_or_zeros_of_equal {c c' : CompiledConst} (h : compiledConstantsAreEqual c c') :
    c = c' ∨ ∃ kind : NumberKind, kind.info.isFloat ∧
      (c = .number kind 0 ∧ c' = .number kind NumberPayload.negativeZero ∨
        c = .number kind NumberPayload.negativeZero ∧ c' = .number kind 0) := by
  unfold compiledConstantsAreEqual at h
  split at h
  case h_1 k p k' p' =>
    simp only [Bool.and_eq_true, beq_iff_eq] at h
    obtain ⟨rfl, h⟩ := h
    cases hfloat : k.info.isFloat with
    | false =>
      simp only [hfloat, Bool.false_eq_true, if_false, beq_iff_eq] at h
      exact .inl (by rw [UInt64.toNat_inj.mp h])
    | true =>
      simp only [hfloat, if_true] at h
      rcases NumberPayload.eq_or_zeros_of_f64Equal h with rfl | ⟨rfl, rfl⟩ | ⟨rfl, rfl⟩
      · exact .inl rfl
      · exact .inr ⟨k, hfloat, .inl ⟨rfl, rfl⟩⟩
      · exact .inr ⟨k, hfloat, .inr ⟨rfl, rfl⟩⟩
  case h_2 => exact .inl (by rw [beq_iff_eq.mp h])
  case h_3 => exact .inl rfl
  case h_4 =>
    simp only [Bool.and_eq_true, beq_iff_eq] at h
    exact .inl (by rw [h.1, h.2])
  case h_5 => cases h

/-- The two zeros of a float kind share an index, whichever is there first. -/
theorem zeros_equal {kind : NumberKind} (h : kind.info.isFloat) :
    compiledConstantsAreEqual (.number kind 0) (.number kind NumberPayload.negativeZero) ∧
      compiledConstantsAreEqual (.number kind NumberPayload.negativeZero) (.number kind 0) := by
  simp only [compiledConstantsAreEqual, h, if_true, BEq.rfl, Bool.true_and]
  decide

/-! ### One call -/

/-- A call finds a constant that equals the one to add, or appends it. -/
theorem cuAddConstant_cases (fn : CompiledFn) (const : CompiledConst) :
    (∃ c ∈ fn.constants, compiledConstantsAreEqual c const ∧ (cuAddConstant fn const).2 = fn ∧
      fn.constants[(cuAddConstant fn const).1]? = some c) ∨
    (∀ c ∈ fn.constants, ¬ compiledConstantsAreEqual c const) ∧
      cuAddConstant fn const =
        (fn.constants.length, { fn with constants := fn.constants ++ [const] }) := by
  unfold cuAddConstant
  cases hfind : fn.constants.findIdx? (compiledConstantsAreEqual · const) with
  | some i =>
    obtain ⟨hi, hequal, -⟩ := List.findIdx?_eq_some_iff_getElem.mp hfind
    exact .inl ⟨fn.constants[i], List.getElem_mem hi, hequal, rfl, List.getElem?_eq_getElem hi⟩
  | none =>
    refine .inr ⟨fun c hc => ?_, rfl⟩
    simpa using List.findIdx?_eq_none_iff.mp hfind c hc

/-- Constants are only appended. -/
theorem constants_prefix_cuAddConstant (fn : CompiledFn) (const : CompiledConst) :
    fn.constants <+: (cuAddConstant fn const).2.constants := by
  rcases cuAddConstant_cases fn const with ⟨-, -, -, hsame, -⟩ | ⟨-, hadded⟩
  · rw [hsame]
  · rw [hadded]
    exact List.prefix_append _ _

/-! ### Any number of calls -/

/-- Calls one after the other: the indices they return, and the function after them. -/
def cuAddConstants (fn : CompiledFn) : List CompiledConst → List ℕ × CompiledFn
  | [] => ([], fn)
  | const :: consts =>
    let (index, fn) := cuAddConstant fn const
    let (indices, fn) := cuAddConstants fn consts
    (index :: indices, fn)

/-- What `OP_CONSTANT` pushes for an index that fits its operand: the constant there, as the
loader makes a value of it. -/
def PushesConstant (fn : CompiledFn) (index : ℕ) (const : CompiledConst) : Prop :=
  ∀ compiledUnit byIndex object loaded,
    resolveConstsInFunction compiledUnit byIndex fn object = .ok loaded → index ≤ 255 →
    ∃ value, resolveConstToValue compiledUnit byIndex const = .ok value ∧
      loaded.constants[(UInt8.ofNat index).toNat]? = some value

/-- What the calls on a new function are meant to do. -/
structure KeepsConstants (consts : List CompiledConst) : Prop where
  /-- A call returns the index of the constant that it adds. -/
  returned : ∀ (i : ℕ) const, consts[i]? = some const →
    ∃ index, (cuAddConstants {} (consts.take (i + 1))).1[i]? = some index ∧
      (cuAddConstants {} (consts.take (i + 1))).2.constants[index]? = some const
  /-- Later calls leave alone what an index denotes. -/
  kept : ∀ n m i index : ℕ, n ≤ m → (cuAddConstants {} (consts.take n)).1[i]? = some index →
    (cuAddConstants {} (consts.take m)).1[i]? = some index ∧
      (cuAddConstants {} (consts.take m)).2.constants[index]? =
        (cuAddConstants {} (consts.take n)).2.constants[index]?
  /-- The function pushes each constant for its index. -/
  pushed : ∀ (i : ℕ) const, consts[i]? = some const →
    ∃ index, (cuAddConstants {} consts).1[i]? = some index ∧
      PushesConstant (cuAddConstants {} consts).2 index const

variable {fn : CompiledFn} {consts : List CompiledConst}

theorem cuAddConstants_append (fn : CompiledFn) (consts rest : List CompiledConst) :
    cuAddConstants fn (consts ++ rest) =
      ((cuAddConstants fn consts).1 ++ (cuAddConstants (cuAddConstants fn consts).2 rest).1,
        (cuAddConstants (cuAddConstants fn consts).2 rest).2) := by
  induction consts generalizing fn with
  | nil => rfl
  | cons const consts ih =>
    simp only [List.cons_append, cuAddConstants]
    rw [ih]

theorem length_indices (fn : CompiledFn) (consts : List CompiledConst) :
    (cuAddConstants fn consts).1.length = consts.length := by
  induction consts generalizing fn with
  | nil => rfl
  | cons const consts ih => simp [cuAddConstants, ih]

theorem constants_prefix_cuAddConstants (fn : CompiledFn) (consts : List CompiledConst) :
    fn.constants <+: (cuAddConstants fn consts).2.constants := by
  induction consts generalizing fn with
  | nil => exact List.prefix_refl _
  | cons const consts ih =>
    exact (constants_prefix_cuAddConstant fn const).trans (ih (cuAddConstant fn const).2)

/-- What a loop that does not fail makes of one element. -/
theorem getElem?_of_mapM_ok {α β ε : Type} {f : α → Except ε β} {as : List α} {bs : List β}
    (h : as.mapM f = .ok bs) {i : ℕ} {a : α} (ha : as[i]? = some a) :
    ∃ b, f a = .ok b ∧ bs[i]? = some b := by
  induction as generalizing bs i with
  | nil => cases ha
  | cons x as ih =>
    rw [List.mapM_cons] at h
    cases hx : f x with
    | error fault =>
      rw [hx] at h
      cases h
    | ok y =>
      cases hrest : as.mapM f with
      | error fault =>
        rw [hx, hrest] at h
        cases h
      | ok ys =>
        rw [hx, hrest] at h
        cases h
        cases i with
        | zero =>
          cases ha
          exact ⟨y, hx, rfl⟩
        | succ i => exact ih hrest ha

/-- What an index denotes is not changed by later calls. -/
theorem getElem?_constants_of_prefix {fn' : CompiledFn} {index : ℕ}
    (h : fn.constants <+: fn'.constants) (hindex : index < fn.constants.length) :
    fn'.constants[index]? = fn.constants[index]? := by
  obtain ⟨rest, hrest⟩ := h
  rw [← hrest, List.getElem?_append_left hindex]

/-- Every index returned is the index of a constant. -/
theorem index_lt_of_mem {index : ℕ} (h : index ∈ (cuAddConstants fn consts).1) :
    index < (cuAddConstants fn consts).2.constants.length := by
  induction consts generalizing fn with
  | nil => cases h
  | cons const consts ih =>
    simp only [cuAddConstants, List.mem_cons] at h ⊢
    rcases h with rfl | h
    · have hlt : (cuAddConstant fn const).1 < (cuAddConstant fn const).2.constants.length := by
        rcases cuAddConstant_cases fn const with ⟨c, -, -, hsame, hc⟩ | ⟨-, hadded⟩
        · rw [hsame]
          exact (List.getElem?_eq_some_iff.mp hc).1
        · simp [hadded]
      exact Nat.lt_of_lt_of_le hlt
        (constants_prefix_cuAddConstants (cuAddConstant fn const).2 consts).length_le
    · exact ih h

/-- A pool holds nothing that was not there or added. -/
theorem mem_constants_cuAddConstants {c : CompiledConst}
    (h : c ∈ (cuAddConstants fn consts).2.constants) : c ∈ fn.constants ∨ c ∈ consts := by
  induction consts generalizing fn with
  | nil => exact .inl h
  | cons const consts ih =>
    rcases @ih (cuAddConstant fn const).2 h with hmem | hmem
    · rcases cuAddConstant_cases fn const with ⟨-, -, -, hsame, -⟩ | ⟨-, hadded⟩
      · rw [hsame] at hmem
        exact .inl hmem
      · rw [hadded] at hmem
        simp only [List.mem_append, List.mem_singleton] at hmem
        rcases hmem with hmem | rfl
        · exact .inl hmem
        · exact .inr (List.mem_cons_self)
    · exact .inr (List.mem_cons_of_mem _ hmem)

/-- No two constants of the pool equal each other. -/
def CompiledFn.Deduplicated (fn : CompiledFn) : Prop :=
  fn.constants.Pairwise fun c c' => ¬ compiledConstantsAreEqual c c'

theorem deduplicated_cuAddConstants (h : fn.Deduplicated) (consts : List CompiledConst) :
    (cuAddConstants fn consts).2.Deduplicated := by
  induction consts generalizing fn with
  | nil => exact h
  | cons const consts ih =>
    refine @ih (cuAddConstant fn const).2 ?_
    rcases cuAddConstant_cases fn const with ⟨-, -, -, hsame, -⟩ | ⟨hnone, hadded⟩
    · rw [hsame]
      exact h
    · rw [hadded]
      refine List.pairwise_append.mpr ⟨h, List.pairwise_singleton _ _, fun c hc c' hc' => ?_⟩
      rw [List.mem_singleton.mp hc']
      exact hnone c hc

/-! ### When the pool keeps its constants -/

/-- A function pushes what an index denotes. -/
theorem pushesConstant_of_getElem? {index : ℕ} {const : CompiledConst}
    (h : fn.constants[index]? = some const) : PushesConstant fn index const := by
  intro compiledUnit byIndex object loaded hloaded hindex
  have hbyte : (UInt8.ofNat index).toNat = index := by
    rw [UInt8.toNat_ofNat', Nat.mod_eq_of_lt (by omega)]
  obtain ⟨values, hvalues, hpure⟩ : ∃ values,
      fn.constants.mapM (resolveConstToValue compiledUnit byIndex) = .ok values ∧
        loaded = { object with constants := values } := by
    unfold resolveConstsInFunction at hloaded
    cases hvalues : fn.constants.mapM (resolveConstToValue compiledUnit byIndex) with
    | error fault =>
      rw [hvalues] at hloaded
      cases hloaded
    | ok values =>
      rw [hvalues] at hloaded
      cases hloaded
      exact ⟨values, rfl, rfl⟩
  obtain ⟨value, hvalue, hat⟩ := getElem?_of_mapM_ok hvalues h
  exact ⟨value, hvalue, by rw [hbyte, hpure]; exact hat⟩

/-- Later calls leave alone what an index denotes. -/
theorem cuAddConstants_kept (fn : CompiledFn) (consts : List CompiledConst) {n m i index : ℕ}
    (hnm : n ≤ m) (h : (cuAddConstants fn (consts.take n)).1[i]? = some index) :
    (cuAddConstants fn (consts.take m)).1[i]? = some index ∧
      (cuAddConstants fn (consts.take m)).2.constants[index]? =
        (cuAddConstants fn (consts.take n)).2.constants[index]? := by
  obtain ⟨rest, hrest⟩ : consts.take n <+: consts.take m := List.take_prefix_take_left hnm
  have hi : i < (cuAddConstants fn (consts.take n)).1.length := (List.getElem?_eq_some_iff.mp h).1
  rw [← hrest, cuAddConstants_append]
  constructor
  · rw [List.getElem?_append_left hi]
    exact h
  · apply getElem?_constants_of_prefix (constants_prefix_cuAddConstants _ rest)
    exact index_lt_of_mem (List.mem_of_getElem? h)

/-- Both zeros of no float kind are among the constants. -/
def OneZero (consts : List CompiledConst) : Prop :=
  ∀ kind : NumberKind, kind.info.isFloat →
    ¬ (.number kind 0 ∈ consts ∧ .number kind NumberPayload.negativeZero ∈ consts)

theorem OneZero.returned (h : OneZero consts) {i : ℕ} {const : CompiledConst}
    (hi : consts[i]? = some const) :
    ∃ index, (cuAddConstants {} (consts.take (i + 1))).1[i]? = some index ∧
      (cuAddConstants {} (consts.take (i + 1))).2.constants[index]? = some const := by
  obtain ⟨hlt, hget⟩ := List.getElem?_eq_some_iff.mp hi
  have htake : consts.take (i + 1) = consts.take i ++ [const] := by
    rw [List.take_add_one, hi]
    rfl
  have hlength : (cuAddConstants {} (consts.take i)).1.length = i := by
    rw [length_indices, List.length_take]
    omega
  rw [htake, cuAddConstants_append]
  generalize hrun : cuAddConstants {} (consts.take i) = run at hlength
  obtain ⟨indices, fn⟩ := run
  refine ⟨(cuAddConstant fn const).1, ?_, ?_⟩
  · rw [List.getElem?_append_right (Nat.le_of_eq hlength), hlength, Nat.sub_self]
    rfl
  show (cuAddConstant fn const).2.constants[(cuAddConstant fn const).1]? = some const
  rcases cuAddConstant_cases fn const with ⟨c, hc, hequal, hsame, hat⟩ | ⟨-, hadded⟩
  · rw [hsame, hat]
    congr 1
    have hmem : c ∈ consts := by
      have hpool : c ∈ (cuAddConstants {} (consts.take i)).2.constants := by
        rw [hrun]
        exact hc
      rcases mem_constants_cuAddConstants hpool with hnil | htaken
      · cases hnil
      · exact List.mem_of_mem_take htaken
    have hconst : const ∈ consts := List.mem_of_getElem? hi
    rcases eq_or_zeros_of_equal hequal with hsame | ⟨kind, hfloat, ⟨rfl, rfl⟩ | ⟨rfl, rfl⟩⟩
    · exact hsame
    · exact absurd ⟨hmem, hconst⟩ (h kind hfloat)
    · exact absurd ⟨hconst, hmem⟩ (h kind hfloat)
  · rw [hadded]
    simp

/-- A pool that keeps its constants holds each of them. -/
theorem KeepsConstants.mem_constants (h : KeepsConstants consts) {const : CompiledConst}
    (hmem : const ∈ consts) : const ∈ (cuAddConstants {} consts).2.constants := by
  obtain ⟨i, hi⟩ := List.mem_iff_getElem?.mp hmem
  obtain ⟨index, hindex, hat⟩ := h.returned i const hi
  obtain ⟨hlt, -⟩ := List.getElem?_eq_some_iff.mp hi
  have hkept := (h.kept (i + 1) consts.length i index hlt hindex).2
  rw [List.take_length, hat] at hkept
  exact List.mem_of_getElem? hkept

/-- The pool keeps what is added to it exactly when not both zeros of a float kind are added. -/
theorem keepsConstants_iff (consts : List CompiledConst) :
    KeepsConstants consts ↔ OneZero consts := by
  constructor
  · rintro h kind hfloat ⟨hpos, hneg⟩
    have hpos' := h.mem_constants hpos
    have hneg' := h.mem_constants hneg
    have hequal := zeros_equal hfloat
    have hempty : ({} : CompiledFn).Deduplicated := List.Pairwise.nil
    have hdedup := deduplicated_cuAddConstants hempty consts
    obtain ⟨i, hi, hi'⟩ := List.mem_iff_getElem.mp hpos'
    obtain ⟨j, hj, hj'⟩ := List.mem_iff_getElem.mp hneg'
    have hpairs := List.pairwise_iff_getElem.mp hdedup
    rcases Nat.lt_trichotomy i j with hlt | heq | hgt
    · exact hpairs i j hi hj hlt (by rw [hi', hj']; exact hequal.1)
    · subst heq
      rw [hi'] at hj'
      cases hj'
    · exact hpairs j i hj hi hgt (by rw [hi', hj']; exact hequal.2)
  · intro h
    refine ⟨fun i const hi => h.returned hi,
      fun n m i index hnm hindex => cuAddConstants_kept {} consts hnm hindex,
      fun i const hi => ?_⟩
    obtain ⟨index, hindex, hat⟩ := h.returned hi
    obtain ⟨hlt, -⟩ := List.getElem?_eq_some_iff.mp hi
    obtain ⟨hindex', hat'⟩ := cuAddConstants_kept {} consts hlt hindex
    rw [List.take_length] at hindex' hat'
    exact ⟨index, hindex', pushesConstant_of_getElem? (hat'.trans hat)⟩

/-- A function with the literals `0` and `-0` of type `f64` pushes `0` for both. -/
theorem not_keepsConstants_zeros :
    ¬ KeepsConstants [.number .f64 0, .number .f64 NumberPayload.negativeZero] := by
  intro h
  obtain ⟨index, hindex, hat⟩ := h.returned 1 _ rfl
  have hrun : cuAddConstants {} [.number .f64 0, .number .f64 NumberPayload.negativeZero] =
      ([0, 0], { constants := [.number .f64 0] }) := by decide
  rw [List.take_of_length_le (Nat.le_refl 2), hrun] at hindex hat
  cases hindex
  cases hat

end KirbyLang
