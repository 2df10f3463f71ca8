import KirbyLang.Lib.CheckedWords
import KirbyLang.NumberOps

/-!
# Integer arithmetic

What the operations on integers compute, and that no step of theirs overflows. `Checked` holds the
C functions again, operation by operation on 64-bit words, with no result where one of them
overflows or is undefined.

* `NumberKind.value`, `NumberKind.Holds`: the integer a payload stands for, and the integers a kind
  can hold;
* `signedArithmetic_exact`, `unsignedArithmetic_exact`: the result is the exact one or there is
  none;
* `Checked.signedArithmetic_eq`, `Checked.unsignedArithmetic_eq`: the words never overflow;
* `integer_operations_exact_or_refused`: both, for every integer kind.
-/

namespace KirbyLang

open CheckedWords

/-! ### The C functions on words -/

namespace Checked

def numberKindMin (kind : NumberKind) : Option ℤ :=
  if !kind.info.isSigned then some 0
  else (u64ShiftLeft (2 ^ 64 - 1) (kind.info.size * 8 - 1)).map u64ToI64

def numberKindMax (kind : NumberKind) : Option ℕ :=
  let bits := kind.info.size * 8 - if kind.info.isSigned then 1 else 0
  if bits = 64 then some (2 ^ 64 - 1) else do u64Sub (← u64ShiftLeft 1 bits) 1

/-- The subtraction of the sign bit is the one that wraps around on purpose. -/
def truncateRawInteger (kind : NumberKind) (raw : UInt64) : Option NumberPayload :=
  if kind.info.size = 8 then some raw
  else do
    let bits := kind.info.size * 8
    let mask ← u64Sub (← u64ShiftLeft 1 bits) 1
    let masked := raw &&& UInt64.ofNat mask
    if kind.info.isSigned then
      let signBit ← u64ShiftLeft 1 (bits - 1)
      some ((masked ^^^ UInt64.ofNat signBit) - UInt64.ofNat signBit)
    else some masked

/-- The range that `signedArithmetic` starts with; i64 skips the lookup. -/
def signedMin (kind : NumberKind) : Option ℤ :=
  if kind = .i64 then some (-2 ^ 63) else numberKindMin kind

def signedMax (kind : NumberKind) : Option ℤ :=
  if kind = .i64 then some (2 ^ 63 - 1) else (numberKindMax kind).map u64ToI64

/-- The test before a signed multiplication. -/
def productRefused (min max a b : ℤ) : Option Bool :=
  if 0 < a then
    if 0 < b then (i64Div max b).map fun bound => decide (bound < a)
    else (i64Div min a).map fun bound => decide (b < bound)
  else
    if 0 < b then (i64Div min b).map fun bound => decide (a < bound)
    else both (some (decide (a ≠ 0))) ((i64Div max a).map fun bound => decide (b < bound))

/-- Inside the `Option` that stands for a defined run, `none` is a refusal. -/
def signedArithmetic (kind : NumberKind) (op : NumberOp) (a b : ℤ) :
    Option (Option NumberPayload) := do
  let min ← signedMin kind
  let max ← signedMax kind
  let store (value : ℤ) := (truncateRawInteger kind (UInt64.ofInt value)).map some
  match op with
  | .add =>
    let refused ← either
      (both (some (decide (0 < b))) ((i64Sub max b).map fun bound => decide (bound < a)))
      (both (some (decide (b < 0))) ((i64Sub min b).map fun bound => decide (a < bound)))
    if refused then some none else (i64Add a b).bind store
  | .subtract =>
    let refused ← either
      (both (some (decide (b < 0))) ((i64Add max b).map fun bound => decide (bound < a)))
      (both (some (decide (0 < b))) ((i64Add min b).map fun bound => decide (a < bound)))
    if refused then some none else (i64Sub a b).bind store
  | .multiply =>
    let refused ← productRefused min max a b
    if refused then some none else (i64Mul a b).bind store
  | .divide => if a = min ∧ b = -1 then some none else (i64Div a b).bind store
  | .modulo => (if b = -1 then some 0 else i64Mod a b).bind store

def unsignedArithmetic (kind : NumberKind) (op : NumberOp) (a b : ℕ) :
    Option (Option NumberPayload) := do
  let max ← numberKindMax kind
  let store (value : ℕ) := (truncateRawInteger kind (UInt64.ofNat value)).map some
  match op with
  | .add =>
    let room ← u64Sub max a
    if room < b then some none else (u64Add a b).bind store
  | .subtract => if a < b then some none else (u64Sub a b).bind store
  | .multiply =>
    let refused ← both (some (decide (a ≠ 0))) ((u64Div max a).map fun bound => decide (bound < b))
    if refused then some none else (u64Mul a b).bind store
  | .divide => (u64Div a b).bind store
  | .modulo => (u64Mod a b).bind store

/-- For the integer kinds; the float kinds do not come here. -/
def numberArithmetic (kind : NumberKind) (op : NumberOp) (a b : NumberPayload) :
    Option (Option NumberPayload) :=
  if kind.info.isSigned then signedArithmetic kind op a.i64 b.i64
  else unsignedArithmetic kind op a.u64 b.u64

def numberNegateValue (kind : NumberKind) (value : NumberPayload) :
    Option (Option NumberPayload) :=
  if kind.info.isSigned then signedArithmetic kind .subtract 0 value.i64
  else unsignedArithmetic kind .subtract 0 value.u64

def numberCastIntegerToInteger (kind : NumberKind) (value : NumberPayload) (target : NumberKind) :
    Option NumberCastResult := do
  let negative := kind.info.isSigned && decide (value.i64 < 0)
  if negative then
    let refused ← either (some (!target.info.isSigned))
      ((numberKindMin target).map fun min => decide (value.i64 < min))
    some (if refused then .outOfRange else .ok value)
  else
    let max ← numberKindMax target
    some (if max < value.u64 then .outOfRange else .ok value)

theorem numberKindMin_eq (kind : NumberKind) : numberKindMin kind = some kind.min := by
  cases kind <;> decide

theorem numberKindMax_eq (kind : NumberKind) : numberKindMax kind = some kind.max.toNat := by
  cases kind <;> decide

theorem truncateRawInteger_eq (kind : NumberKind) (raw : UInt64) :
    truncateRawInteger kind raw = some (KirbyLang.truncateRawInteger kind raw) := by
  cases kind <;> rfl

end Checked

/-! ### Integers of a kind -/

/-- The exact result. Division truncates toward zero, the remainder has the dividend's sign. -/
def NumberOp.exact : NumberOp → ℤ → ℤ → ℤ
  | .add, a, b => a + b
  | .subtract, a, b => a - b
  | .multiply, a, b => a * b
  | .divide, a, b => a.tdiv b
  | .modulo, a, b => a.tmod b

namespace NumberPayload

theorem i64_ofInt {v : ℤ} (h : InI64 v) : i64 (UInt64.ofInt v) = v := by
  obtain ⟨hlo, hhi⟩ := h
  have hnat : (UInt64.ofInt v).toNat = (v % 2 ^ 64).toNat := by
    rw [UInt64.ofInt, UInt64.toNat_ofNat']
    omega
  rw [i64_eq, hnat]
  split <;> omega

theorem u64_ofNat {n : ℕ} (h : n < 2 ^ 64) : u64 (UInt64.ofNat n) = n := by
  rw [u64, UInt64.toNat_ofNat', Nat.mod_eq_of_lt h]

end NumberPayload

namespace NumberKind

/-- The integer that a payload of an integer kind stands for. -/
def value (kind : NumberKind) (p : NumberPayload) : ℤ :=
  if kind.info.isSigned then p.i64 else p.u64

/-- The integers in the range of an integer kind. -/
def Holds (kind : NumberKind) (v : ℤ) : Prop :=
  if kind.info.isSigned then -2 ^ (8 * kind.info.size - 1) ≤ v ∧ v < 2 ^ (8 * kind.info.size - 1)
  else 0 ≤ v ∧ v < 2 ^ (8 * kind.info.size)

instance (kind : NumberKind) (v : ℤ) : Decidable (kind.Holds v) := by
  unfold Holds; infer_instance

theorem canonical_iff_holds {kind : NumberKind} (hint : kind.info.isFloat = false)
    (p : NumberPayload) : kind.Canonical p ↔ kind.Holds (kind.value p) := by
  unfold Canonical Holds value
  rw [if_neg (by simp [hint])]
  by_cases hs : kind.info.isSigned
  · simp only [hs, if_true]
  · simp only [hs, Bool.false_eq_true, if_false]
    norm_cast
    simp

/-- A signed kind and its bounds, by the half of its width. -/
theorem signed_bounds {kind : NumberKind} (hint : kind.info.isFloat = false)
    (hs : kind.info.isSigned = true) :
    ∃ m : ℤ, 1 ≤ m ∧ m ≤ 2 ^ 63 ∧ kind.min = -m ∧ kind.max = m - 1 ∧
      (∀ p, kind.value p = p.i64) ∧ ∀ v, kind.Holds v ↔ -m ≤ v ∧ v < m := by
  refine ⟨2 ^ (8 * kind.info.size - 1), ?_, ?_, ?_, ?_, fun p => if_pos hs, fun v => ?_⟩
  · cases kind <;> decide
  · cases kind <;> decide
  · cases kind <;> first | cases hs; done | decide
  · cases kind <;> first | cases hs; done | decide
  · rw [Holds, if_pos hs]

theorem unsigned_bounds {kind : NumberKind} (hs : kind.info.isSigned = false) :
    ∃ m : ℕ, m < 2 ^ 64 ∧ kind.max.toNat = m ∧
      (∀ p, kind.value p = p.u64) ∧ ∀ v, kind.Holds v ↔ 0 ≤ v ∧ v ≤ m := by
  refine ⟨kind.max.toNat, ?_, rfl, fun p => if_neg (by simp [hs]), fun v => ?_⟩
  · cases kind <;> decide
  · have hmax : (kind.max.toNat : ℤ) = 2 ^ (8 * kind.info.size) - 1 := by
      cases kind <;> first | cases hs; done | decide
    rw [Holds, if_neg (by simp [hs]), hmax]
    omega

end NumberKind

/-- A value of the kind survives truncation to the kind's width. -/
theorem truncateRawInteger_of_canonical {kind : NumberKind} {p : NumberPayload}
    (hint : kind.info.isFloat = false) (h : kind.Canonical p) :
    truncateRawInteger kind p = p := by
  have hmask : truncateRawInteger kind p =
      kind.widen (UInt64.ofNat (p.toNat % 256 ^ kind.info.size)) := by
    have hlow : ∀ bits ≤ 63,
        p &&& UInt64.ofNat (2 ^ bits - 1) = UInt64.ofNat (p.toNat % 2 ^ bits) := by
      intro bits hbits
      have hpow : 2 ^ bits ≤ 2 ^ 63 := Nat.pow_le_pow_right (by omega) hbits
      have hmod := Nat.mod_lt p.toNat (Nat.two_pow_pos bits)
      apply UInt64.toNat_inj.mp
      rw [UInt64.toNat_and, UInt64.toNat_ofNat', UInt64.toNat_ofNat',
        Nat.mod_eq_of_lt (show 2 ^ bits - 1 < 2 ^ 64 by omega), Nat.and_two_pow_sub_one_eq_mod,
        Nat.mod_eq_of_lt (hmod.trans (by omega))]
    have hwhole : UInt64.ofNat (p.toNat % 256 ^ 8) = p := by
      rw [Nat.mod_eq_of_lt (show p.toNat < 256 ^ 8 from p.toNat_lt), UInt64.ofNat_toNat]
    cases kind
    case i64 => exact hwhole.symm
    case u64 => exact hwhole.symm
    case f64 => cases hint
    case f32 => cases hint
    case i32 => exact congrArg (signExtend 4) (hlow 32 (by decide))
    case i16 => exact congrArg (signExtend 2) (hlow 16 (by decide))
    case i8 => exact congrArg (signExtend 1) (hlow 8 (by decide))
    case u32 => exact hlow 32 (by decide)
    case u16 => exact hlow 16 (by decide)
    case u8 => exact hlow 8 (by decide)
  rw [hmask, NumberKind.widen_low hint h]

/-! ### Exact or refused -/

/-- What an operation of a kind makes of an exact result. -/
def ExactOrRefused (kind : NumberKind) (exact : ℤ) (result : Option NumberPayload) : Prop :=
  (result.isSome ↔ kind.Holds exact) ∧
    ∀ r, result = some r → kind.Canonical r ∧ kind.value r = exact

theorem ExactOrRefused.refused {kind : NumberKind} {v : ℤ} (h : ¬ kind.Holds v) :
    ExactOrRefused kind v none :=
  ⟨by simp [h], fun r hr => by cases hr⟩

section Signed

variable {kind : NumberKind} (hint : kind.info.isFloat = false) (hs : kind.info.isSigned = true)

include hint hs

theorem ExactOrRefused.ofInt {v : ℤ} (h : kind.Holds v) :
    ExactOrRefused kind v (some (truncateRawInteger kind (UInt64.ofInt v))) := by
  obtain ⟨m, -, hm, -, -, hvalue, hholds⟩ := NumberKind.signed_bounds hint hs
  obtain ⟨hlo, hhi⟩ := (hholds v).mp h
  have hv : kind.value (UInt64.ofInt v) = v := by
    rw [hvalue, NumberPayload.i64_ofInt ⟨by omega, by omega⟩]
  have hcanon : kind.Canonical (UInt64.ofInt v) := by
    rw [NumberKind.canonical_iff_holds hint, hv]
    exact h
  rw [truncateRawInteger_of_canonical hint hcanon]
  refine ⟨by simp [h], fun r hr => ?_⟩
  cases hr
  exact ⟨hcanon, hv⟩

/-- A test that refuses exactly what does not fit makes the operation exact or refused. -/
theorem ExactOrRefused.ofTest {v : ℤ} {refuse : Prop} [Decidable refuse]
    (h : refuse ↔ ¬ kind.Holds v) :
    ExactOrRefused kind v
      (if refuse then none else some (truncateRawInteger kind (UInt64.ofInt v))) := by
  by_cases hr : refuse
  · rw [if_pos hr]
    exact ExactOrRefused.refused (h.mp hr)
  · rw [if_neg hr]
    exact ExactOrRefused.ofInt hint hs (not_not.mp fun hv => hr (h.mpr hv))

theorem signedArithmetic_exact {op : NumberOp} {a b : ℤ} (ha : kind.Holds a) (hb : kind.Holds b)
    (hzero : op = .divide ∨ op = .modulo → b ≠ 0) :
    ExactOrRefused kind (op.exact a b) (signedArithmetic kind op a b) := by
  obtain ⟨m, hone, hm, hmin, hmax, -, hholds⟩ := NumberKind.signed_bounds hint hs
  obtain ⟨halo, hahi⟩ := (hholds a).mp ha
  obtain ⟨hblo, hbhi⟩ := (hholds b).mp hb
  cases op with
  | add =>
    refine ExactOrRefused.ofTest hint hs ?_
    rw [hholds, hmin, hmax, NumberOp.exact]
    omega
  | subtract =>
    refine ExactOrRefused.ofTest hint hs ?_
    rw [hholds, hmin, hmax, NumberOp.exact]
    omega
  | multiply =>
    refine ExactOrRefused.ofTest hint hs ?_
    rw [hholds, hmin, hmax, NumberOp.exact]
    -- the sign of the product is known in each of the four cases, so one bound is tested
    by_cases ha0 : 0 < a
    · by_cases hb0 : 0 < b
      · have hpos := Int.mul_pos ha0 hb0
        rw [if_pos ha0, if_pos hb0, decide_eq_true_iff, tdiv_lt_iff hb0 (by omega)]
        omega
      · have hnonpos := Int.mul_nonpos_of_nonneg_of_nonpos ha0.le (not_lt.mp hb0)
        rw [if_pos ha0, if_neg hb0, decide_eq_true_iff, lt_tdiv_iff ha0 (by omega), mul_comm b a]
        omega
    · by_cases hb0 : 0 < b
      · have hnonpos := Int.mul_nonpos_of_nonpos_of_nonneg (not_lt.mp ha0) hb0.le
        rw [if_neg ha0, if_pos hb0, decide_eq_true_iff, lt_tdiv_iff hb0 (by omega)]
        omega
      · have hnonneg := Int.mul_nonneg_of_nonpos_of_nonpos (not_lt.mp ha0) (not_lt.mp hb0)
        rw [if_neg ha0, if_neg hb0, decide_eq_true_iff]
        by_cases hzero : a = 0
        · subst hzero
          simp
          omega
        · rw [lt_tdiv_neg_iff (by omega) (by omega)]
          omega
  | divide =>
    refine ExactOrRefused.ofTest hint hs ?_
    rw [hholds, hmin, NumberOp.exact]
    constructor
    · rintro ⟨rfl, rfl⟩
      rw [Int.tdiv_neg, Int.tdiv_one]
      omega
    · intro hout
      exact not_not.mp fun hne => hout (tdiv_mem ⟨halo, hahi⟩ (hzero (.inl rfl)) hne)
  | modulo =>
    have hmod : (if b = -1 then 0 else a.tmod b) = a.tmod b := by
      by_cases hb1 : b = -1
      · rw [if_pos hb1, hb1, tmod_neg_one]
      · rw [if_neg hb1]
    have hmem := tmod_mem (a := a) ⟨hblo, hbhi⟩ (hzero (.inr rfl))
    rw [signedArithmetic, hmod]
    exact ExactOrRefused.ofInt hint hs ((hholds _).mpr hmem)

/-! The words of the signed operations. -/

theorem Checked.signedMin_eq : Checked.signedMin kind = some kind.min := by
  cases kind <;> first | cases hint; done | cases hs; done | decide

theorem Checked.signedMax_eq : Checked.signedMax kind = some kind.max := by
  cases kind <;> first | cases hint; done | cases hs; done | decide

theorem Checked.signedArithmetic_eq {op : NumberOp} {a b : ℤ} (ha : kind.Holds a)
    (hb : kind.Holds b) (hzero : op = .divide ∨ op = .modulo → b ≠ 0) :
    Checked.signedArithmetic kind op a b = some (KirbyLang.signedArithmetic kind op a b) := by
  have hexact := (signedArithmetic_exact hint hs ha hb hzero).1
  obtain ⟨m, hone, hm, hmin, hmax, -, hholds⟩ := NumberKind.signed_bounds hint hs
  obtain ⟨halo, hahi⟩ := (hholds a).mp ha
  obtain ⟨hblo, hbhi⟩ := (hholds b).mp hb
  have hword : ∀ v, kind.Holds v → i64 v = some v := fun v hv =>
    i64_of_mem ⟨by have := (hholds v).mp hv; omega, by have := (hholds v).mp hv; omega⟩
  simp only [Checked.signedArithmetic, signedMin_eq hint hs, signedMax_eq hint hs,
    Option.bind_eq_bind, Option.bind_some, truncateRawInteger_eq, Option.map_some]
  cases op with
  | add =>
    have hfirst : both (some (decide (0 < b)))
        ((i64Sub kind.max b).map fun bound => decide (bound < a)) =
          some (decide (0 < b ∧ kind.max - b < a)) := both_decide fun h => by
      rw [i64Sub, i64_of_mem ⟨by omega, by omega⟩, Option.map_some]
    have hsecond : both (some (decide (b < 0)))
        ((i64Sub kind.min b).map fun bound => decide (a < bound)) =
          some (decide (b < 0 ∧ a < kind.min - b)) := both_decide fun h => by
      rw [i64Sub, i64_of_mem ⟨by omega, by omega⟩, Option.map_some]
    rw [hfirst, either_decide fun _ => hsecond, Option.bind_some]
    simp only [KirbyLang.signedArithmetic, decide_eq_true_iff] at hexact ⊢
    by_cases hr : (0 < b ∧ kind.max - b < a) ∨ (b < 0 ∧ a < kind.min - b)
    · rw [if_pos hr, if_pos hr]
    · rw [if_neg hr] at hexact ⊢
      rw [if_neg hr, i64Add, hword (a + b) (hexact.mp rfl), Option.bind_some]
  | subtract =>
    have hfirst : both (some (decide (b < 0)))
        ((i64Add kind.max b).map fun bound => decide (bound < a)) =
          some (decide (b < 0 ∧ kind.max + b < a)) := both_decide fun h => by
      rw [i64Add, i64_of_mem ⟨by omega, by omega⟩, Option.map_some]
    have hsecond : both (some (decide (0 < b)))
        ((i64Add kind.min b).map fun bound => decide (a < bound)) =
          some (decide (0 < b ∧ a < kind.min + b)) := both_decide fun h => by
      rw [i64Add, i64_of_mem ⟨by omega, by omega⟩, Option.map_some]
    rw [hfirst, either_decide fun _ => hsecond, Option.bind_some]
    simp only [KirbyLang.signedArithmetic, decide_eq_true_iff] at hexact ⊢
    by_cases hr : (b < 0 ∧ kind.max + b < a) ∨ (0 < b ∧ a < kind.min + b)
    · rw [if_pos hr, if_pos hr]
    · rw [if_neg hr] at hexact ⊢
      rw [if_neg hr, i64Sub, hword (a - b) (hexact.mp rfl), Option.bind_some]
  | multiply =>
    have hmaxdiv : ∀ c, c ≠ 0 → i64Div kind.max c = some (kind.max.tdiv c) := fun c hc =>
      i64Div_of_mem hc (by
        have := tdiv_mem (m := m) (a := kind.max) ⟨by omega, by omega⟩ hc (by omega)
        exact ⟨by omega, by omega⟩)
    have hmindiv : ∀ c, 0 < c → i64Div kind.min c = some (kind.min.tdiv c) := fun c hc =>
      i64Div_of_mem hc.ne' (by
        have := tdiv_mem (m := m) (a := kind.min) ⟨by omega, by omega⟩ hc.ne' (by omega)
        exact ⟨by omega, by omega⟩)
    have htest : Checked.productRefused kind.min kind.max a b =
        some (if 0 < a then (if 0 < b then decide (kind.max.tdiv b < a)
          else decide (b < kind.min.tdiv a))
        else (if 0 < b then decide (a < kind.min.tdiv b)
          else decide (a ≠ 0 ∧ b < kind.max.tdiv a))) := by
      unfold Checked.productRefused
      by_cases ha0 : 0 < a
      · by_cases hb0 : 0 < b
        · simp only [if_pos ha0, if_pos hb0, hmaxdiv b hb0.ne', Option.map_some]
        · simp only [if_pos ha0, if_neg hb0, hmindiv a ha0, Option.map_some]
      · by_cases hb0 : 0 < b
        · simp only [if_neg ha0, if_pos hb0, hmindiv b hb0, Option.map_some]
        · rw [if_neg ha0, if_neg hb0, if_neg ha0, if_neg hb0]
          exact both_decide fun hne => by rw [hmaxdiv a hne, Option.map_some]
    rw [htest, Option.bind_some]
    simp only [KirbyLang.signedArithmetic] at hexact ⊢
    generalize (if 0 < a then _ else _ : Bool) = refused at hexact ⊢
    by_cases hr : refused = true
    · rw [if_pos hr, if_pos hr]
    · rw [if_neg hr] at hexact ⊢
      rw [if_neg hr, i64Mul, hword (a * b) (hexact.mp rfl), Option.bind_some]
  | divide =>
    simp only [KirbyLang.signedArithmetic] at hexact ⊢
    by_cases hr : a = kind.min ∧ b = -1
    · rw [if_pos hr, if_pos hr]
    · have hmem := tdiv_mem ⟨halo, hahi⟩ (hzero (.inl rfl)) (by rw [← hmin]; exact hr)
      rw [if_neg hr, if_neg hr, i64Div_of_mem (hzero (.inl rfl)) ⟨by omega, by omega⟩,
        Option.bind_some]
  | modulo =>
    simp only [KirbyLang.signedArithmetic]
    by_cases hb1 : b = -1
    · rw [if_pos hb1, if_pos hb1, Option.bind_some]
    · have hmem := tdiv_mem (m := m) ⟨halo, hahi⟩ (hzero (.inr rfl)) (by omega)
      rw [if_neg hb1, if_neg hb1, i64Mod_of_mem (hzero (.inr rfl)) ⟨by omega, by omega⟩,
        Option.bind_some]

end Signed

section Unsigned

variable {kind : NumberKind} (hint : kind.info.isFloat = false) (hs : kind.info.isSigned = false)

include hint hs

theorem ExactOrRefused.ofNat {n : ℕ} (h : kind.Holds n) :
    ExactOrRefused kind n (some (truncateRawInteger kind (UInt64.ofNat n))) := by
  obtain ⟨m, hm, -, hvalue, hholds⟩ := NumberKind.unsigned_bounds hs
  have hn := (hholds n).mp h
  have hv : kind.value (UInt64.ofNat n) = n := by
    rw [hvalue, NumberPayload.u64_ofNat (by omega)]
  have hcanon : kind.Canonical (UInt64.ofNat n) := by
    rw [NumberKind.canonical_iff_holds hint, hv]
    exact h
  rw [truncateRawInteger_of_canonical hint hcanon]
  refine ⟨by simp [h], fun r hr => ?_⟩
  cases hr
  exact ⟨hcanon, hv⟩

theorem unsignedArithmetic_exact {op : NumberOp} {a b : ℕ} (ha : kind.Holds a) (hb : kind.Holds b)
    (hzero : op = .divide ∨ op = .modulo → b ≠ 0) :
    ExactOrRefused kind (op.exact a b) (unsignedArithmetic kind op a b) ∧
      Checked.unsignedArithmetic kind op a b = some (unsignedArithmetic kind op a b) := by
  obtain ⟨m, hm, hmax, -, hholds⟩ := NumberKind.unsigned_bounds hs
  have ham := (hholds a).mp ha
  have hbm := (hholds b).mp hb
  simp only [Checked.unsignedArithmetic, Checked.numberKindMax_eq, Option.bind_eq_bind,
    Option.bind_some, Checked.truncateRawInteger_eq, Option.map_some, unsignedArithmetic, hmax,
    NumberOp.exact]
  cases op with
  | add =>
    simp only [u64Sub_of_le (show a ≤ m by omega), Option.bind_some]
    by_cases hr : m - a < b
    · rw [if_pos hr]
      exact ⟨ExactOrRefused.refused (by rw [hholds]; omega), if_pos hr⟩
    · rw [if_neg hr, if_neg hr, u64Add, u64_of_lt (by omega), Option.bind_some]
      refine ⟨?_, rfl⟩
      have h := ExactOrRefused.ofNat hint hs (n := a + b) ((hholds _).mpr (by omega))
      rwa [Nat.cast_add] at h
  | subtract =>
    dsimp only
    by_cases hr : a < b
    · rw [if_pos hr]
      exact ⟨ExactOrRefused.refused (by rw [hholds]; omega), if_pos hr⟩
    · rw [if_neg hr, if_neg hr, u64Sub_of_le (by omega), Option.bind_some]
      refine ⟨?_, rfl⟩
      have h := ExactOrRefused.ofNat hint hs (n := a - b) ((hholds _).mpr (by omega))
      rwa [Nat.cast_sub (not_lt.mp hr)] at h
  | multiply =>
    have htest : both (some (decide (a ≠ 0))) ((u64Div m a).map fun bound => decide (bound < b)) =
        some (decide (a ≠ 0 ∧ m / a < b)) := both_decide fun hne => by
      rw [u64Div_of_ne hne, Option.map_some]
    have hfits : (a ≠ 0 ∧ m / a < b) ↔ m < a * b := by
      by_cases hne : a = 0
      · subst hne
        simp
      · rw [Nat.div_lt_iff_lt_mul (Nat.pos_of_ne_zero hne), Nat.mul_comm b a]
        simp [hne]
    rw [htest, Option.bind_some]
    simp only [decide_eq_true_iff, hfits]
    by_cases hr : m < a * b
    · rw [if_pos hr, if_pos hr]
      exact ⟨ExactOrRefused.refused (by rw [hholds]; norm_cast; omega), rfl⟩
    · rw [if_neg hr, if_neg hr, u64Mul, u64_of_lt (by omega), Option.bind_some]
      refine ⟨?_, rfl⟩
      have h := ExactOrRefused.ofNat hint hs (n := a * b) ((hholds _).mpr (by norm_cast; omega))
      rwa [Nat.cast_mul] at h
  | divide =>
    rw [u64Div_of_ne (hzero (.inl rfl)), Option.bind_some]
    refine ⟨?_, rfl⟩
    have hle : a / b ≤ m := (Nat.div_le_self a b).trans (by omega)
    exact ExactOrRefused.ofNat hint hs
      ((hholds _).mpr ⟨Int.natCast_nonneg _, Int.ofNat_le.mpr hle⟩)
  | modulo =>
    rw [u64Mod_of_ne (hzero (.inr rfl)), Option.bind_some]
    refine ⟨?_, rfl⟩
    have hle : a % b ≤ m := (Nat.mod_le a b).trans (by omega)
    exact ExactOrRefused.ofNat hint hs
      ((hholds _).mpr ⟨Int.natCast_nonneg _, Int.ofNat_le.mpr hle⟩)

end Unsigned

/-! ### Arithmetic, negation and casts -/

variable {kind target : NumberKind} {a b : NumberPayload}

theorem numberArithmetic_exact (libc : Libc) {op : NumberOp} (hint : kind.info.isFloat = false)
    (ha : kind.Canonical a) (hb : kind.Canonical b)
    (hzero : op = .divide ∨ op = .modulo → kind.value b ≠ 0) :
    Checked.numberArithmetic kind op a b = some (numberArithmetic libc kind op a b) ∧
      ExactOrRefused kind (op.exact (kind.value a) (kind.value b))
        (numberArithmetic libc kind op a b) := by
  rw [NumberKind.canonical_iff_holds hint] at ha hb
  rw [numberArithmetic, if_neg (by simp [hint]), Checked.numberArithmetic]
  by_cases hs : kind.info.isSigned
  · have hvalue : ∀ p, kind.value p = p.i64 := fun p => if_pos hs
    rw [hvalue] at ha hb hzero
    rw [if_pos hs, if_pos hs, hvalue, hvalue]
    exact ⟨Checked.signedArithmetic_eq hint hs ha hb hzero,
      signedArithmetic_exact hint hs ha hb hzero⟩
  · have hvalue : ∀ p, kind.value p = p.u64 := fun p => if_neg hs
    rw [hvalue] at ha hb hzero
    rw [if_neg hs, if_neg hs, hvalue, hvalue]
    have h := unsignedArithmetic_exact hint (Bool.eq_false_iff.mpr hs) ha hb
      fun hop => Int.natCast_ne_zero.mp (hzero hop)
    exact ⟨h.2, h.1⟩

theorem numberNegateValue_exact (hint : kind.info.isFloat = false) (ha : kind.Canonical a) :
    Checked.numberNegateValue kind a = some (numberNegateValue kind a) ∧
      ExactOrRefused kind (-kind.value a) (numberNegateValue kind a) := by
  rw [NumberKind.canonical_iff_holds hint] at ha
  rw [numberNegateValue, if_neg (by simp [hint]), Checked.numberNegateValue, ← Int.zero_sub]
  by_cases hs : kind.info.isSigned
  · have hvalue : kind.value a = a.i64 := if_pos hs
    have h0 : kind.Holds 0 := by cases kind <;> decide
    rw [hvalue] at ha
    rw [if_pos hs, if_pos hs, hvalue]
    exact ⟨Checked.signedArithmetic_eq hint hs h0 ha (by rintro (h | h) <;> cases h),
      signedArithmetic_exact hint hs h0 ha (by rintro (h | h) <;> cases h)⟩
  · have hvalue : kind.value a = a.u64 := if_neg hs
    have h0 : kind.Holds (0 : ℕ) := by cases kind <;> decide
    rw [hvalue] at ha
    rw [if_neg hs, if_neg hs, hvalue]
    have h := @unsignedArithmetic_exact kind hint (Bool.eq_false_iff.mpr hs) .subtract 0 a.u64 h0 ha
      (by rintro (h | h) <;> cases h)
    exact ⟨h.2, h.1⟩

/-- What a cast makes of a value: it keeps it, or says that it is out of range. -/
def KeptOrOutOfRange (target : NumberKind) (value : ℤ) (result : NumberCastResult) : Prop :=
  if target.Holds value then
    ∃ r, result = .ok r ∧ target.Canonical r ∧ target.value r = value
  else result = .outOfRange

theorem KeptOrOutOfRange.kept {v : ℤ} (htarget : target.info.isFloat = false)
    (h : target.Holds v) (hv : target.value a = v) : KeptOrOutOfRange target v (.ok a) := by
  subst hv
  rw [KeptOrOutOfRange, if_pos h]
  exact ⟨a, rfl, (NumberKind.canonical_iff_holds htarget a).mpr h, rfl⟩

theorem KeptOrOutOfRange.outOfRange {v : ℤ} (h : ¬ target.Holds v) :
    KeptOrOutOfRange target v .outOfRange := by
  rw [KeptOrOutOfRange, if_neg h]

theorem Checked.numberCastIntegerToInteger_eq :
    Checked.numberCastIntegerToInteger kind a target =
      some (KirbyLang.numberCastIntegerToInteger kind a target) := by
  have hmax : (target.max.toNat : ℤ) = target.max := by cases target <;> decide
  unfold Checked.numberCastIntegerToInteger KirbyLang.numberCastIntegerToInteger
  simp only [numberKindMin_eq, numberKindMax_eq, Option.map_some, Option.bind_eq_bind,
    Option.bind_some]
  by_cases hneg : (kind.info.isSigned && decide (a.i64 < 0)) = true
  · rw [if_pos hneg, if_pos hneg]
    cases target.info.isSigned <;> simp [either]
  · have hcompare : target.max < a.u64 ↔ target.max.toNat < a.u64 := by omega
    rw [if_neg hneg, if_neg hneg]
    simp only [hcompare]

theorem numberCastIntegerToInteger_keeps
    (htarget : target.info.isFloat = false) :
    KeptOrOutOfRange target (kind.value a) (numberCastIntegerToInteger kind a target) := by
  have hp := a.toNat_lt
  have hi := a.i64_eq
  have hu : a.u64 = a.toNat := rfl
  unfold numberCastIntegerToInteger
  by_cases hneg : kind.info.isSigned = true ∧ a.i64 < 0
  · have hvalue : kind.value a = a.i64 := if_pos hneg.1
    rw [if_pos (by simpa using hneg), hvalue]
    by_cases hs : target.info.isSigned
    · obtain ⟨m, hone, hm, hmin, -, htvalue, hholds⟩ := NumberKind.signed_bounds htarget hs
      by_cases hlow : a.i64 < target.min
      · rw [if_pos (by simp [hlow])]
        exact KeptOrOutOfRange.outOfRange (by rw [hholds]; omega)
      · rw [if_neg (by simp [hs, hlow])]
        exact KeptOrOutOfRange.kept htarget (by rw [hholds]; omega) (htvalue a)
    · rw [if_pos (by simp [hs])]
      refine KeptOrOutOfRange.outOfRange ?_
      rw [NumberKind.Holds, if_neg hs]
      omega
  · -- what is not negative is read alike with and without a sign
    have hvalue : kind.value a = a.u64 := by
      rw [NumberKind.value]
      by_cases hsigned : kind.info.isSigned
      · have hnonneg : ¬ a.i64 < 0 := fun h => hneg ⟨hsigned, h⟩
        rw [if_pos hsigned, hu]
        split at hi <;> omega
      · rw [if_neg hsigned]
    rw [if_neg (by simpa using hneg), hvalue]
    by_cases hs : target.info.isSigned
    · obtain ⟨m, hone, hm, -, hmax, htvalue, hholds⟩ := NumberKind.signed_bounds htarget hs
      by_cases hhigh : target.max < a.u64
      · rw [if_pos hhigh]
        exact KeptOrOutOfRange.outOfRange (by rw [hholds]; omega)
      · rw [if_neg hhigh]
        refine KeptOrOutOfRange.kept htarget (by rw [hholds]; omega) ?_
        rw [htvalue, hu]
        split at hi <;> omega
    · obtain ⟨m, -, hmax, htvalue, hholds⟩ :=
        NumberKind.unsigned_bounds (Bool.eq_false_iff.mpr hs)
      have hmaxm : target.max = m := by
        rw [← hmax]
        cases target <;> decide
      by_cases hhigh : target.max < a.u64
      · rw [if_pos hhigh]
        exact KeptOrOutOfRange.outOfRange (by rw [hholds]; omega)
      · rw [if_neg hhigh]
        exact KeptOrOutOfRange.kept htarget (by rw [hholds]; omega) (htvalue a)

/-- Arithmetic on the integer kinds is exact or refused, whatever the operands, and computed
without an overflow; a cast keeps the value or says that it is out of range. -/
theorem integer_operations_exact_or_refused (libc : Libc) (kind : NumberKind)
    (hint : kind.info.isFloat = false) :
    (∀ op a b, kind.Canonical a → kind.Canonical b →
      (op = .divide ∨ op = .modulo → kind.value b ≠ 0) →
      Checked.numberArithmetic kind op a b = some (numberArithmetic libc kind op a b) ∧
        ExactOrRefused kind (op.exact (kind.value a) (kind.value b))
          (numberArithmetic libc kind op a b)) ∧
    (∀ a, kind.Canonical a →
      Checked.numberNegateValue kind a = some (numberNegateValue kind a) ∧
        ExactOrRefused kind (-kind.value a) (numberNegateValue kind a)) ∧
    ∀ target, target.info.isFloat = false → ∀ a,
      Checked.numberCastIntegerToInteger kind a target = some (numberCast kind a target) ∧
        KeptOrOutOfRange target (kind.value a) (numberCast kind a target) := by
  refine ⟨fun op a b ha hb hzero => numberArithmetic_exact libc hint ha hb hzero,
    fun a ha => numberNegateValue_exact hint ha, fun target htarget a => ?_⟩
  have hcast : numberCast kind a target = numberCastIntegerToInteger kind a target := by
    rw [numberCast, if_neg (by simp [htarget]), if_neg (by simp [hint])]
  rw [hcast]
  exact ⟨Checked.numberCastIntegerToInteger_eq, numberCastIntegerToInteger_keeps htarget⟩

/-- The extreme cases of i8: -128 / -1 and -(-128) are refused, -128 % -1 is not. -/
theorem integer_operations_exact_or_refused_i8 :
    ¬ (numberArithmetic plainLibc .i8 .divide (UInt64.ofInt (-128)) (UInt64.ofInt (-1))).isSome ∧
      ¬ (numberNegateValue .i8 (UInt64.ofInt (-128))).isSome ∧
      (numberArithmetic plainLibc .i8 .modulo (UInt64.ofInt (-128)) (UInt64.ofInt (-1))).isSome ∧
      numberCast .i8 (UInt64.ofInt (-128)) .u64 = .outOfRange := by
  obtain ⟨harith, hnegate, hcast⟩ := integer_operations_exact_or_refused plainLibc .i8 rfl
  have hmin : NumberKind.i8.Canonical (UInt64.ofInt (-128)) := by decide
  have hone : NumberKind.i8.Canonical (UInt64.ofInt (-1)) := by decide
  refine ⟨?_, ?_, ?_, ?_⟩
  · rw [(harith .divide _ _ hmin hone fun _ => by decide).2.1]
    decide
  · rw [(hnegate _ hmin).2.1]
    decide
  · rw [(harith .modulo _ _ hmin hone fun _ => by decide).2.1]
    decide
  · have hkept := (hcast .u64 rfl (UInt64.ofInt (-128))).2
    rwa [KeptOrOutOfRange, if_neg (by decide)] at hkept

end KirbyLang
