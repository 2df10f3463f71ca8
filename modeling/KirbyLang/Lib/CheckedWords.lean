import Mathlib.Algebra.Order.Ring.Int
import Mathlib.Tactic.Common

/-!
# 64-bit arithmetic of C, checked

The operations of C on `int64_t` and `uint64_t`, the words read as integers. An operation that
overflows its type, or that C leaves undefined, has no result here.

* `i64Add`, `i64Div`, `u64Mul`, `u64ShiftLeft` and so on: one operation each;
* `both`, `either`: `&&` and `||`, which do not evaluate what they need not;
* `tdiv_lt_iff`, `lt_tdiv_iff`: what the range tests made before a multiplication say;
* `tdiv_mem`, `tmod_mem`: where quotients and remainders lie.
-/

namespace CheckedWords

/-! ### Signed words -/

/-- The values of an `int64_t`. -/
def InI64 (x : ℤ) : Prop := -2 ^ 63 ≤ x ∧ x < 2 ^ 63

instance (x : ℤ) : Decidable (InI64 x) := by unfold InI64; infer_instance

/-- The result of an operation on `int64_t`. -/
def i64 (x : ℤ) : Option ℤ := if InI64 x then some x else none

def i64Add (a b : ℤ) : Option ℤ := i64 (a + b)

def i64Sub (a b : ℤ) : Option ℤ := i64 (a - b)

def i64Mul (a b : ℤ) : Option ℤ := i64 (a * b)

def i64Div (a b : ℤ) : Option ℤ := if b = 0 then none else i64 (a.tdiv b)

/-- Undefined where the quotient is. -/
def i64Mod (a b : ℤ) : Option ℤ := (i64Div a b).map fun _ => a.tmod b

theorem i64_of_mem {x : ℤ} (h : InI64 x) : i64 x = some x := if_pos h

theorem i64Div_of_mem {a b : ℤ} (hb : b ≠ 0) (h : InI64 (a.tdiv b)) :
    i64Div a b = some (a.tdiv b) := by
  rw [i64Div, if_neg hb, i64_of_mem h]

theorem i64Mod_of_mem {a b : ℤ} (hb : b ≠ 0) (h : InI64 (a.tdiv b)) :
    i64Mod a b = some (a.tmod b) := by
  rw [i64Mod, i64Div_of_mem hb h, Option.map_some]

/-! ### Unsigned words -/

/-- The result of an operation on `uint64_t`. -/
def u64 (n : ℕ) : Option ℕ := if n < 2 ^ 64 then some n else none

def u64Add (a b : ℕ) : Option ℕ := u64 (a + b)

def u64Sub (a b : ℕ) : Option ℕ := if a < b then none else some (a - b)

def u64Mul (a b : ℕ) : Option ℕ := u64 (a * b)

def u64Div (a b : ℕ) : Option ℕ := if b = 0 then none else some (a / b)

def u64Mod (a b : ℕ) : Option ℕ := if b = 0 then none else some (a % b)

/-- Bits shifted out at the top are lost, as C defines; the amount must be below the width. -/
def u64ShiftLeft (a amount : ℕ) : Option ℕ :=
  if amount < 64 then some (a * 2 ^ amount % 2 ^ 64) else none

/-- The conversion of a `uint64_t` to `int64_t`. -/
def u64ToI64 (n : ℕ) : ℤ := if n < 2 ^ 63 then n else (n : ℤ) - 2 ^ 64

theorem u64_of_lt {n : ℕ} (h : n < 2 ^ 64) : u64 n = some n := if_pos h

theorem u64Sub_of_le {a b : ℕ} (h : b ≤ a) : u64Sub a b = some (a - b) :=
  if_neg (Nat.not_lt.mpr h)

theorem u64Div_of_ne {a b : ℕ} (h : b ≠ 0) : u64Div a b = some (a / b) := if_neg h

theorem u64Mod_of_ne {a b : ℕ} (h : b ≠ 0) : u64Mod a b = some (a % b) := if_neg h

/-! ### Conditions -/

/-- `p && q`. -/
def both (p q : Option Bool) : Option Bool := p.bind fun holds => if holds then q else some false

/-- `p || q`. -/
def either (p q : Option Bool) : Option Bool := p.bind fun holds => if holds then some true else q

/-- The second operand matters only where the first one holds. -/
theorem both_decide {p q : Prop} [Decidable p] [Decidable q] {x : Option Bool}
    (h : p → x = some (decide q)) : both (some (decide p)) x = some (decide (p ∧ q)) := by
  by_cases hp : p
  · simp [both, hp, h hp]
  · simp [both, hp]

theorem either_decide {p q : Prop} [Decidable p] [Decidable q] {x : Option Bool}
    (h : ¬ p → x = some (decide q)) : either (some (decide p)) x = some (decide (p ∨ q)) := by
  by_cases hp : p
  · simp [either, hp]
  · simp [either, hp, h hp]

/-! ### Range tests -/

theorem tdiv_lt_iff {a b hi : ℤ} (hb : 0 < b) (hhi : 0 ≤ hi) : hi.tdiv b < a ↔ hi < a * b := by
  rw [Int.tdiv_eq_ediv_of_nonneg hhi]
  exact Int.ediv_lt_iff_lt_mul hb

theorem lt_tdiv_iff {a b lo : ℤ} (hb : 0 < b) (hlo : lo ≤ 0) : a < lo.tdiv b ↔ a * b < lo := by
  have h := tdiv_lt_iff (a := -a) hb (Int.neg_nonneg_of_nonpos hlo)
  rw [Int.neg_tdiv, neg_mul] at h
  constructor
  · intro hlt
    have := h.mp (by omega)
    omega
  · intro hlt
    have := h.mpr (by omega)
    omega

theorem lt_tdiv_neg_iff {a b hi : ℤ} (ha : a < 0) (hhi : 0 ≤ hi) :
    b < hi.tdiv a ↔ hi < a * b := by
  have h := tdiv_lt_iff (a := -b) (b := -a) (by omega) hhi
  rw [Int.tdiv_neg, neg_mul_neg, mul_comm b a] at h
  constructor
  · intro hlt
    exact h.mp (by omega)
  · intro hlt
    have := h.mpr hlt
    omega

/-! ### Quotients and remainders -/

/-- Only one quotient of words leaves the range: that of the least word and -1. -/
theorem tdiv_mem {m a b : ℤ} (ha : -m ≤ a ∧ a < m) (hb : b ≠ 0) (hmin : ¬ (a = -m ∧ b = -1)) :
    -m ≤ a.tdiv b ∧ a.tdiv b < m := by
  by_cases hone : b = 1
  · rw [hone, Int.tdiv_one]
    exact ha
  by_cases hneg : b = -1
  · rw [hneg, Int.tdiv_neg, Int.tdiv_one]
    omega
  -- any other divisor at least halves
  have hhalf : (a.tdiv b).natAbs ≤ a.natAbs / 2 := by
    rw [Int.natAbs_tdiv]
    exact Nat.div_le_div_left (by omega) (by decide)
  omega

theorem tmod_mem {m a b : ℤ} (hb : -m ≤ b ∧ b < m) (hne : b ≠ 0) :
    -m ≤ a.tmod b ∧ a.tmod b < m := by
  have hlt : a.natAbs % b.natAbs < b.natAbs := Nat.mod_lt _ (by omega)
  have habs := Int.natAbs_tmod a b
  omega

theorem tmod_neg_one (a : ℤ) : a.tmod (-1) = 0 := by
  rw [Int.tmod_neg, Int.tmod_one]

end CheckedWords
