import Mathlib.Data.Int.Notation
import Mathlib.Data.Nat.Notation
import Mathlib.Tactic.IntervalCases

/-!
# Number kinds

The ten number types of the language (`number_kind.h`), with the table that gives each its size
and whether it is signed or a float. The value of a number of any kind is held in 64 bits.
-/

namespace KirbyLang

/-- The supported number types, in the order of the C enumeration. -/
inductive NumberKind
  | i64 | i32 | i16 | i8 | u64 | u32 | u16 | u8 | f64 | f32
  deriving DecidableEq, Repr

/-- The 64 bits of a number, as the C union `NumberPayload` holds them: signed integers are
sign-extended, unsigned ones zero-extended, floats are the bits of an f64. -/
abbrev NumberPayload := UInt64

/-- The payload's `i64` member. -/
def NumberPayload.i64 (p : NumberPayload) : ℤ := p.toBitVec.toInt

/-- The payload's `u64` member. -/
def NumberPayload.u64 (p : NumberPayload) : ℕ := p.toNat

/-! ### Doubles by their bits -/

/-- `isnan` of the payload's `f64` member: all exponent bits set and some bit of the fraction. -/
def NumberPayload.isNan (p : NumberPayload) : Bool :=
  decide (0x7ff0000000000000 < p.toNat % 2 ^ 63)

/-- The place of a double that is not NaN in the order of doubles; the two zeros share theirs. -/
def NumberPayload.f64Order (p : NumberPayload) : ℤ :=
  if p.toNat < 2 ^ 63 then p.toNat else -((p.toNat : ℤ) - 2 ^ 63)

/-- C's `==` on the `f64` members. -/
def NumberPayload.f64Equal (a b : NumberPayload) : Bool :=
  !a.isNan && !b.isNan && a.f64Order == b.f64Order

/-- C's `<` on the `f64` members. -/
def NumberPayload.f64Less (a b : NumberPayload) : Bool :=
  !a.isNan && !b.isNan && decide (a.f64Order < b.f64Order)

/-! ### Kinds -/

/-- What the code knows about a kind. The size is in bytes. -/
structure NumberKindInfo where
  name : String
  size : ℕ
  isSigned : Bool := false
  isFloat : Bool := false

namespace NumberKind

def info : NumberKind → NumberKindInfo
  | i64 => { name := "i64", size := 8, isSigned := true }
  | i32 => { name := "i32", size := 4, isSigned := true }
  | i16 => { name := "i16", size := 2, isSigned := true }
  | i8 => { name := "i8", size := 1, isSigned := true }
  | u64 => { name := "u64", size := 8 }
  | u32 => { name := "u32", size := 4 }
  | u16 => { name := "u16", size := 2 }
  | u8 => { name := "u8", size := 1 }
  | f64 => { name := "f64", size := 8, isSigned := true, isFloat := true }
  | f32 => { name := "f32", size := 4, isSigned := true, isFloat := true }

/-- The kinds in the order of the enumeration. -/
def all : List NumberKind := [i64, i32, i16, i8, u64, u32, u16, u8, f64, f32]

/-- The enumeration's number for a kind. -/
def toByte : NumberKind → UInt8
  | i64 => 0 | i32 => 1 | i16 => 2 | i8 => 3 | u64 => 4
  | u32 => 5 | u16 => 6 | u8 => 7 | f64 => 8 | f32 => 9

/-- `(NumberKind)b`, or `none` when `b >= NUMBER_KIND_COUNT`. -/
def ofByte? (b : UInt8) : Option NumberKind := all[b.toNat]?

@[simp] theorem ofByte?_toByte (kind : NumberKind) : ofByte? kind.toByte = some kind := by
  cases kind <;> rfl

theorem toByte_of_ofByte? {b : UInt8} {kind : NumberKind} (h : ofByte? b = some kind) :
    kind.toByte = b := by
  have hlt : b.toNat < all.length := (List.getElem?_eq_some_iff.mp h).1
  have hlt' : b.toNat < 10 := hlt
  apply UInt8.toNat_inj.mp
  generalize hn : b.toNat = n at *
  unfold ofByte? at h
  rw [hn] at h
  interval_cases n <;> cases h <;> rfl

theorem size_le (kind : NumberKind) : kind.info.size ≤ 8 := by
  cases kind <;> decide

/-- A payload that stands for a value of an integer kind: inside the kind's range once read as
the kind's sign says. Any 64 bits are a float's payload. -/
def Canonical (kind : NumberKind) (p : NumberPayload) : Prop :=
  if kind.info.isFloat then True
  else if kind.info.isSigned then
    -(2 ^ (8 * kind.info.size - 1) : ℤ) ≤ p.i64 ∧ p.i64 < 2 ^ (8 * kind.info.size - 1)
  else p.u64 < 2 ^ (8 * kind.info.size)

instance (kind : NumberKind) (p : NumberPayload) : Decidable (kind.Canonical p) := by
  unfold Canonical; infer_instance

end NumberKind

/-! ### Sign extension -/

/-- Widen the low `size` bytes of a signed integer by copying its sign bit. -/
def signExtend (size : ℕ) (raw : UInt64) : UInt64 :=
  let signBit : UInt64 := UInt64.ofNat (2 ^ (size * 8 - 1))
  (raw ^^^ signBit) - signBit

theorem xor_two_pow_of_lt {x k : ℕ} (h : x < 2 ^ k) : x ^^^ 2 ^ k = x + 2 ^ k := by
  have hdiv : (x ^^^ 2 ^ k) / 2 ^ k = 1 := by
    rw [Nat.xor_div_two_pow, Nat.div_eq_of_lt h, Nat.div_self (Nat.two_pow_pos k), Nat.zero_xor]
  have hmod : (x ^^^ 2 ^ k) % 2 ^ k = x := by
    rw [Nat.xor_mod_two_pow, Nat.mod_eq_of_lt h, Nat.mod_self, Nat.xor_zero]
  have hsplit := Nat.div_add_mod (x ^^^ 2 ^ k) (2 ^ k)
  rw [hdiv, hmod] at hsplit
  omega

theorem xor_two_pow_of_le {x k : ℕ} (hlo : 2 ^ k ≤ x) (hhi : x < 2 ^ (k + 1)) :
    x ^^^ 2 ^ k = x - 2 ^ k := by
  have hpow : 2 ^ (k + 1) = 2 * 2 ^ k := by rw [Nat.pow_succ, Nat.mul_comm]
  have hsmall : x - 2 ^ k < 2 ^ k := by omega
  calc x ^^^ 2 ^ k = (x - 2 ^ k + 2 ^ k) ^^^ 2 ^ k := by rw [Nat.sub_add_cancel hlo]
    _ = (x - 2 ^ k) ^^^ 2 ^ k ^^^ 2 ^ k := by rw [xor_two_pow_of_lt hsmall]
    _ = x - 2 ^ k := by rw [Nat.xor_assoc, Nat.xor_self, Nat.xor_zero]

/-- The number that sign extension makes of `raw`: unchanged below the sign bit, and moved to the
top of the 64-bit range from the sign bit on. -/
theorem toNat_signExtend {k size : ℕ} {raw : UInt64} (hk : size * 8 = k + 1) (hsize : k < 63)
    (hraw : raw.toNat < 2 ^ (k + 1)) :
    (signExtend size raw).toNat =
      if raw.toNat < 2 ^ k then raw.toNat else raw.toNat + 2 ^ 64 - 2 ^ (k + 1) := by
  have hpow : 2 ^ (k + 1) = 2 * 2 ^ k := by rw [Nat.pow_succ, Nat.mul_comm]
  have hbound : 2 ^ k ≤ 2 ^ 62 := Nat.pow_le_pow_right (by omega) (by omega)
  have hbit : (UInt64.ofNat (2 ^ k)).toNat = 2 ^ k := by
    rw [UInt64.toNat_ofNat', Nat.mod_eq_of_lt (by omega)]
  rw [signExtend, show size * 8 - 1 = k by omega, UInt64.toNat_sub, UInt64.toNat_xor, hbit]
  split
  · rename_i h
    rw [xor_two_pow_of_lt h]
    omega
  · rename_i h
    rw [xor_two_pow_of_le (by omega) hraw]
    omega

/-- The `i64` member by cases on the top bit. -/
theorem NumberPayload.i64_eq (p : NumberPayload) :
    p.i64 = if p.toNat < 2 ^ 63 then (p.toNat : ℤ) else (p.toNat : ℤ) - 2 ^ 64 := by
  have h : p.toBitVec.toNat = p.toNat := rfl
  rw [NumberPayload.i64, BitVec.toInt_eq_toNat_cond, h]
  split <;> split <;> first | rfl | omega

namespace NumberKind

/-- The payload of an integer kind whose low `size` bytes are `raw`. -/
def widen (kind : NumberKind) (raw : UInt64) : NumberPayload :=
  if kind.info.isSigned ∧ kind.info.size < 8 then signExtend kind.info.size raw else raw

/-- The integer kinds by how their payloads are widened: whole or unsigned ones are left alone,
narrow signed ones extend the sign bit `k`. -/
theorem widen_cases {kind : NumberKind} (hint : kind.info.isFloat = false) :
    (256 ^ kind.info.size ≤ 2 ^ 64 ∧ (∀ raw, kind.widen raw = raw) ∧
      ∀ p : NumberPayload, kind.Canonical p ↔ p.toNat < 256 ^ kind.info.size) ∨
    ∃ k, k < 63 ∧ kind.info.size * 8 = k + 1 ∧ 256 ^ kind.info.size = 2 ^ (k + 1) ∧
      (∀ raw, kind.widen raw = signExtend kind.info.size raw) ∧
      ∀ p : NumberPayload, kind.Canonical p ↔ -(2 ^ k : ℤ) ≤ p.i64 ∧ p.i64 < 2 ^ k := by
  cases kind
  case f64 => cases hint
  case f32 => cases hint
  case i32 => exact .inr ⟨31, by decide, by decide, by decide, fun _ => rfl, fun _ => Iff.rfl⟩
  case i16 => exact .inr ⟨15, by decide, by decide, by decide, fun _ => rfl, fun _ => Iff.rfl⟩
  case i8 => exact .inr ⟨7, by decide, by decide, by decide, fun _ => rfl, fun _ => Iff.rfl⟩
  case i64 =>
    refine .inl ⟨by decide, fun _ => rfl, fun p => ?_⟩
    have hp := p.toNat_lt
    have hi := p.i64_eq
    change -(2 ^ 63 : ℤ) ≤ p.i64 ∧ p.i64 < 2 ^ 63 ↔ p.toNat < 256 ^ 8
    rw [hi]
    split <;> omega
  all_goals exact .inl ⟨by decide, fun _ => rfl, fun _ => Iff.rfl⟩

/-- A canonical payload is recovered from its low bytes. -/
theorem widen_low {kind : NumberKind} {p : NumberPayload} (hint : kind.info.isFloat = false)
    (h : kind.Canonical p) :
    kind.widen (UInt64.ofNat (p.toNat % 256 ^ kind.info.size)) = p := by
  have hp := p.toNat_lt
  rcases widen_cases hint with ⟨hsize, hwiden, hcanon⟩ | ⟨k, hk, hsize, hpow, hwiden, hcanon⟩
  · rw [hwiden, Nat.mod_eq_of_lt ((hcanon p).mp h), UInt64.ofNat_toNat]
  · have hbound : 2 ^ (k + 1) ≤ 2 ^ 63 := Nat.pow_le_pow_right (by omega) (by omega)
    have hdouble : 2 ^ (k + 1) = 2 * 2 ^ k := by rw [Nat.pow_succ, Nat.mul_comm]
    have hlow : (UInt64.ofNat (p.toNat % 2 ^ (k + 1))).toNat = p.toNat % 2 ^ (k + 1) := by
      rw [UInt64.toNat_ofNat', Nat.mod_eq_of_lt (by omega)]
    rw [hwiden, hpow]
    apply UInt64.toNat_inj.mp
    rw [toNat_signExtend hsize hk (by rw [hlow]; exact Nat.mod_lt _ (Nat.two_pow_pos _)), hlow]
    obtain ⟨hlo, hhi⟩ := (hcanon p).mp h
    rw [p.i64_eq] at hlo hhi
    have hcast : ((2 ^ k : ℕ) : ℤ) = 2 ^ k := by norm_cast
    split at hlo
    · rename_i hsmall
      rw [if_pos hsmall] at hhi
      rw [Nat.mod_eq_of_lt (by omega), if_pos (by omega)]
    · rename_i hbig
      -- a negative number is `2 ^ (k + 1)` below a multiple, so its low bytes are offset by it
      have hmul : 2 ^ 64 = 2 ^ (63 - k) * 2 ^ (k + 1) := by
        rw [← Nat.pow_add]
        congr 1
        omega
      have hmod : p.toNat % 2 ^ (k + 1) = p.toNat + 2 ^ (k + 1) - 2 ^ 64 := by
        have hsplit : p.toNat = (p.toNat + 2 ^ (k + 1) - 2 ^ 64) +
            2 ^ (k + 1) * (2 ^ (63 - k) - 1) := by
          rw [Nat.mul_sub, Nat.mul_comm (2 ^ (k + 1)) (2 ^ (63 - k)), ← hmul]
          omega
        rw [hsplit, Nat.add_mul_mod_self_left, Nat.mod_eq_of_lt (by omega)]
        omega
      rw [hmod, if_neg (by omega)]
      omega

/-- Widening gives a canonical payload with the same low bytes. -/
theorem canonical_widen {kind : NumberKind} {raw : UInt64} (hint : kind.info.isFloat = false)
    (h : raw.toNat < 256 ^ kind.info.size) :
    kind.Canonical (kind.widen raw) ∧
      (kind.widen raw).toNat % 256 ^ kind.info.size = raw.toNat := by
  rcases widen_cases hint with ⟨hsize, hwiden, hcanon⟩ | ⟨k, hk, hsize, hpow, hwiden, hcanon⟩
  · rw [hwiden]
    exact ⟨(hcanon raw).mpr h, Nat.mod_eq_of_lt h⟩
  · rw [hpow] at h
    have hbound : 2 ^ (k + 1) ≤ 2 ^ 63 := Nat.pow_le_pow_right (by omega) (by omega)
    have hdouble : 2 ^ (k + 1) = 2 * 2 ^ k := by rw [Nat.pow_succ, Nat.mul_comm]
    have hcast : ((2 ^ k : ℕ) : ℤ) = 2 ^ k := by norm_cast
    have hvalue := toNat_signExtend hsize hk h
    rw [hwiden, hcanon, NumberPayload.i64_eq, hpow, hvalue]
    have hmul : 2 ^ 64 = 2 ^ (63 - k) * 2 ^ (k + 1) := by
      rw [← Nat.pow_add]
      congr 1
      omega
    split
    · rw [if_pos (by omega)]
      exact ⟨by omega, Nat.mod_eq_of_lt (by omega)⟩
    · rw [if_neg (by omega)]
      refine ⟨by push_cast [Nat.cast_sub (show 2 ^ (k + 1) ≤ raw.toNat + 2 ^ 64 by omega)]; omega, ?_⟩
      have hsplit : raw.toNat + 2 ^ 64 - 2 ^ (k + 1) =
          raw.toNat + 2 ^ (k + 1) * (2 ^ (63 - k) - 1) := by
        rw [Nat.mul_sub, Nat.mul_comm (2 ^ (k + 1)) (2 ^ (63 - k)), ← hmul]
        omega
      rw [hsplit, Nat.add_mul_mod_self_left, Nat.mod_eq_of_lt h]

end NumberKind

end KirbyLang
