import Mathlib

/-!
# Integers as doubles

The number that the bits of a double stand for, and that converting an integer up to `2 ^ 53` to a
double loses nothing:

* `binary64Value` reads the bits as IEEE 754 says;
* a double with a full mantissa packs to bits that stand for it (`binary64Value_pack`) and unpacks
  to itself again (`unpack_pack`);
* `binary64Value_toFloat` and `binary64Value_neg_toFloat` are the exact conversions.
-/

open Float.Model Float.Model.UnpackedFloat

/-- The number that the bits of a double stand for; none for an infinity or NaN. -/
def binary64Value (bits : UInt64) : Option ℚ :=
  let fraction : ℕ := bits.toNat % 2 ^ 52
  let exponent : ℕ := bits.toNat / 2 ^ 52 % 2 ^ 11
  let sign : ℚ := if bits.toNat < 2 ^ 63 then 1 else -1
  if exponent = 2 ^ 11 - 1 then none
  else if exponent = 0 then some (sign * fraction * 2 ^ (-1074 : ℤ))
  else some (sign * (2 ^ 52 + fraction) * 2 ^ ((exponent : ℤ) - 1075))

namespace ExactDoubles

/-- The factor of a sign. -/
def signFactor : Sign → ℚ
  | .positive => 1
  | .negative => -1

@[simp] theorem signFactor_neg (s : Sign) : signFactor (-s) = -signFactor s := by
  cases s
  · change (1 : ℚ) = - -1
    norm_num
  · rfl

/-- The bits of a double as a number, from the parts. -/
theorem toNat_packComponents (s : Sign) (exponent : BitVec 11) (fraction : BitVec 52) :
    (packComponents Format.binary64 s exponent fraction).toNat =
      s.toBitVec.toNat * 2 ^ 63 + exponent.toNat * 2 ^ 52 + fraction.toNat := by
  have hexponent := exponent.isLt
  have hfraction := fraction.isLt
  rw [packComponents, BitVec.toNat_append, BitVec.toNat_append,
    ← Nat.shiftLeft_add_eq_or_of_lt hexponent, ← Nat.shiftLeft_add_eq_or_of_lt hfraction,
    Nat.shiftLeft_eq, Nat.shiftLeft_eq]
  ring

/-- The value of a double with its implicit bit, from the parts. -/
theorem binary64Value_packComponents (s : Sign) {exponent : BitVec 11} (fraction : BitVec 52)
    (hfinite : exponent.toNat < 2047) (hnormal : 0 < exponent.toNat) :
    binary64Value (.ofBitVec (packComponents Format.binary64 s exponent fraction)) =
      some (signFactor s * (2 ^ 52 + fraction.toNat) * 2 ^ ((exponent.toNat : ℤ) - 1075)) := by
  have hfraction := fraction.isLt
  have hbits := toNat_packComponents s exponent fraction
  have hfield : (packComponents Format.binary64 s exponent fraction).toNat % 2 ^ 52 =
      fraction.toNat := by
    omega
  have hpower : (packComponents Format.binary64 s exponent fraction).toNat / 2 ^ 52 % 2 ^ 11 =
      exponent.toNat := by
    omega
  have hsign : (if (packComponents Format.binary64 s exponent fraction).toNat < 2 ^ 63 then 1
      else -1 : ℚ) = signFactor s := by
    cases s with
    | positive => exact if_pos (by rw [hbits]; simp [Sign.toBitVec]; omega)
    | negative => exact if_neg (by rw [hbits]; simp [Sign.toBitVec]; omega)
  have htoNat : (UInt64.ofBitVec (packComponents Format.binary64 s exponent fraction)).toNat =
      (packComponents Format.binary64 s exponent fraction).toNat := rfl
  simp only [binary64Value, htoNat, hfield, hpower, hsign]
  rw [if_neg (by omega), if_neg (by omega)]

theorem unpackSign_packComponents (s : Sign) (exponent : BitVec 11) (fraction : BitVec 52) :
    unpackSign (packComponents Format.binary64 s exponent fraction) = s.toBitVec := by
  have hexponent := exponent.isLt
  have hfraction := fraction.isLt
  have hsign := s.toBitVec.isLt
  apply BitVec.eq_of_toNat_eq
  simp only [unpackSign, BitVec.toNat_cast, BitVec.extractLsb_toNat, toNat_packComponents,
    Nat.shiftRight_eq_div_pow]
  omega

section Normal

variable (s : Sign) {m : ℕ} {e : ℤ} (hlow : 2 ^ 52 ≤ m) (hhigh : m < 2 ^ 53)
include hlow hhigh

/-- The parts of a double whose mantissa is full. -/
theorem pack_eq (he : -1075 < e) (he' : e ≤ 971) (hpos : 0 < m) :
    UnpackedFloat.pack Format.binary64 (.finite s m e hpos) =
      packComponents Format.binary64 s (BitVec.ofNat 11 (e + 1075).toNat) (BitVec.ofNat 52 m) := by
  have hlog : m.log2 = 52 := by
    rw [Nat.log2_eq_iff hpos.ne']
    exact ⟨hlow, hhigh⟩
  have hbias : e + (Format.binary64.exponentBias : ℤ) + (52 : ℕ) = e + 1075 := by
    simp [Format.exponentBias]
    omega
  simp only [UnpackedFloat.pack, hlog, hbias]
  rw [if_neg (by omega), if_pos (show 52 + 1 = Format.binary64.mantissaBits from rfl)]

/-- The bits of a double with a full mantissa stand for it. -/
theorem binary64Value_pack (he : -1075 < e) (he' : e ≤ 971) (hpos : 0 < m) :
    binary64Value (Float.Model.pack (.finite s m e hpos)).toBits =
      some (signFactor s * m * 2 ^ e) := by
  have hexponent : (BitVec.ofNat 11 (e + 1075).toNat).toNat = (e + 1075).toNat := by
    rw [BitVec.toNat_ofNat, Nat.mod_eq_of_lt (by omega)]
  have hfraction : (BitVec.ofNat 52 m).toNat = m - 2 ^ 52 := by
    rw [BitVec.toNat_ofNat]
    omega
  change binary64Value (.ofBitVec (UnpackedFloat.pack Format.binary64 (.finite s m e hpos))) = _
  rw [pack_eq s hlow hhigh he he' hpos,
    binary64Value_packComponents s _ (by omega) (by omega), hexponent, hfraction,
    show (((e + 1075).toNat : ℕ) : ℤ) - 1075 = e by omega, Nat.cast_sub hlow]
  congr 3
  push_cast
  ring

/-- A double with a full mantissa is read back as it was packed. -/
theorem unpack_pack (he : -1075 < e) (he' : e ≤ 971) (hpos : 0 < m) :
    (Float.Model.pack (.finite s m e hpos)).unpack = .finite s m e hpos := by
  have hexponent : (BitVec.ofNat 11 (e + 1075).toNat).toNat = (e + 1075).toNat := by
    rw [BitVec.toNat_ofNat, Nat.mod_eq_of_lt (by omega)]
  have hones : BitVec.ofNat 11 (e + 1075).toNat ≠ -1#11 := by
    intro h
    have h' := congrArg BitVec.toNat h
    rw [hexponent] at h'
    simp at h'
    omega
  have hzero : BitVec.ofNat 11 (e + 1075).toNat ≠ 0#11 := by
    intro h
    have h' := congrArg BitVec.toNat h
    rw [hexponent] at h'
    simp at h'
    omega
  have hmantissa : (1#1 ++ BitVec.ofNat 52 m).toNat = m := by
    rw [BitVec.toNat_append, ← Nat.shiftLeft_add_eq_or_of_lt (BitVec.isLt _),
      BitVec.toNat_ofNat, Nat.shiftLeft_eq]
    simp
    omega
  have hsign : Sign.ofBitVec s.toBitVec = s := by cases s <;> rfl
  change UnpackedFloat.unpack Format.binary64 (UnpackedFloat.pack Format.binary64 _) = _
  rw [pack_eq s hlow hhigh he he' hpos]
  simp only [UnpackedFloat.unpack, unpackExponent_packComponents, unpackMantissa_packComponents,
    unpackSign_packComponents, hsign]
  rw [if_neg hones, if_neg hzero]
  congr 1
  rw [hexponent]
  simp [Format.exponentBias]
  omega

end Normal

/-- A mantissa that is full needs no shift. -/
theorem shiftToTargetExponent_full {m : ℕ} {e : ℤ} (hlow : 2 ^ 52 ≤ m) (hhigh : m < 2 ^ 53)
    (he : -1074 ≤ e) :
    shiftToTargetExponent Format.binary64 m e .exact = (⟨m, false, false⟩, e) := by
  have hlog : m.log2 = 52 := by
    rw [Nat.log2_eq_iff (by omega)]
    exact ⟨hlow, hhigh⟩
  have htarget : Format.binary64.targetExponent (totalExponent m e) = e := by
    simp only [Format.targetExponent, totalExponent, hlog, Format.mantissaBits, Format.minExponent]
    omega
  simp [shiftToTargetExponent, shiftToExponent, htarget, HShiftRight.hShiftRight, Nat.repeat,
    ExtendedMantissa.ofMantissaAndAccuracy]

/-- The mantissa that an integer below `2 ^ 53` is shifted to. -/
theorem mantissa_full {n : ℕ} (hpos : 0 < n) (hn : n < 2 ^ 53) :
    2 ^ 52 ≤ n <<< (52 - n.log2) ∧ n <<< (52 - n.log2) < 2 ^ 53 := by
  have hlog : n.log2 < 53 := (Nat.log2_lt hpos.ne').mpr hn
  have hlow : 2 ^ n.log2 ≤ n := Nat.log2_self_le hpos.ne'
  have hhigh : n < 2 ^ (n.log2 + 1) := Nat.lt_log2_self
  rw [Nat.shiftLeft_eq]
  constructor
  · calc 2 ^ 52 = 2 ^ n.log2 * 2 ^ (52 - n.log2) := by rw [← pow_add]; congr 1; omega
      _ ≤ n * 2 ^ (52 - n.log2) := Nat.mul_le_mul_right _ hlow
  · calc n * 2 ^ (52 - n.log2) < 2 ^ (n.log2 + 1) * 2 ^ (52 - n.log2) :=
        Nat.mul_lt_mul_of_pos_right hhigh (Nat.two_pow_pos _)
      _ = 2 ^ 53 := by rw [← pow_add]; congr 1; omega

/-- A positive integer below `2 ^ 53` as a double: the mantissa is shifted until it is full. -/
theorem ofNat_eq {n : ℕ} (hpos : 0 < n) (hn : n < 2 ^ 53) (h : 0 < n <<< (52 - n.log2)) :
    Float.Model.ofNat n =
      .pack (.finite .positive (n <<< (52 - n.log2)) ((n.log2 : ℤ) - 52) h) := by
  have hlog : n.log2 < 53 := (Nat.log2_lt hpos.ne').mpr hn
  have htarget : Format.binary64.targetExponent (totalExponent n 0) = (n.log2 : ℤ) - 52 := by
    simp only [Format.targetExponent, totalExponent, Format.mantissaBits, Format.minExponent]
    omega
  have hshift : (0 - ((n.log2 : ℤ) - 52)).toNat = 52 - n.log2 := by omega
  have hexponent : (0 : ℤ) - ((52 - n.log2 : ℕ) : ℤ) = (n.log2 : ℤ) - 52 := by omega
  obtain ⟨hlow, hhigh⟩ := mantissa_full hpos hn
  have hcompare : compare (n : ℤ) 0 = .gt := by
    rw [Int.compare_eq_gt]
    omega
  have hfull := shiftToTargetExponent_full hlow hhigh (show -1074 ≤ (n.log2 : ℤ) - 52 by omega)
  rw [Float.Model.ofNat, UnpackedFloat.ofNat, UnpackedFloat.ofInt, UnpackedFloat.normalize, hcompare]
  simp only [UnpackedFloat.round, Int.toNat_natCast, htarget, decreaseExponent, hshift, hexponent,
    roundWithAccuracy, hfull, ExtendedMantissa.roundedMantissa, ExtendedMantissa.accuracy,
    Accuracy.roundToNearestEven]
  rw [dif_neg h.ne']

/-- An integer up to `2 ^ 53` as a double is zero or has a full mantissa and stands for it. -/
theorem ofNat_cases {n : ℕ} (hn : n ≤ 2 ^ 53) :
    n = 0 ∨ ∃ m e h, Float.Model.ofNat n = .pack (.finite .positive m e h) ∧
      2 ^ 52 ≤ m ∧ m < 2 ^ 53 ∧ -1075 < e ∧ e ≤ 971 ∧ (m * 2 ^ e : ℚ) = n := by
  rcases Nat.eq_zero_or_pos n with rfl | hpos
  · exact .inl rfl
  right
  rcases hn.lt_or_eq with hlt | rfl
  · have hlog : n.log2 < 53 := (Nat.log2_lt hpos.ne').mpr hlt
    obtain ⟨hlow, hhigh⟩ := mantissa_full hpos hlt
    refine ⟨_, _, by omega, ofNat_eq hpos hlt (by omega), hlow, hhigh, by omega, by omega, ?_⟩
    rw [Nat.shiftLeft_eq, Nat.cast_mul, Nat.cast_pow, mul_assoc, ← zpow_natCast, Nat.cast_ofNat,
      ← zpow_add₀ (by norm_num), show ((52 - n.log2 : ℕ) : ℤ) + ((n.log2 : ℤ) - 52) = 0 by omega,
      zpow_zero, mul_one]
  · -- one more bit than a mantissa holds, but the last one is 0
    refine ⟨2 ^ 52, 1, by decide, by rfl, by decide, by decide, by decide, by decide, ?_⟩
    norm_num

end ExactDoubles

open ExactDoubles

/-- Converting an integer up to `2 ^ 53` to a double loses nothing. -/
theorem binary64Value_toFloat {n : UInt64} (hn : n.toNat ≤ 2 ^ 53) :
    binary64Value n.toFloat.toBits = some (n.toNat : ℚ) := by
  change binary64Value (Float.Model.ofNat n.toNat).toBits = _
  rcases ofNat_cases hn with h0 | ⟨m, e, hpos, heq, hlow, hhigh, he, he', hvalue⟩
  · rw [h0]
    decide +kernel
  · rw [heq, binary64Value_pack _ hlow hhigh he he', ← hvalue, signFactor, one_mul]

/-- Nor does its negative. -/
theorem binary64Value_neg_toFloat {n : UInt64} (hn : n.toNat ≤ 2 ^ 53) :
    binary64Value (-n.toFloat).toBits = some (-(n.toNat : ℚ)) := by
  change binary64Value (Float.Model.pack (Float.Model.ofNat n.toNat).unpack.neg).toBits = _
  rcases ofNat_cases hn with h0 | ⟨m, e, hpos, heq, hlow, hhigh, he, he', hvalue⟩
  · rw [h0]
    decide +kernel
  · rw [heq, unpack_pack _ hlow hhigh he he']
    change binary64Value (Float.Model.pack (.finite (-.positive) m e hpos)).toBits = _
    rw [binary64Value_pack _ hlow hhigh he he', ← hvalue, signFactor_neg, signFactor]
    ring_nf
