import Mathlib.Data.Nat.Digits.Lemmas
import Mathlib.Data.Nat.Bitwise

/-!
# Little-endian byte strings of a fixed width

`bytes n v` is the `n`-byte little-endian form of `v` and `value` reads such a form back.
Programs spell both with shifts and masks; `bytes_eq_shift` and `value_eq_or` connect the two
spellings to the arithmetic one.
-/

namespace LittleEndian

/-- The `n` low bytes of `v`, least significant first. -/
def bytes : ℕ → ℕ → List UInt8
  | 0, _ => []
  | n + 1, v => UInt8.ofNat v :: bytes n (v / 256)

/-- The number a little-endian byte string stands for. -/
def value (bs : List UInt8) : ℕ := Nat.ofDigits 256 (bs.map UInt8.toNat)

@[simp] theorem value_nil : value [] = 0 := rfl

@[simp] theorem value_cons (b : UInt8) (bs : List UInt8) :
    value (b :: bs) = b.toNat + 256 * value bs := by
  simp [value, Nat.ofDigits_cons]

@[simp] theorem length_bytes (n v : ℕ) : (bytes n v).length = n := by
  induction n generalizing v with
  | zero => rfl
  | succ n ih => simp [bytes, ih]

theorem value_lt (bs : List UInt8) : value bs < 256 ^ bs.length := by
  induction bs with
  | nil => simp
  | cons b bs ih =>
    have hb := b.toNat_lt
    rw [value_cons, List.length_cons, pow_succ]
    omega

/-- Reading back the bytes of `v` gives `v` up to the width. -/
theorem value_bytes (n v : ℕ) : value (bytes n v) = v % 256 ^ n := by
  induction n generalizing v with
  | zero => simp [bytes, Nat.mod_one]
  | succ n ih =>
    rw [bytes, value_cons, ih, pow_succ, Nat.mul_comm (256 ^ n), Nat.mod_mul]
    simp

theorem value_bytes_of_lt {n v : ℕ} (h : v < 256 ^ n) : value (bytes n v) = v := by
  rw [value_bytes, Nat.mod_eq_of_lt h]

/-- A byte string is the little-endian form of its own value. -/
theorem bytes_value (bs : List UInt8) : bytes bs.length (value bs) = bs := by
  induction bs with
  | nil => rfl
  | cons b bs ih =>
    have hb := b.toNat_lt
    have hdiv : (b.toNat + 256 * value bs) / 256 = value bs := by omega
    have hlow : UInt8.ofNat (b.toNat + 256 * value bs) = b := by
      apply UInt8.toNat_inj.mp
      simp only [UInt8.toNat_ofNat']
      omega
    rw [List.length_cons, value_cons, bytes, hdiv, ih, hlow]

theorem bytes_mod (n v : ℕ) : bytes n (v % 256 ^ n) = bytes n v := by
  have h := bytes_value (bytes n v)
  rwa [length_bytes, value_bytes] at h

/-! ### Shifts and masks -/

/-- The spelling with shifts: byte `i` is `(v >> 8 * i) & 0xff`. -/
def shifted (n v : ℕ) : List UInt8 :=
  (List.range n).map fun i => UInt8.ofNat ((v >>> (8 * i)) &&& 0xff)

theorem ofNat_and_ff (v : ℕ) : UInt8.ofNat (v &&& 0xff) = UInt8.ofNat v := by
  apply UInt8.toNat_inj.mp
  have h : v &&& 0xff = v % 2 ^ 8 := Nat.and_two_pow_sub_one_eq_mod v 8
  rw [h]
  simp [UInt8.toNat_ofNat']

theorem bytes_eq_shift (n v : ℕ) : shifted n v = bytes n v := by
  induction n generalizing v with
  | zero => rfl
  | succ n ih =>
    have hshift : ∀ i, v >>> (8 * (i + 1)) = (v / 256) >>> (8 * i) := fun i => by
      rw [Nat.mul_add, Nat.add_comm, Nat.shiftRight_add]
      simp [Nat.shiftRight_eq_div_pow]
    rw [shifted, List.range_succ_eq_map, List.map_cons, List.map_map, bytes, ← ih, shifted]
    congr 1
    · exact ofNat_and_ff v
    · simp only [Function.comp_def, Nat.succ_eq_add_one, hshift]

/-- The spelling with shifts of a read: `bytes[0] | bytes[1] << 8 | ...`, starting from `acc` at
byte `i`. -/
def orFrom (acc i : ℕ) : List UInt8 → ℕ
  | [] => acc
  | b :: bs => orFrom (acc ||| b.toNat <<< (8 * i)) (i + 1) bs

theorem orFrom_eq (acc i : ℕ) (bs : List UInt8) (h : acc < 2 ^ (8 * i)) :
    orFrom acc i bs = acc + 2 ^ (8 * i) * value bs := by
  induction bs generalizing acc i with
  | nil => simp [orFrom]
  | cons b bs ih =>
    have hb := b.toNat_lt
    have hor : acc ||| b.toNat <<< (8 * i) = acc + 2 ^ (8 * i) * b.toNat := by
      rw [Nat.or_comm, ← Nat.shiftLeft_add_eq_or_of_lt h, Nat.shiftLeft_eq]
      ring
    have hpow : 2 ^ (8 * (i + 1)) = 2 ^ (8 * i) * 256 := by
      rw [Nat.mul_add, pow_add]
      norm_num
    rw [orFrom, hor, ih _ _ (by rw [hpow]; nlinarith), hpow, value_cons]
    ring

theorem value_eq_or (bs : List UInt8) : orFrom 0 0 bs = value bs := by
  simp [orFrom_eq]

end LittleEndian
