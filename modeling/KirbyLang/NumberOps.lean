import KirbyLang.NumberKind
import KirbyLang.CompiledUnit

/-!
# Operations on numbers

`number_ops.c`, and the formatting of numbers (`value.c`). Doubles are Lean's `Float`, which is the
C library's type without the payload of a NaN; what the C library does beyond the arithmetic is in
`Libc`.
-/

namespace KirbyLang

/-- A text of the source as bytes. -/
def text (s : String) : Bytes := s.toUTF8.toList

/-- `%d`. -/
def decimal (n : ℤ) : Bytes := text (toString n)

/-- The functions of the C library that the number code calls. -/
structure Libc where
  fmod : Float → Float → Float
  trunc : Float → Float
  fmin : Float → Float → Float
  fmax : Float → Float → Float
  /-- `snprintf` with `%.*e`, by the precision. -/
  scientific : ℕ → Float → Bytes
  /-- `snprintf` with `%g`. -/
  general : Float → Bytes
  /-- `strtod`, and whether `errno` is `ERANGE` after it. -/
  strtod : Bytes → Float × Bool
  /-- `strtof`, as a double. -/
  strtof : Bytes → Float

/-- A C library for programs without floats. -/
def plainLibc : Libc where
  fmod a _ := a
  trunc := id
  fmin a _ := a
  fmax a _ := a
  scientific _ _ := []
  general _ := []
  strtod _ := (0, false)
  strtof _ := 0

namespace NumberPayload

/-- The payload's `f64` member. -/
def f64 (p : NumberPayload) : Float := Float.ofBits p

def ofF64 (value : Float) : NumberPayload := value.toBits

/-- The `f64` member without its fraction, for a double that is a number. -/
def truncated (p : NumberPayload) : ℤ :=
  let exponent := p.toNat / 2 ^ 52 % 2 ^ 11
  let significand := 2 ^ 52 + p.toNat % 2 ^ 52
  let magnitude : ℕ :=
    if exponent < 1023 then 0
    else if exponent < 1075 then significand / 2 ^ (1075 - exponent)
    else significand * 2 ^ (exponent - 1075)
  if p.toNat < 2 ^ 63 then magnitude else -magnitude

/-- A 64-bit integer as C converts it. -/
def ofInt (value : ℤ) : NumberPayload := UInt64.ofNat (value % 2 ^ 64).toNat

end NumberPayload

namespace NumberKind

def min (kind : NumberKind) : ℤ :=
  if kind.info.isSigned then -2 ^ (kind.info.size * 8 - 1) else 0

def max (kind : NumberKind) : ℤ :=
  2 ^ (kind.info.size * 8 - if kind.info.isSigned then 1 else 0) - 1

end NumberKind

inductive NumberOp
  | add | subtract | multiply | divide | modulo
  deriving DecidableEq, Repr

inductive NumberCastResult
  | ok (result : NumberPayload)
  | notWhole
  | outOfRange
  deriving DecidableEq, Repr

def truncateRawInteger (kind : NumberKind) (raw : UInt64) : NumberPayload :=
  if kind.info.size = 8 then raw
  else
    let masked := raw &&& UInt64.ofNat (2 ^ (kind.info.size * 8) - 1)
    if kind.info.isSigned then signExtend kind.info.size masked else masked

def roundFloat (kind : NumberKind) (value : Float) : Float :=
  if kind = .f32 then value.toFloat32.toFloat else value

def numberToDouble (kind : NumberKind) (payload : NumberPayload) : Float :=
  if kind.info.isFloat then payload.f64
  else if kind.info.isSigned then Float.ofInt payload.i64
  else Float.ofNat payload.u64

def numberIsZero (kind : NumberKind) (value : NumberPayload) : Bool :=
  if kind.info.isFloat then value.f64Equal 0 else value.u64 == 0

def floatArithmetic (libc : Libc) (kind : NumberKind) (op : NumberOp) (a b : Float) :
    NumberPayload :=
  let result := match op with
    | .add => a + b
    | .subtract => a - b
    | .multiply => a * b
    | .divide => a / b
    | .modulo => libc.fmod a b
  .ofF64 (roundFloat kind result)

/-- `none` when the result does not fit. The checks run before the operation, as in C, where it
would overflow. -/
def signedArithmetic (kind : NumberKind) (op : NumberOp) (a b : ℤ) : Option NumberPayload :=
  let min := kind.min
  let max := kind.max
  let result (value : ℤ) := some (truncateRawInteger kind (.ofInt value))
  match op with
  | .add =>
    if (0 < b ∧ max - b < a) ∨ (b < 0 ∧ a < min - b) then none else result (a + b)
  | .subtract =>
    if (b < 0 ∧ max + b < a) ∨ (0 < b ∧ a < min + b) then none else result (a - b)
  | .multiply =>
    let overflows :=
      if 0 < a then (if 0 < b then decide (max.tdiv b < a) else decide (b < min.tdiv a))
      else (if 0 < b then decide (a < min.tdiv b) else decide (a ≠ 0 ∧ b < max.tdiv a))
    if overflows then none else result (a * b)
  | .divide => if a = min ∧ b = -1 then none else result (a.tdiv b)
  | .modulo => result (if b = -1 then 0 else a.tmod b)

def unsignedArithmetic (kind : NumberKind) (op : NumberOp) (a b : ℕ) : Option NumberPayload :=
  let max := kind.max.toNat
  let result (value : ℕ) := some (truncateRawInteger kind (UInt64.ofNat value))
  match op with
  | .add => if max - a < b then none else result (a + b)
  | .subtract => if a < b then none else result (a - b)
  | .multiply => if a ≠ 0 ∧ max / a < b then none else result (a * b)
  | .divide => result (a / b)
  | .modulo => result (a % b)

def numberArithmetic (libc : Libc) (kind : NumberKind) (op : NumberOp) (a b : NumberPayload) :
    Option NumberPayload :=
  if kind.info.isFloat then some (floatArithmetic libc kind op a.f64 b.f64)
  else if kind.info.isSigned then signedArithmetic kind op a.i64 b.i64
  else unsignedArithmetic kind op a.u64 b.u64

def numberNegateValue (kind : NumberKind) (value : NumberPayload) : Option NumberPayload :=
  if kind.info.isFloat then some (.ofF64 (-value.f64))
  else if kind.info.isSigned then signedArithmetic kind .subtract 0 value.i64
  else unsignedArithmetic kind .subtract 0 value.u64

def numberOpLessThan (kind : NumberKind) (a b : NumberPayload) : Bool :=
  if kind.info.isFloat then a.f64Less b
  else if kind.info.isSigned then decide (a.i64 < b.i64)
  else decide (a.u64 < b.u64)

def numberCastFloatToInteger (value : Float) (target : NumberKind) : NumberCastResult :=
  if value.isNaN || (!value.isInf && value != value.floor) then .notWhole
  else
    let bits := target.info.size * 8 - if target.info.isSigned then 1 else 0
    let upper := Float.ofNat (2 ^ bits)
    let lower := if target.info.isSigned then -upper else 0
    if value < lower || upper ≤ value then .outOfRange
    else if target.info.isSigned then .ok (.ofInt value.toInt64.toInt)
    else .ok value.toUInt64

def numberCastIntegerToInteger (kind : NumberKind) (value : NumberPayload) (target : NumberKind) :
    NumberCastResult :=
  if kind.info.isSigned && decide (value.i64 < 0) then
    if !target.info.isSigned || decide (value.i64 < target.min) then .outOfRange else .ok value
  else if target.max < value.u64 then .outOfRange
  else .ok value

def numberCast (kind : NumberKind) (value : NumberPayload) (target : NumberKind) :
    NumberCastResult :=
  if target.info.isFloat then
    let converted := numberToDouble kind value
    let rounded := roundFloat target converted
    if rounded.isInf && !converted.isInf then .outOfRange else .ok (.ofF64 rounded)
  else if kind.info.isFloat then numberCastFloatToInteger value.f64 target
  else numberCastIntegerToInteger kind value target

/-! ### Formatting -/

/-- `atoi`. -/
def atoi (chars : Bytes) : ℤ :=
  let digits (chars : Bytes) : ℤ :=
    (chars.takeWhile fun c => 48 ≤ c && c ≤ 57).foldl (fun n c => n * 10 + (c.toNat - 48 : ℤ)) 0
  match chars with
  | 45 :: rest => -digits rest
  | 43 :: rest => digits rest
  | rest => digits rest

/-- The shortest scientific text that reads back as the magnitude, from a precision on. -/
def shortestScientific (libc : Libc) (single : Bool) (magnitude : Float) : ℕ → ℕ → Bytes
  | 0, precision => libc.scientific precision magnitude
  | tries + 1, precision =>
    let scientific := libc.scientific precision magnitude
    let readBack := if single then libc.strtof scientific else (libc.strtod scientific).1
    if readBack == magnitude then scientific
    else shortestScientific libc single magnitude tries (precision + 1)

/-- Drop the zeros at the end, but for the first digit. -/
def trimZeros (digits : Bytes) : Bytes :=
  digits.take 1 ++ ((digits.drop 1).reverse.dropWhile (· == 48)).reverse

def formatFloat (libc : Libc) (value : Float) (single : Bool) : Bytes :=
  if value.isNaN then text "nan"
  else if value.isInf then (if value < 0 then text "-inf" else text "inf")
  else if value == 0 then (if 2 ^ 63 ≤ value.toBits.toNat then text "-0" else text "0")
  else
    let scientific := shortestScientific libc single value.abs 16 0
    let mantissa := scientific.takeWhile (· != 101)
    let digits := trimZeros (mantissa.filter (· != 46))
    let exponent := atoi ((scientific.dropWhile (· != 101)).drop 1)
    let point := exponent + 1
    let sign := if value < 0 then text "-" else []
    sign ++
      if digits.length ≤ point ∧ point ≤ 21 then
        digits ++ List.replicate (point.toNat - digits.length) 48
      else if 0 < point ∧ point ≤ 21 then
        digits.take point.toNat ++ text "." ++ digits.drop point.toNat
      else if -6 < point ∧ point ≤ 0 then
        text "0." ++ List.replicate (-point).toNat 48 ++ digits
      else
        digits.take 1 ++ (if 1 < digits.length then text "." ++ digits.drop 1 else []) ++
          text (if point - 1 < 0 then "e-" else "e+") ++ decimal |point - 1|

def formatNumber (libc : Libc) (kind : NumberKind) (payload : NumberPayload) : Bytes :=
  if kind.info.isFloat then formatFloat libc payload.f64 (kind = .f32)
  else if kind.info.isSigned then decimal payload.i64
  else decimal payload.u64

end KirbyLang
