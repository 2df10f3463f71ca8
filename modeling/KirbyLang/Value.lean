import KirbyLang.CompiledUnit

/-!
# Runtime values

Values and function objects (`value.h`, `object.h`). A string value is its bytes: strings are
interned, so two strings are one object exactly when their bytes agree. Every other object is
named by its place in the heap's table for its type. Collection is left out of this model, so an
object once made stays where it is.
-/

namespace KirbyLang

inductive Value
  | boolean (value : Bool)
  | nil
  | number (kind : NumberKind) (payload : NumberPayload)
  | string (chars : Bytes)
  | function (address : ℕ)
  /-- A native, by the name it was defined under. -/
  | native (name : Bytes)
  | closure (address : ℕ)
  | struct_ (address : ℕ)
  | instance_ (address : ℕ)
  | boundMethod (address : ℕ)
  | list (address : ℕ)
  | array (address : ℕ)
  deriving DecidableEq, Repr

/-- Number kinds are kept apart, and a float is equal to another as C's `==` sees it. -/
def valuesEqual : Value → Value → Bool
  | .number k p, .number k' p' =>
    k == k' && if k.info.isFloat then p.f64Equal p' else p.u64 == p'.u64
  | a, b => a == b

def isFalsey : Value → Bool
  | .nil => true
  | .boolean value => !value
  | _ => false

/-- A function object with its chunk. `name` is `none` for the script. -/
structure ObjFunction where
  arity : ℤ := 0
  upvalueCount : ℤ := 0
  code : List CodeByte := []
  constants : List Value := []
  name : Option Bytes := none
  isStatic : Bool := false
  isPublic : Bool := false
  deriving DecidableEq, Repr

end KirbyLang
