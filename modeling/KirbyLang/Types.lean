import KirbyLang.CompiledUnit
import KirbyLang.NumberKind

/-!
# Types

The checker's types and the operations on them (`types.c`). A type that is not known, which C has
as NULL, is a type of its own here.

The members of a struct are kept by the checker's environment, under the struct's name.
-/

namespace KirbyLang

inductive Ty
  /-- NULL -/
  | unknown
  | unit
  | bool
  | string
  | number (kind : NumberKind)
  /-- Matches a number of any kind. -/
  | anyNumber
  /-- Matches an integer of any kind. -/
  | anyInteger
  | struct (name : Bytes) (typeArgs : List Ty)
  | fn (paramTypes : List Ty) (returnType : Ty)
  | list (elementType : Ty)
  /-- A negative length is a placeholder. -/
  | array (elementType : Ty) (length : ℤ)
  | trait (name : Bytes)
  | selfPlaceholder
  /-- A parameter that callers fill in. Native signatures give it no name. -/
  | genericParam (index : ℕ) (name : Option Bytes)
  /-- A declared parameter inside its own declaration, equal only to itself. -/
  | opaqueParam (address : ℕ) (index : ℕ) (name : Bytes)
  deriving Repr

namespace Ty

/-- `type == NULL`. -/
def isUnknown : Ty → Bool
  | unknown => true
  | _ => false

def isNumber : Ty → Bool
  | number _ | anyNumber | anyInteger => true
  | _ => false

theorem eq_unknown {type : Ty} (h : type.isUnknown = true) : type = unknown := by
  cases type <;> first | rfl | cases h

end Ty

mutual

def typesEqual : Ty → Ty → Bool
  | .unknown, .unknown => true
  | .unit, .unit => true
  | .bool, .bool => true
  | .string, .string => true
  | .number kind, .number other => decide (kind = other)
  | .anyNumber, .anyNumber | .anyNumber, .anyInteger => true
  | .anyInteger, .anyNumber | .anyInteger, .anyInteger => true
  | .struct name typeArgs, .struct otherName otherArgs =>
    decide (name = otherName) && allEqual typeArgs otherArgs
  | .fn paramTypes returnType, .fn otherParams otherReturn =>
    allEqual paramTypes otherParams && typesEqual returnType otherReturn
  | .list elementType, .list other => typesEqual elementType other
  | .array elementType length, .array other otherLength =>
    decide (length = otherLength) && typesEqual elementType other
  | .trait name, .trait other => decide (name = other)
  | .selfPlaceholder, .selfPlaceholder => true
  | .genericParam index _, .genericParam other _ => decide (index = other)
  | .opaqueParam address _ _, .opaqueParam other _ _ => decide (address = other)
  | _, _ => false

/-- As many types, equal one by one. -/
def allEqual : List Ty → List Ty → Bool
  | [], [] => true
  | a :: as, b :: bs => typesEqual a b && allEqual as bs
  | _, _ => false

end

mutual

/-- Whether a value of type `actual` can be given where `expected` is wanted. An unknown type, or
an unknown part of one, accepts and is accepted by anything. -/
def typeAccepts (expected actual : Ty) : Bool :=
  match expected with
  | .unknown => true
  | .anyNumber => actual.isUnknown || actual.isNumber
  | .anyInteger =>
    match actual with
    | .unknown => true
    | .number kind => !kind.info.isFloat
    | _ => false
  | .list elementType =>
    match actual with
    | .unknown => true
    | .list other => typeAccepts elementType other
    | _ => false
  | .array elementType length =>
    match actual with
    | .unknown => true
    | .array other otherLength =>
      (decide (length < 0) || decide (length = otherLength)) && typeAccepts elementType other
    | _ => false
  | .fn paramTypes returnType =>
    match actual with
    | .unknown => true
    | .fn otherParams otherReturn =>
      acceptsAll paramTypes otherParams && typeAccepts returnType otherReturn
    | _ => false
  | .struct name typeArgs =>
    match actual with
    | .unknown => true
    | .struct otherName otherArgs => decide (name = otherName) && acceptsAll typeArgs otherArgs
    | _ => false
  | other => actual.isUnknown || typesEqual other actual

/-- As many types, accepted one by one. -/
def acceptsAll : List Ty → List Ty → Bool
  | [], [] => true
  | a :: as, b :: bs => typeAccepts a b && acceptsAll as bs
  | _, _ => false

end

/-! ### Generic parameters -/

/-- `GENERIC_TYPE_PARAM_SLOTS`. -/
def GENERIC_TYPE_PARAM_SLOTS : ℕ := 4

/-- The binding slot of a length placeholder. -/
def arrayLengthSlot (length : ℤ) : ℕ := (GENERIC_TYPE_PARAM_SLOTS - 1 - length).toNat

mutual

/-- One more than the largest index of a parameter to be filled in. -/
def typeGenericParamCount : Ty → ℕ
  | .genericParam index _ => index + 1
  | .list elementType => typeGenericParamCount elementType
  | .struct _ typeArgs => genericParamCounts typeArgs
  | .array elementType length =>
    let count := typeGenericParamCount elementType
    if length < 0 then max count (arrayLengthSlot length + 1) else count
  | .fn paramTypes returnType =>
    max (typeGenericParamCount returnType) (genericParamCounts paramTypes)
  | .unknown | .unit | .bool | .string | .number _ | .anyNumber | .anyInteger | .trait _
  | .selfPlaceholder | .opaqueParam _ _ _ => 0

/-- The largest count. -/
def genericParamCounts : List Ty → ℕ
  | [] => 0
  | type :: types => max (typeGenericParamCount type) (genericParamCounts types)

end

mutual

/-- The name of the first parameter with an index, if there is such a parameter. -/
def typeFindGenericParam (index : ℕ) : Ty → Option (Option Bytes)
  | .genericParam i name => if i = index then some name else none
  | .opaqueParam _ i name => if i = index then some (some name) else none
  | .list elementType => typeFindGenericParam index elementType
  | .struct _ typeArgs => findGenericParams index typeArgs
  | .array elementType _ => typeFindGenericParam index elementType
  | .fn paramTypes returnType =>
    (findGenericParams index paramTypes).or (typeFindGenericParam index returnType)
  | .unknown | .unit | .bool | .string | .number _ | .anyNumber | .anyInteger | .trait _
  | .selfPlaceholder => none

def findGenericParams (index : ℕ) : List Ty → Option (Option Bytes)
  | [] => none
  | type :: types => (typeFindGenericParam index type).or (findGenericParams index types)

end

/-- The type in a slot, unknown when the slot is empty or there is none. -/
def slotAt (bindings : List Ty) (index : ℕ) : Ty := bindings.getD index .unknown

/-- Fill a slot that is there and empty. -/
def fillSlot (bindings : List Ty) (index : ℕ) (type : Ty) : List Ty :=
  if index < bindings.length ∧ (slotAt bindings index).isUnknown then bindings.set index type
  else bindings

mutual

/-- Fill empty slots by lining `pattern` up with `actual`. -/
def typeBindGenericParams (pattern actual : Ty) (bindings : List Ty) : List Ty :=
  match pattern with
  | .genericParam index _ => if actual.isUnknown then bindings else fillSlot bindings index actual
  | .list elementType =>
    match actual with
    | .list other => typeBindGenericParams elementType other bindings
    | _ => bindings
  | .struct name typeArgs =>
    match actual with
    | .struct otherName otherArgs =>
      if name = otherName ∧ typeArgs.length = otherArgs.length then
        bindAll typeArgs otherArgs bindings
      else bindings
    | _ => bindings
  | .array elementType length =>
    match actual with
    | .array other otherLength =>
      let bindings := typeBindGenericParams elementType other bindings
      if length < 0 ∧ 0 ≤ otherLength then
        fillSlot bindings (arrayLengthSlot length) (.array .unknown otherLength)
      else bindings
    | _ => bindings
  | .fn paramTypes returnType =>
    match actual with
    | .fn otherParams otherReturn =>
      if otherParams.length = paramTypes.length then
        typeBindGenericParams returnType otherReturn (bindAll paramTypes otherParams bindings)
      else bindings
    | _ => bindings
  | .unknown | .unit | .bool | .string | .number _ | .anyNumber | .anyInteger | .trait _
  | .selfPlaceholder | .opaqueParam _ _ _ => bindings

def bindAll : List Ty → List Ty → List Ty → List Ty
  | pattern :: patterns, actual :: actuals, bindings =>
    bindAll patterns actuals (typeBindGenericParams pattern actual bindings)
  | [], _, bindings => bindings
  | _ :: _, [], bindings => bindings

end

mutual

/-- True if no part of the type is unknown. -/
def typeIsFullyKnown : Ty → Bool
  | .unknown => false
  | .list elementType => typeIsFullyKnown elementType
  | .array elementType _ => typeIsFullyKnown elementType
  | .struct _ typeArgs => allFullyKnown typeArgs
  | .fn paramTypes returnType => allFullyKnown paramTypes && typeIsFullyKnown returnType
  | .unit | .bool | .string | .number _ | .anyNumber | .anyInteger | .trait _ | .selfPlaceholder
  | .genericParam _ _ | .opaqueParam _ _ _ => true

def allFullyKnown : List Ty → Bool
  | [] => true
  | type :: types => typeIsFullyKnown type && allFullyKnown types

end

/-- The length kept in a slot, as an array type with no item type. -/
def boundLength (bindings : List Ty) (length : ℤ) : ℤ :=
  if length < 0 then
    match slotAt bindings (arrayLengthSlot length) with
    | .array _ bound => bound
    | _ => length
  else length

mutual

/-- Replace each parameter with its slot. An empty slot keeps the parameter, or makes it unknown
when `eraseEmpty`. -/
def substituteGenericParams (bindings : List Ty) (eraseEmpty : Bool) : Ty → Ty
  | .genericParam index name =>
    if (slotAt bindings index).isUnknown then
      if eraseEmpty then .unknown else .genericParam index name
    else slotAt bindings index
  | .list elementType => .list (substituteGenericParams bindings eraseEmpty elementType)
  | .struct name typeArgs => .struct name (substituteAll bindings eraseEmpty typeArgs)
  | .array elementType length =>
    .array (substituteGenericParams bindings eraseEmpty elementType) (boundLength bindings length)
  | .fn paramTypes returnType =>
    .fn (substituteAll bindings eraseEmpty paramTypes)
      (substituteGenericParams bindings eraseEmpty returnType)
  | .unknown => .unknown
  | .unit => .unit
  | .bool => .bool
  | .string => .string
  | .number kind => .number kind
  | .anyNumber => .anyNumber
  | .anyInteger => .anyInteger
  | .trait name => .trait name
  | .selfPlaceholder => .selfPlaceholder
  | .opaqueParam address index name => .opaqueParam address index name

def substituteAll (bindings : List Ty) (eraseEmpty : Bool) : List Ty → List Ty
  | [] => []
  | type :: types =>
    substituteGenericParams bindings eraseEmpty type :: substituteAll bindings eraseEmpty types

end

def typeSubstituteGenericParams (type : Ty) (bindings : List Ty) : Ty :=
  substituteGenericParams bindings false type

def typeEraseGenericParams (type : Ty) : Ty := substituteGenericParams [] true type

end KirbyLang
