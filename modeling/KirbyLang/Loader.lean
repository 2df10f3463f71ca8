import KirbyLang.Value

/-!
# The loader

`loadUnit` (`loader.c`): a compiled unit becomes function objects. C indexes the unit's string
arena and the table of its functions without a check; here such an access outside its bounds is a
`LoadFault`.
-/

namespace KirbyLang

/-- An access of the loader outside the bounds of a table. -/
inductive LoadFault
  | arena (offset length : ℤ)
  | functionIndex (functionIndex : ℤ)
  deriving DecidableEq, Repr

/-- `copyString` of a slice of the unit's arena. -/
def copyString (compiledUnit : CompiledUnit) (offset length : ℤ) : Except LoadFault Bytes :=
  if 0 ≤ offset ∧ 0 ≤ length ∧ offset + length ≤ compiledUnit.strings.arena.length then
    .ok ((compiledUnit.strings.arena.drop offset.toNat).take length.toNat)
  else .error (.arena offset length)

/-- The address of the function with the given index in the unit. -/
def functionAt (byIndex : List ℕ) (functionIndex : ℤ) : Except LoadFault ℕ :=
  if functionIndex < 0 then .error (.functionIndex functionIndex)
  else match byIndex[functionIndex.toNat]? with
    | some address => .ok address
    | none => .error (.functionIndex functionIndex)

/-- A function object with everything but its constants. -/
def allocateFunction (compiledUnit : CompiledUnit) (compiledFn : CompiledFn) :
    Except LoadFault ObjFunction := do
  let name ←
    if compiledFn.nameLength ≥ 0 then
      some <$> copyString compiledUnit compiledFn.nameOffset compiledFn.nameLength
    else .ok none
  return { arity := compiledFn.arity
           upvalueCount := compiledFn.upvalueCount
           isStatic := compiledFn.isStatic
           isPublic := compiledFn.isPublic
           code := compiledFn.code
           name }

def resolveConstToValue (compiledUnit : CompiledUnit) (byIndex : List ℕ) :
    CompiledConst → Except LoadFault Value
  | .number kind payload => .ok (.number kind payload)
  | .boolean value => .ok (.boolean value)
  | .nil => .ok .nil
  | .string offset length => Value.string <$> copyString compiledUnit offset length
  | .function functionIndex => Value.function <$> functionAt byIndex functionIndex

/-- One function of `resolveConstsInFunctionsToValues`. -/
def resolveConstsInFunction (compiledUnit : CompiledUnit) (byIndex : List ℕ)
    (compiledFn : CompiledFn) (fn : ObjFunction) : Except LoadFault ObjFunction := do
  return { fn with
    constants := ← compiledFn.constants.mapM (resolveConstToValue compiledUnit byIndex) }

/-- Load a unit behind the functions already in the heap. Returns the script's address and all
functions. -/
def loadUnit (functions : List ObjFunction) (compiledUnit : CompiledUnit) :
    Except LoadFault (ℕ × List ObjFunction) := do
  let allocated ← compiledUnit.functions.mapM (allocateFunction compiledUnit)
  let byIndex := List.range' functions.length allocated.length
  let resolved ← (compiledUnit.functions.zip allocated).mapM fun (compiledFn, fn) =>
    resolveConstsInFunction compiledUnit byIndex compiledFn fn
  let script ← functionAt byIndex 0
  return (script, functions ++ resolved)

end KirbyLang
