import KirbyLang.NativeProgram

/-!
# Native functions

`native.c`, in its order. The arguments are the stack slots above the callee.
-/

namespace KirbyLang.Vm

variable (libc : Libc)

/-- A native: what it does with its number of arguments and the arguments. -/
abbrev NativeFn (goesOn : Bool) := ℕ → (ℕ → Value) → Prog goesOn Value

/-- A result of the clock, the time or the random numbers. -/
def nextCall {goesOn : Bool} {α : Type} (f : World → ℕ → α) : Prog goesOn α :=
  .outside fun world => (f world world.calls, { world with calls := world.calls + 1 })

/-- `RAND_MAX`. -/
def randMax : Float := 2147483647

/-! ### Files -/

/-- `NULL` when the file cannot be read to its end. -/
def readFile (path : Bytes) : Prog false Ref := do
  match ← .outside fun world => (world.files path, world) with
  | none => .fail (text "File does not exist: '" ++ path ++ text "'")
  | some contents =>
    if ← .outside fun world => (world.unreadable path, world) then return null
    else .takeString contents

/-- The file is not closed, so what is written stays in its buffer. -/
def writeFile (path written : Bytes) : Prog false Unit := do
  if ← .outside fun world => (world.unwritable path, world) then
    .fail (text "File does not exist: '" ++ path ++ text "'")
  else
    .outside fun world => ((), { world with
      files := Function.update world.files path (some [])
      buffered := world.buffered ++ [(path, cString written)] })

def clockNative : NativeFn false := fun argCount _ => do
  assertArgCount (text "@clock") 0 argCount
  return f64Value (← nextCall World.clocks)

def versionNative (version : Bytes) : NativeFn false := fun argCount _ => do
  assertArgCount (text "@version") 0 argCount
  return .obj (← .copyString version)

def exitNative : NativeFn false := fun argCount args => do
  assertArgCount (text "@exit") 1 argCount
  assertArgIsNumber (text "@exit") args 0
  let exitCode := numberArg (args 0)
  assertGtEq libc (text "@exit") exitCode 0 0
  assertLtEq libc (text "@exit") exitCode 255 0
  .exit (cInt exitCode)

def randNative : NativeFn false := fun argCount _ => do
  assertArgCount (text "@rand") 0 argCount
  return f64Value (Float.ofNat (← nextCall World.rands))

def rand01Native : NativeFn false := fun argCount _ => do
  assertArgCount (text "@rand01") 0 argCount
  return f64Value (Float.ofNat (← nextCall World.rands) / randMax)

def randBetweenNative : NativeFn false := fun argCount args => do
  assertArgCount (text "@randBetween") 2 argCount
  assertArgIsNumber (text "@randBetween") args 0
  assertArgIsNumber (text "@randBetween") args 1
  let min := numberArg (args 0)
  let max := numberArg (args 1)
  if max < min then
    raiseError (text "function @randBetween expects argument 1 to be less than or equal to argument 2.")
  let r := Float.ofNat (← nextCall World.rands) / randMax
  let result := min + r * (max - min)
  return i64Value result.ceil.toInt64.toInt

/-- The natives that are a function on doubles. -/
def floatNative (function : String) (f : Float → Float) : NativeFn false := fun argCount args => do
  assertArgCount (text function) 1 argCount
  assertArgIsNumber (text function) args 0
  return f64Value (f (numberArg (args 0)))

def ceilNative : NativeFn false := floatNative "@ceil" Float.ceil

def fileExistsNative : NativeFn false := fun argCount args => do
  assertArgCount (text "@fileExists") 1 argCount
  assertArgIsString (text "@fileExists") args 0
  let path ← asString (args 0)
  let found ← .outside fun world => ((world.files (cString path.chars)).isSome, world)
  return .boolean found

def readFileToStringNative : NativeFn false := fun argCount args => do
  assertArgCount (text "@readFileToString") 1 argCount
  assertArgIsString (text "@readFileToString") args 0
  let path ← asString (args 0)
  return .obj (← readFile (cString path.chars))

def writeStringToFileNative : NativeFn false := fun argCount args => do
  assertArgCount (text "@writeStringToFile") 2 argCount
  assertArgIsString (text "@writeStringToFile") args 0
  assertArgIsString (text "@writeStringToFile") args 1
  let path ← asString (args 0)
  let written ← asString (args 1)
  writeFile (cString path.chars) written.chars
  return .nil

def nowNative : NativeFn false := fun argCount _ => do
  assertArgCount (text "@now") 0 argCount
  return i64Value (← nextCall World.times)

def getEnvNative : NativeFn false := fun argCount args => do
  assertArgCount (text "@getenv") 1 argCount
  assertArgIsString (text "@getenv") args 0
  let name ← asString (args 0)
  match ← .outside fun world => (world.environment (cString name.chars), world) with
  | none =>
    .fail (text "Environment variable not found: '" ++ cString name.chars ++ text "'")
  | some value => return .obj (← .copyString value)

def setEnvNative : NativeFn false := fun argCount args => do
  assertArgCount (text "@setenv") 2 argCount
  assertArgIsString (text "@setenv") args 0
  assertArgIsString (text "@setenv") args 1
  let name := cString (← asString (args 0)).chars
  let value := cString (← asString (args 1)).chars
  if ← .outside fun world => (world.setenvRefuses name, world) then
    .fail (text "setenv unable to set environment variable: '" ++ name ++ text "'")
  .outside fun world => ((), { world with
    environment := Function.update world.environment name (some value) })
  return .nil

def strLenNative : NativeFn false := fun argCount args => do
  assertArgCount (text "@strLen") 1 argCount
  assertArgIsString (text "@strLen") args 0
  return i64Value (← asString (args 0)).chars.length

def listLenNative : NativeFn false := fun argCount args => do
  assertArgCount (text "@listLen") 1 argCount
  assertArgIsList (text "@listLen") args 0
  return i64Value (← asList (args 0)).2.values.length

/-! ### Printing -/

/-- The natives that print their argument. -/
def printingNative (function : String) (toErr : Bool) (newline : Bool) : NativeFn false :=
  fun argCount args => do
    assertArgCount (text function) 1 argCount
    let printed ← .printed toErr (args 0)
    let line := printed ++ if newline then text "\n" else []
    .outside fun world => ((),
      if toErr then { world with stderr := world.stderr ++ line }
      else { world with stdout := world.stdout ++ line })
    return .nil

def printNative : NativeFn false := printingNative "@print" false false

def printlnNative : NativeFn false := printingNative "@println" false true

def eprintNative : NativeFn false := printingNative "@eprint" true false

def eprintlnNative : NativeFn false := printingNative "@eprintln" true true

/-! ### Kinds of values -/

def typeofNative : NativeFn false := fun argCount args => do
  assertArgCount (text "@typeof") 1 argCount
  let buffer ← .typeName (args 0)
  return .obj (← .takeString buffer)

def isHelper (value : Value) (type : Bytes) : Prog false Bool := do
  return (← .typeName value) == type

def isNative : NativeFn false := fun argCount args => do
  assertArgCount (text "@is") 2 argCount
  assertArgIsString (text "@is") args 1
  let type ← asString (args 1)
  return .boolean (← isHelper (args 0) (cString type.chars))

def isNumberNative : NativeFn false := fun argCount args => do
  assertArgCount (text "@isNumber") 1 argCount
  return .boolean (isNumber (args 0))

/-- The natives that test the type of their argument by its name. -/
def hasTypeNative (function type : String) : NativeFn false := fun argCount args => do
  assertArgCount (text function) 1 argCount
  return .boolean (← isHelper (args 0) (text type))

def isFunctionNative : NativeFn false := hasTypeNative "@isFunction" "function"

def isBoolNative : NativeFn false := hasTypeNative "@isBool" "bool"

def isStringNative : NativeFn false := hasTypeNative "@isString" "string"

def isNilNative : NativeFn false := hasTypeNative "@isNil" "nil"

def instanceOfNative : NativeFn false := fun argCount args => do
  assertArgCount (text "@instanceOf") 2 argCount
  assertArgIsStruct (text "@instanceOf") args 1
  match args 0, args 1 with
  | .obj r, .obj struct2 => do
    match ← .load r with
    | .instance_ instance_ => return .boolean (instance_.struct_ == struct2)
    | _ => return .boolean false
  | _, _ => return .boolean false

/-! ### Lists -/

def listPushNative : NativeFn false := fun argCount args => do
  assertArgCount (text "@listPush") 2 argCount
  assertArgIsList (text "@listPush") args 0
  let (list, _) ← asList (args 0)
  .writeValueToListObj list (args 1)
  return .nil

def listPopNative : NativeFn false := fun argCount args => do
  assertArgCount (text "@listPop") 1 argCount
  assertArgIsList (text "@listPop") args 0
  let (r, list) ← asList (args 0)
  match list.values.getLast? with
  | none => .fail (text "Cannot pop empty list.")
  | some value => do
    .setListValues r list.values.dropLast
    return value

def listInsertNative : NativeFn false := fun argCount args => do
  assertArgCount (text "@listInsert") 3 argCount
  assertArgIsList (text "@listInsert") args 0
  assertArgIsNumber (text "@listInsert") args 1
  let (r, list) ← asList (args 0)
  assertWholeNumber libc (text "@listInsert") (numberArg (args 1)) 1
  let index := cInt (numberArg (args 1))
  assertIsInListBounds list index
  .writeValueToListObj r .nil
  .setListValues r
    (list.values.take index.toNat ++ args 2 :: list.values.drop index.toNat)
  return .nil

def listRemoveNative : NativeFn false := fun argCount args => do
  assertArgCount (text "@listRemove") 2 argCount
  assertArgIsList (text "@listRemove") args 0
  assertArgIsNumber (text "@listRemove") args 1
  let (r, list) ← asList (args 0)
  assertWholeNumber libc (text "@listRemove") (numberArg (args 1)) 1
  let index := cInt (numberArg (args 1))
  assertIsInListBounds list index
  match list.values[index.toNat]? with
  | none =>
    .fail (text "index " ++ decimal index ++ text " out of bounds. list length: " ++
      decimal list.values.length)
  | some removed => do
    .setListValues r (list.values.eraseIdx index.toNat)
    return removed

def listClearNative : NativeFn false := fun argCount args => do
  assertArgCount (text "@listClear") 1 argCount
  assertArgIsList (text "@listClear") args 0
  let (r, _) ← asList (args 0)
  .setListValues r []
  return .nil

def listContainsNative : NativeFn false := fun argCount args => do
  assertArgCount (text "@listContains") 2 argCount
  assertArgIsList (text "@listContains") args 0
  let (_, list) ← asList (args 0)
  return .boolean (list.values.any fun value => valuesEqual value (args 1))

/-- Append values to a list, one after the other. -/
def appendValues (list : Ref) (values : List Value) : Prog false Unit :=
  values.forM fun value => .writeValueToListObj list value

/-- Make a list of the values; it is on the stack while it is filled. -/
def listOfValues (values : List Value) : Prog false Value := do
  let list ← .newList
  .holding (.obj list) (appendValues list values)
  return .obj list

def listCopyNative : NativeFn false := fun argCount args => do
  assertArgCount (text "@listCopy") 1 argCount
  assertArgIsList (text "@listCopy") args 0
  let (_, list) ← asList (args 0)
  listOfValues list.values

def listIsEmptyNative : NativeFn false := fun argCount args => do
  assertArgCount (text "@listIsEmpty") 1 argCount
  assertArgIsList (text "@listIsEmpty") args 0
  let (_, list) ← asList (args 0)
  return .boolean list.values.isEmpty

def strIsEmptyNative : NativeFn false := fun argCount args => do
  assertArgCount (text "@strIsEmpty") 1 argCount
  assertArgIsString (text "@strIsEmpty") args 0
  return .boolean (← asString (args 0)).chars.isEmpty

/-- The loop that compares two lists of values. -/
def allValuesEqual (a b : List Value) : Bool :=
  a.length == b.length && (a.zip b).all fun (x, y) => valuesEqual x y

def listEqualNative : NativeFn false := fun argCount args => do
  assertArgCount (text "@listEqual") 2 argCount
  assertArgIsList (text "@listEqual") args 0
  assertArgIsList (text "@listEqual") args 1
  let (_, a) ← asList (args 0)
  let (_, b) ← asList (args 1)
  return .boolean (allValuesEqual a.values b.values)

/-- The part that `@listSlice` and `@arrSlice` share: check the bounds and copy what is between. -/
def sliceValues (function : String) (values : List Value)
    (assertIsInBounds : ℤ → Prog false Unit) (args : ℕ → Value) : Prog false Value := do
  let start := numberArg (args 1)
  assertPositiveNumber libc (text function) start 1
  assertWholeNumber libc (text function) start 1
  assertIsInBounds (cInt start)
  let end_ := numberArg (args 2)
  assertPositiveNumber libc (text function) end_ 2
  assertWholeNumber libc (text function) end_ 2
  assertIsInBounds (cInt end_)
  if end_ ≤ start then
    .fail (text "function " ++ text function ++
      text " expects argument 2 to be less than argument 3.")
  listOfValues ((values.take (cInt end_).toNat).drop (cInt start).toNat)

def listSliceNative : NativeFn false := fun argCount args => do
  assertArgCount (text "@listSlice") 3 argCount
  assertArgIsList (text "@listSlice") args 0
  assertArgIsNumber (text "@listSlice") args 1
  assertArgIsNumber (text "@listSlice") args 2
  let (_, list) ← asList (args 0)
  sliceValues libc "@listSlice" list.values (assertIsInListBounds list) args

def listConcatNative : NativeFn false := fun argCount args => do
  assertArgCount (text "@listConcat") 2 argCount
  assertArgIsList (text "@listConcat") args 0
  assertArgIsList (text "@listConcat") args 1
  let (_, a) ← asList (args 0)
  let (_, b) ← asList (args 1)
  listOfValues (a.values ++ b.values)

def listReverseNative : NativeFn false := fun argCount args => do
  assertArgCount (text "@listReverse") 1 argCount
  assertArgIsList (text "@listReverse") args 0
  let (_, a) ← asList (args 0)
  listOfValues a.values.reverse

/-- The strings of the elements, or the error at the first that is none. -/
def stringElements (name : String) : ℕ → List Value → Prog false (List ObjString)
  | _, [] => return []
  | i, value :: values => do
    if !(← isObj (fun o => o.string?.isSome) value) then
      .fail (text "function " ++ text name ++
        text " expects every element of argument 1 to be a string but element " ++ decimal i ++
        text " has type " ++ (← .typeName value) ++ text ".")
    let string ← asString value
    return string :: (← stringElements name (i + 1) values)

def joinStrings (name : String) (values : List Value) (separator : Bytes) : Prog false Value := do
  let strings ← stringElements name 0 values
  let chars := ((strings.map ObjString.chars).intersperse separator).flatten
  .reallocate 0 (chars.length + 1)
  return .obj (← .takeString chars)

def listJoinNative : NativeFn false := fun argCount args => do
  assertArgCount (text "@listJoin") 2 argCount
  assertArgIsList (text "@listJoin") args 0
  assertArgIsString (text "@listJoin") args 1
  let separator ← asString (args 1)
  let (_, list) ← asList (args 0)
  joinStrings "@listJoin" list.values separator.chars

def strConcatNative : NativeFn false := fun argCount args => do
  assertArgCount (text "@strConcat") 1 argCount
  assertArgIsList (text "@strConcat") args 0
  let (_, list) ← asList (args 0)
  joinStrings "@strConcat" list.values []

/-! ### Arrays -/

def arrLenNative : NativeFn false := fun argCount args => do
  assertArgCount (text "@arrLen") 1 argCount
  assertArgIsArray (text "@arrLen") args 0
  return i64Value (← asArray (args 0)).values.length

def arrContainsNative : NativeFn false := fun argCount args => do
  assertArgCount (text "@arrContains") 2 argCount
  assertArgIsArray (text "@arrContains") args 0
  let array ← asArray (args 0)
  return .boolean (array.values.any fun value => valuesEqual value (args 1))

def arrEqualNative : NativeFn false := fun argCount args => do
  assertArgCount (text "@arrEqual") 2 argCount
  assertArgIsArray (text "@arrEqual") args 0
  assertArgIsArray (text "@arrEqual") args 1
  let a ← asArray (args 0)
  let b ← asArray (args 1)
  return .boolean (allValuesEqual a.values b.values)

/-- Make an array of the values; nothing is allocated after it. -/
def arrayOfValues (values : List Value) : Prog false Value := do
  let array ← .newArray values.length
  .setArrayValues array values
  return .obj array

def arrCopyNative : NativeFn false := fun argCount args => do
  assertArgCount (text "@arrCopy") 1 argCount
  assertArgIsArray (text "@arrCopy") args 0
  arrayOfValues (← asArray (args 0)).values

def arrReverseNative : NativeFn false := fun argCount args => do
  assertArgCount (text "@arrReverse") 1 argCount
  assertArgIsArray (text "@arrReverse") args 0
  arrayOfValues (← asArray (args 0)).values.reverse

def arrJoinNative : NativeFn false := fun argCount args => do
  assertArgCount (text "@arrJoin") 2 argCount
  assertArgIsArray (text "@arrJoin") args 0
  assertArgIsString (text "@arrJoin") args 1
  let separator ← asString (args 1)
  let array ← asArray (args 0)
  joinStrings "@arrJoin" array.values separator.chars

def arrSliceNative : NativeFn false := fun argCount args => do
  assertArgCount (text "@arrSlice") 3 argCount
  assertArgIsArray (text "@arrSlice") args 0
  assertArgIsNumber (text "@arrSlice") args 1
  assertArgIsNumber (text "@arrSlice") args 2
  let array ← asArray (args 0)
  sliceValues libc "@arrSlice" array.values (assertIsInArrayBounds array) args

def arrConcatNative : NativeFn false := fun argCount args => do
  assertArgCount (text "@arrConcat") 2 argCount
  assertArgIsArray (text "@arrConcat") args 0
  assertArgIsArray (text "@arrConcat") args 1
  let a ← asArray (args 0)
  let b ← asArray (args 1)
  listOfValues (a.values ++ b.values)

def arrToListNative : NativeFn false := fun argCount args => do
  assertArgCount (text "@arrToList") 1 argCount
  assertArgIsArray (text "@arrToList") args 0
  listOfValues (← asArray (args 0)).values

/-! ### Input -/

/-- What the loop over the input ends with: the buffer is full, or it holds the input, with its
capacity, and `atEnd` says whether the loop stopped at the end of the input. -/
inductive InputEnd
  | full
  | done (chars : Bytes) (capacity : ℕ) (atEnd : Bool)
  deriving DecidableEq, Repr

/-- The loop over the input with the sizes the buffer has been grown to, newest first, and the input
that is left. -/
def readInput (maxBytes : ℕ) (toNewline : Bool) :
    Bytes → (capacity : ℕ) → (chars : Bytes) → (grown : List ℕ) → InputEnd × List ℕ × Bytes
  | [], capacity, chars, grown => (.done chars capacity true, grown, [])
  | c :: rest, capacity, chars, grown =>
    if toNewline && c == 10 then (.done chars capacity false, grown, rest)
    else if c = 13 then readInput maxBytes toNewline rest capacity chars grown
    else if capacity ≤ chars.length + 1 then
      let newCapacity := Nat.min (capacity * 2) maxBytes
      if capacity = maxBytes then (.full, grown, rest)
      else readInput maxBytes toNewline rest newCapacity (chars ++ [c]) (newCapacity :: grown)
    else readInput maxBytes toNewline rest capacity (chars ++ [c]) grown

/-- The growing of the buffer, from a capacity on. -/
def growBuffer : ℕ → List ℕ → Prog true ℕ
  | capacity, [] => return capacity
  | capacity, newCapacity :: grown => do
    .reallocate capacity newCapacity
    growBuffer newCapacity grown

/-- Print the prompt, if there is one; `false` after an error. -/
def printPrompt (name : String) (argCount : ℕ) (args : ℕ → Value) : Prog true Bool :=
  if argCount = 1 then do
    if ← isObj (fun o => o.string?.isSome) (args 0) then
      let prompt ← asString (args 0)
      .outside fun world => (true, { world with stdout := world.stdout ++ prompt.chars })
    else
      .report rfl (text name ++ text "() argument must be a string.")
      return false
  else return true

/-- What becomes of the buffer. -/
def finishInput (tooLong : String) (capacity : ℕ) : InputEnd → Prog true Value
  | .full => do
    .reallocate capacity 0
    .report rfl (text tooLong ++ text "() exceeded maximum length.")
    return .nil
  | .done chars _ atEnd =>
    if atEnd && chars.isEmpty then do
      .reallocate capacity 0
      return .nil
    else do return .obj (← .takeString chars)

/-- Read the input into a buffer and make a string of it. After an error this is nil. -/
def takeInput (tooLong : String) (maxBytes : ℕ) (toNewline : Bool) : Prog true Value := do
  .reallocate 0 64
  let input ← .outside fun world => (world.stdin, world)
  let read := readInput maxBytes toNewline input 64 [] []
  let capacity ← growBuffer 64 read.2.1.reverse
  .outside fun world => ((), { world with stdin := read.2.2 })
  finishInput tooLong capacity read.1

/-- What `@stdin` and `@prompt` do once the arguments have been counted. After an error of theirs
they return nil. -/
def inputNative (name tooLong : String) (maxBytes : ℕ) (toNewline : Bool) (argCount : ℕ)
    (args : ℕ → Value) : Prog true Value := do
  if ← printPrompt name argCount args then takeInput tooLong maxBytes toNewline else return .nil

def stdinNative : NativeFn true := fun argCount args => do
  if 1 < argCount then
    assertArgCount (text "@stdin") 1 argCount
  inputNative "input" "stdin" (1024 * 1024 * 5) false argCount args

def promptNative : NativeFn true := fun argCount args => do
  if 1 < argCount then
    assertArgCount (text "@prompt") 1 argCount
    assertArgIsString (text "@prompt") args 0
  inputNative "prompt" "input" (1024 * 1024) true argCount args

def argvNative : NativeFn false := fun argCount args => do
  assertArgCount (text "@argv") 1 argCount
  assertArgIsNumber (text "@argv") args 0
  assertWholeNumber libc (text "@argv") (numberArg (args 0)) 0
  let idx := cInt (numberArg (args 0))
  match ← .outside fun world => (world.argv[idx.toNat]?, world) with
  | some argument => if idx < 0 then return .nil else return .obj (← .copyString argument)
  | none => return .nil

def argcNative : NativeFn false := fun argCount _ => do
  assertArgCount (text "@argc") 0 argCount
  return i64Value (← .outside fun world => ((world.argv.length : ℤ), world))

/-! ### Numbers -/

inductive NumberTextKind
  | whole
  | decimal
  deriving DecidableEq

def isDigit (c : UInt8) : Bool := 48 ≤ c && c ≤ 57

/-- `none` when there is no digit. -/
def skipDigits (chars : Bytes) : Option Bytes :=
  match chars with
  | c :: rest => if isDigit c then some (rest.dropWhile isDigit) else none
  | [] => none

def skipSign (chars : Bytes) : Bytes :=
  match chars with
  | c :: rest => if c = 43 ∨ c = 45 then rest else c :: rest
  | [] => []

/-- The digits after a point, when there is one. -/
def skipFraction : Bytes → Option Bytes
  | 46 :: rest => skipDigits rest
  | chars => some chars

/-- The exponent, when there is one. -/
def skipExponent : Bytes → Option Bytes
  | 101 :: rest => skipDigits (skipSign rest)
  | 69 :: rest => skipDigits (skipSign rest)
  | chars => some chars

def isNumberText (chars : Bytes) (kind : NumberTextKind) : Bool :=
  let rest : Option Bytes := do
    let rest ← skipDigits (skipSign chars)
    if kind = .decimal then skipExponent (← skipFraction rest) else some rest
  rest == some []

def parseArgError {α : Type} (function expectation : String) (chars : Bytes) : Prog false α :=
  .fail (text "function " ++ text function ++ text " expects argument 1 to be " ++
    text expectation ++ text " but got \"" ++ chars ++ text "\".")

def parseIntNative : NativeFn false := fun argCount args => do
  assertArgCount (text "@parseInt") 1 argCount
  assertArgIsString (text "@parseInt") args 0
  let string ← asString (args 0)
  if !isNumberText string.chars .whole then
    parseArgError "@parseInt" "a whole number" string.chars
  let value := atoi string.chars
  if value < -2 ^ 63 ∨ 2 ^ 63 ≤ value then
    parseArgError "@parseInt"
      "a whole number from -9223372036854775808 to 9223372036854775807" string.chars
  return i64Value value

def parseFloatNative : NativeFn false := fun argCount args => do
  assertArgCount (text "@parseFloat") 1 argCount
  assertArgIsString (text "@parseFloat") args 0
  let string ← asString (args 0)
  if !isNumberText string.chars .decimal then
    parseArgError "@parseFloat" "a number such as 1.5 or 2.5e-4" string.chars
  let (value, outOfRange) := libc.strtod string.chars
  if outOfRange && value.isInf then
    parseArgError "@parseFloat" "a number small enough for an f64" string.chars
  return f64Value value

def numberToStringNative : NativeFn false := fun argCount args => do
  assertArgCount (text "@numberToString") 1 argCount
  assertArgIsAnyNumber (text "@numberToString") args 0
  return .obj (← .copyString (plainText libc (args 0)))

def boolToStringNative : NativeFn false := fun argCount args => do
  assertArgCount (text "@boolToString") 1 argCount
  assertArgIsBool (text "@boolToString") args 0
  return .obj (← .copyString (plainText libc (args 0)))

def floorNative : NativeFn false := floatNative "@floor" Float.floor

def roundNative : NativeFn false := floatNative "@round" Float.round

def truncNative : NativeFn false := floatNative "@trunc" libc.trunc

def absNative : NativeFn false := floatNative "@abs" Float.abs

def sqrtNative : NativeFn false := fun argCount args => do
  assertArgCount (text "@sqrt") 1 argCount
  assertArgIsNumber (text "@sqrt") args 0
  let number := numberArg (args 0)
  assertNonNegativeNumber libc (text "@sqrt") number 0
  return f64Value number.sqrt

def powNative : NativeFn false := fun argCount args => do
  assertArgCount (text "@pow") 2 argCount
  assertArgIsNumber (text "@pow") args 0
  assertArgIsNumber (text "@pow") args 1
  let base := numberArg (args 0)
  let exponent := numberArg (args 1)
  if base == 0 && exponent < 0 then
    .fail (text "function @pow can't raise 0 to a negative power (" ++ libc.general exponent ++
      text ").")
  if base < 0 && exponent != exponent.floor then
    .fail (text "function @pow can't raise a negative number (" ++ libc.general base ++
      text ") to a fractional power (" ++ libc.general exponent ++ text ").")
  return f64Value (base.pow exponent)

/-- The natives that are a function on two doubles. -/
def floatNative₂ (function : String) (f : Float → Float → Float) : NativeFn false :=
  fun argCount args => do
    assertArgCount (text function) 2 argCount
    assertArgIsNumber (text function) args 0
    assertArgIsNumber (text function) args 1
    return f64Value (f (numberArg (args 0)) (numberArg (args 1)))

def minNative : NativeFn false := floatNative₂ "@min" libc.fmin

def maxNative : NativeFn false := floatNative₂ "@max" libc.fmax

/-! ### Stopping -/

def raiseScriptMessage {α : Type} (messageStart : String) (message : Bytes) : Prog false α :=
  .fail (text messageStart ++ message)

def assertNative : NativeFn false := fun argCount args => do
  assertArgCount (text "@assert") 2 argCount
  assertArgIsBool (text "@assert") args 0
  assertArgIsString (text "@assert") args 1
  if args 0 = .boolean false then
    raiseScriptMessage "assertion failed: " (← asString (args 1)).chars
  return .nil

def panicNative : NativeFn false := fun argCount args => do
  assertArgCount (text "@panic") 1 argCount
  assertArgIsString (text "@panic") args 0
  raiseScriptMessage "panic: " (← asString (args 0)).chars

/-! ### Strings -/

/-- The loop of `findBytes`, for at most the given number of places. -/
def findBytesLoop (haystack needle : Bytes) : ℕ → ℕ → Option ℕ
  | 0, _ => none
  | rounds + 1, i =>
    if haystack.length < i + needle.length then none
    else if (haystack.drop i).take needle.length = needle then some i
    else findBytesLoop haystack needle rounds (i + 1)

def findBytes (haystack : Bytes) (start : ℕ) (needle : Bytes) : Option ℕ :=
  findBytesLoop haystack needle (haystack.length + 1) start

/-- The natives that test one string against another. -/
def compareNative (function : String) (test : Bytes → Bytes → Bool) : NativeFn false :=
  fun argCount args => do
    assertArgCount (text function) 2 argCount
    assertArgIsString (text function) args 0
    assertArgIsString (text function) args 1
    let string ← asString (args 0)
    let sub ← asString (args 1)
    return .boolean (test string.chars sub.chars)

def strContainsNative : NativeFn false :=
  compareNative "@strContains" fun string sub => (findBytes string 0 sub).isSome

def strStartsWithNative : NativeFn false :=
  compareNative "@strStartsWith" fun string start =>
    decide (start.length ≤ string.length) && string.take start.length == start

def strEndsWithNative : NativeFn false :=
  compareNative "@strEndsWith" fun string ending =>
    decide (ending.length ≤ string.length) &&
      string.drop (string.length - ending.length) == ending

def isTrimmedChar (c : UInt8) : Bool := c == 32 || c == 9 || c == 10 || c == 13

def strTrimNative : NativeFn false := fun argCount args => do
  assertArgCount (text "@strTrim") 1 argCount
  assertArgIsString (text "@strTrim") args 0
  let string ← asString (args 0)
  let fromStart := string.chars.dropWhile isTrimmedChar
  return .obj (← .copyString (fromStart.reverse.dropWhile isTrimmedChar).reverse)

def changeAsciiCase (chars : Bytes) (toUpper : Bool) : Prog false Value := do
  .reallocate 0 (chars.length + 1)
  let changed := chars.map fun c =>
    if toUpper && 97 ≤ c && c ≤ 122 then c - 97 + 65
    else if !toUpper && 65 ≤ c && c ≤ 90 then c - 65 + 97
    else c
  return .obj (← .takeString changed)

def strToUpperNative : NativeFn false := fun argCount args => do
  assertArgCount (text "@strToUpper") 1 argCount
  assertArgIsString (text "@strToUpper") args 0
  changeAsciiCase (← asString (args 0)).chars true

def strToLowerNative : NativeFn false := fun argCount args => do
  assertArgCount (text "@strToLower") 1 argCount
  assertArgIsString (text "@strToLower") args 0
  changeAsciiCase (← asString (args 0)).chars false

/-- `INT_MAX`. -/
def intMax : ℕ := 2147483647

def strRepeatNative : NativeFn false := fun argCount args => do
  assertArgCount (text "@strRepeat") 2 argCount
  assertArgIsString (text "@strRepeat") args 0
  assertArgIsNumber (text "@strRepeat") args 1
  let string ← asString (args 0)
  let number := numberArg (args 1)
  assertNonNegativeNumber libc (text "@strRepeat") number 1
  assertWholeNumber libc (text "@strRepeat") number 1
  if string.chars.isEmpty || number < 1 then
    return .obj (← .copyString [])
  else do
    if !(number ≤ Float.ofNat (intMax - 1) / Float.ofNat string.chars.length) then
      raiseError (text "function @strRepeat result is too large.")
    let count := (cInt number).toNat
    let chars := (List.replicate count string.chars).flatten
    .reallocate 0 (chars.length + 1)
    return .obj (← .takeString chars)

/-- The new string is on the stack while the list may grow. -/
def appendStringCopy (list : Ref) (chars : Bytes) : Prog false Unit := do
  let piece ← .copyString chars
  .holding (.obj piece) (.writeValueToListObj list (.obj piece))

/-- The pieces between the separators, from `start` on, in at most the given number of rounds. -/
def splitPieces (string separator : Bytes) : ℕ → ℕ → List Bytes
  | 0, _ => []
  | rounds + 1, start =>
    match findBytes string start separator with
    | some found =>
      (string.drop start).take (found - start) ::
        splitPieces string separator rounds (found + separator.length)
    | none => [string.drop start]

def strSplitNative : NativeFn false := fun argCount args => do
  assertArgCount (text "@strSplit") 2 argCount
  assertArgIsString (text "@strSplit") args 0
  assertArgIsString (text "@strSplit") args 1
  let string ← asString (args 0)
  let separator ← asString (args 1)
  let result ← .newList
  let pieces :=
    if separator.chars.isEmpty then string.chars.map fun c => [c]
    else splitPieces string.chars separator.chars (string.chars.length + 1) 0
  .holding (.obj result) (pieces.forM fun piece => appendStringCopy result piece)
  return .obj result

def strIndexOfNative : NativeFn false := fun argCount args => do
  assertArgCount (text "@strIndexOf") 2 argCount
  assertArgIsString (text "@strIndexOf") args 0
  assertArgIsString (text "@strIndexOf") args 1
  let string ← asString (args 0)
  let sub ← asString (args 1)
  match findBytes string.chars 0 sub.chars with
  | some index => return i64Value index
  | none => return i64Value (-1)

def assertStringPosition (function : String) (string : ObjString) (number : Float) (index : ℕ) :
    Prog false ℕ := do
  assertWholeNumber libc (text function) number index
  if !(0 ≤ number && number ≤ Float.ofNat string.chars.length) then
    .fail (text "function " ++ text function ++ text " expects argument " ++ decimal (index + 1) ++
      text " to be between 0 and " ++ decimal string.chars.length ++ text " but got " ++
      libc.general number ++ text ".")
  return (cInt number).toNat

def strSliceNative : NativeFn false := fun argCount args => do
  assertArgCount (text "@strSlice") 3 argCount
  assertArgIsString (text "@strSlice") args 0
  assertArgIsNumber (text "@strSlice") args 1
  assertArgIsNumber (text "@strSlice") args 2
  let string ← asString (args 0)
  let start ← assertStringPosition libc "@strSlice" string (numberArg (args 1)) 1
  let end_ ← assertStringPosition libc "@strSlice" string (numberArg (args 2)) 2
  if end_ < start then
    .fail (text "function @strSlice expects argument 2 to be less than or equal to argument 3.")
  return .obj (← .copyString ((string.chars.drop start).take (end_ - start)))

def strToBytesNative : NativeFn false := fun argCount args => do
  assertArgCount (text "@strToBytes") 1 argCount
  assertArgIsString (text "@strToBytes") args 0
  let string ← asString (args 0)
  listOfValues (string.chars.map u8Value)

/-- The places of the matches from a place on, none overlapping another. -/
def matchesFrom (string old : Bytes) (all : Bool) : ℕ → ℕ → List ℕ
  | 0, _ => []
  | rounds + 1, start =>
    match findBytes string start old with
    | some found =>
      found :: if all then matchesFrom string old all rounds (found + old.length) else []
    | none => []

/-- The string from `read` on, with the matches replaced. -/
def replaceAt (string old replacement : Bytes) : ℕ → List ℕ → Bytes
  | read, [] => string.drop read
  | read, next :: rest =>
    (string.drop read).take (next - read) ++ replacement ++
      replaceAt string old replacement (next + old.length) rest

def replaceMatches (function : String) (argCount : ℕ) (args : ℕ → Value) (all : Bool) :
    Prog false Value := do
  assertArgCount (text function) 3 argCount
  assertArgIsString (text function) args 0
  assertArgIsString (text function) args 1
  assertArgIsString (text function) args 2
  let string ← asString (args 0)
  let old ← asString (args 1)
  let replacement ← asString (args 2)
  let found :=
    if old.chars.isEmpty then []
    else matchesFrom string.chars old.chars all (string.chars.length + 1) 0
  if found.isEmpty then return args 0
  else do
    let length : ℤ := string.chars.length +
      found.length * ((replacement.chars.length : ℤ) - old.chars.length)
    if intMax ≤ length then
      .fail (text "function " ++ text function ++ text " result is too large.")
    .reallocate 0 (length.toNat + 1)
    return .obj (← .takeString (replaceAt string.chars old.chars replacement.chars 0 found))

def strReplaceNative : NativeFn false := fun argCount args =>
  replaceMatches "@strReplace" argCount args false

def strReplaceAllNative : NativeFn false := fun argCount args =>
  replaceMatches "@strReplaceAll" argCount args true

/-! ### The table of natives -/

/-- A native, by whether it may go on after it has reported an error. -/
inductive Native
  | stops (fn : NativeFn false)
  | goesOn (fn : NativeFn true)

/-- The natives by name, in the order they are defined in. -/
def nativeDefinitions (version : Bytes) : List (String × Native) :=
  [("@clock", .stops clockNative), ("@version", .stops (versionNative version)),
    ("@exit", .stops (exitNative libc)), ("@rand", .stops randNative),
    ("@rand01", .stops rand01Native), ("@randBetween", .stops randBetweenNative),
    ("@ceil", .stops ceilNative), ("@readFileToString", .stops readFileToStringNative),
    ("@writeStringToFile", .stops writeStringToFileNative),
    ("@numberToString", .stops (numberToStringNative libc)),
    ("@boolToString", .stops (boolToStringNative libc)),
    ("@fileExists", .stops fileExistsNative), ("@getenv", .stops getEnvNative),
    ("@setenv", .stops setEnvNative), ("@strLen", .stops strLenNative),
    ("@arrLen", .stops arrLenNative), ("@arrContains", .stops arrContainsNative),
    ("@arrEqual", .stops arrEqualNative), ("@arrCopy", .stops arrCopyNative),
    ("@arrReverse", .stops arrReverseNative), ("@arrJoin", .stops arrJoinNative),
    ("@arrSlice", .stops (arrSliceNative libc)), ("@arrConcat", .stops arrConcatNative),
    ("@arrToList", .stops arrToListNative), ("@listLen", .stops listLenNative),
    ("@typeof", .stops typeofNative), ("@print", .stops printNative),
    ("@println", .stops printlnNative), ("@eprint", .stops eprintNative),
    ("@eprintln", .stops eprintlnNative), ("@argv", .stops (argvNative libc)),
    ("@argc", .stops argcNative), ("@parseInt", .stops parseIntNative),
    ("@parseFloat", .stops (parseFloatNative libc)),
    ("@instanceOf", .stops instanceOfNative), ("@prompt", .goesOn promptNative),
    ("@stdin", .goesOn stdinNative), ("@listPush", .stops listPushNative),
    ("@listPop", .stops listPopNative), ("@listInsert", .stops (listInsertNative libc)),
    ("@listRemove", .stops (listRemoveNative libc)), ("@listClear", .stops listClearNative),
    ("@listContains", .stops listContainsNative), ("@listCopy", .stops listCopyNative),
    ("@listIsEmpty", .stops listIsEmptyNative), ("@listEqual", .stops listEqualNative),
    ("@listSlice", .stops (listSliceNative libc)), ("@listConcat", .stops listConcatNative),
    ("@listReverse", .stops listReverseNative), ("@listJoin", .stops listJoinNative),
    ("@strConcat", .stops strConcatNative), ("@is", .stops isNative),
    ("@isNumber", .stops isNumberNative), ("@isFunction", .stops isFunctionNative),
    ("@isBool", .stops isBoolNative), ("@isString", .stops isStringNative),
    ("@isNil", .stops isNilNative), ("@strIsEmpty", .stops strIsEmptyNative),
    ("@floor", .stops floorNative), ("@round", .stops roundNative),
    ("@trunc", .stops (truncNative libc)), ("@abs", .stops absNative),
    ("@sqrt", .stops (sqrtNative libc)), ("@pow", .stops (powNative libc)),
    ("@min", .stops (minNative libc)), ("@max", .stops (maxNative libc)),
    ("@assert", .stops assertNative), ("@panic", .stops panicNative),
    ("@strContains", .stops strContainsNative),
    ("@strStartsWith", .stops strStartsWithNative),
    ("@strEndsWith", .stops strEndsWithNative), ("@strTrim", .stops strTrimNative),
    ("@strToUpper", .stops strToUpperNative), ("@strToLower", .stops strToLowerNative),
    ("@strRepeat", .stops (strRepeatNative libc)), ("@strSplit", .stops strSplitNative),
    ("@strIndexOf", .stops strIndexOfNative), ("@strSlice", .stops (strSliceNative libc)),
    ("@strReplace", .stops strReplaceNative),
    ("@strReplaceAll", .stops strReplaceAllNative),
    ("@strToBytes", .stops strToBytesNative), ("@now", .stops nowNative)]

end KirbyLang.Vm
