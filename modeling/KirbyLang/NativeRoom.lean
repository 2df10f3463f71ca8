import KirbyLang.Native

/-!
# What natives keep on the stack

Natives push values to keep them from being collected. How many are on the stack at once is read off
the program of a native.

* `Prog.DepthAtMost`: a bound on the values that a program keeps on the stack;
* `natives_depth`: no native keeps more than two.
-/

namespace KirbyLang.Vm

variable {goesOn : Bool} {α β : Type} {n : ℕ}

/-- At most `n` values are on the stack at once, above what was there before. Strings are on the stack
while they are put into the table of strings. -/
@[simp] def Prog.DepthAtMost {goesOn : Bool} : {α : Type} → ℕ → Prog goesOn α → Prop
  | _, n, .bind p f => p.DepthAtMost n ∧ ∀ a, (f a).DepthAtMost n
  | _, n, .takeString _ => 1 ≤ n
  | _, n, .copyString _ => 1 ≤ n
  | _, n, .holding _ p => 1 ≤ n ∧ p.DepthAtMost (n - 1)
  | _, _, .pure _ | _, _, .load _ | _, _, .reallocate _ _ | _, _, .newList | _, _, .newArray _
  | _, _, .writeValueToListObj _ _ | _, _, .setListValues _ _ | _, _, .setArrayValues _ _
  | _, _, .printed _ _ | _, _, .typeName _ | _, _, .outside _ | _, _, .exit _ | _, _, .fail _
  | _, _, .report _ _ | _, _, .fault => True

section Commands

@[simp] theorem depth_pure (a : α) : (pure a : Prog goesOn α).DepthAtMost n := trivial

@[simp] theorem depth_bind (p : Prog goesOn α) (f : α → Prog goesOn β) :
    (p >>= f).DepthAtMost n ↔ p.DepthAtMost n ∧ ∀ a, (f a).DepthAtMost n := Iff.rfl

@[simp] theorem depth_ite (c : Prop) [Decidable c] (p q : Prog goesOn α) :
    (if c then p else q).DepthAtMost n ↔ (c → p.DepthAtMost n) ∧ (¬ c → q.DepthAtMost n) := by
  by_cases hc : c
  · simp [hc]
  · simp [hc]

@[simp] theorem depth_forM (xs : List β) (g : β → Prog goesOn PUnit) :
    (forM xs g).DepthAtMost n ↔ ∀ x ∈ xs, (g x).DepthAtMost n := by
  induction xs with
  | nil => simp
  | cons x xs ih => simp [ih]

end Commands

/-! ### Arguments -/

section Arguments

@[simp] theorem depth_isObj (kind : Obj → Bool) (value : Value) :
    (isObj kind value : Prog goesOn Bool).DepthAtMost n := by
  cases value <;> simp [isObj]

@[simp] theorem depth_asString (value : Value) :
    (asString value : Prog goesOn ObjString).DepthAtMost n := by
  cases value with
  | obj r =>
    refine ⟨trivial, fun o => ?_⟩
    cases o <;> trivial
  | _ => trivial

@[simp] theorem depth_asList (value : Value) :
    (asList value : Prog goesOn (Ref × ObjList)).DepthAtMost n := by
  cases value with
  | obj r =>
    refine ⟨trivial, fun o => ?_⟩
    cases o <;> trivial
  | _ => trivial

@[simp] theorem depth_asArray (value : Value) :
    (asArray value : Prog goesOn ObjArray).DepthAtMost n := by
  cases value with
  | obj r =>
    refine ⟨trivial, fun o => ?_⟩
    cases o <;> trivial
  | _ => trivial

@[simp] theorem depth_assertArg {is : Value → Prog goesOn Bool} (h : ∀ value, (is value).DepthAtMost n)
    (expected : String) (function : Bytes) (args : ℕ → Value) (index : ℕ) :
    (assertArg expected is function args index).DepthAtMost n := by
  simp [assertArg, h]

attribute [local simp] assertArgCount assertArgIsBool assertArgIsStruct assertArgIsList
  assertArgIsArray assertArgIsNumber assertArgIsAnyNumber assertArgIsString assertIsInBounds
  assertIsInListBounds assertIsInArrayBounds assertPositiveNumber assertGtEq assertLtEq
  assertNonNegativeNumber assertWholeNumber raiseError nextCall

/-! ### Parts of natives -/

@[simp] theorem depth_readFile (path : Bytes) : (readFile path).DepthAtMost 2 := by
  refine ⟨trivial, fun contents => ?_⟩
  cases contents <;> simp

/-- The list is on the stack; nothing else is pushed while it grows. -/
@[simp] theorem depth_listOfValues (values : List Value) : (listOfValues values).DepthAtMost 2 := by
  simp [listOfValues, appendValues]

@[simp] theorem depth_stringElements (name : String) (i : ℕ) (values : List Value) :
    (stringElements name i values).DepthAtMost 2 := by
  induction values generalizing i with
  | nil => trivial
  | cons value values ih => simp [stringElements, ih]

@[simp] theorem depth_growBuffer (capacity : ℕ) (grown : List ℕ) :
    (growBuffer capacity grown).DepthAtMost 2 := by
  induction grown generalizing capacity with
  | nil => trivial
  | cons newCapacity grown ih => exact ⟨trivial, fun _ => ih newCapacity⟩

@[simp] theorem depth_finishInput (tooLong : String) (capacity : ℕ) (ending : InputEnd) :
    (finishInput tooLong capacity ending).DepthAtMost 2 := by
  cases ending <;> simp [finishInput]

@[simp] theorem depth_inputNative (name tooLong : String) (maxBytes : ℕ) (toNewline : Bool)
    (argCount : ℕ) (args : ℕ → Value) :
    (inputNative name tooLong maxBytes toNewline argCount args).DepthAtMost 2 := by
  simp [inputNative, printPrompt, takeInput]

/-- A piece of a string is kept on the stack beside the list. -/
@[simp] theorem depth_appendStringCopy (list : Ref) (chars : Bytes) :
    (appendStringCopy list chars).DepthAtMost 1 := by
  simp [appendStringCopy]

/-! ### Natives -/

variable (libc : Libc) (argCount : ℕ) (args : ℕ → Value)

@[simp] theorem depth_getEnvNative : (getEnvNative argCount args).DepthAtMost 2 := by
  simp only [getEnvNative, depth_bind]
  refine ⟨by simp, fun _ => ⟨by simp, fun _ => ⟨by simp, fun name => ⟨trivial, fun value => ?_⟩⟩⟩⟩
  cases value <;> simp

@[simp] theorem depth_argvNative : (argvNative libc argCount args).DepthAtMost 2 := by
  simp only [argvNative, depth_bind]
  refine ⟨by simp, fun _ => ⟨by simp, fun _ => ⟨by simp, fun _ => ⟨trivial, fun argument => ?_⟩⟩⟩⟩
  cases argument <;> simp

@[simp] theorem depth_instanceOfNative : (instanceOfNative argCount args).DepthAtMost 2 := by
  simp only [instanceOfNative, depth_bind]
  refine ⟨by simp, fun _ => ⟨by simp, fun _ => ?_⟩⟩
  split
  · refine ⟨trivial, fun o => ?_⟩
    cases o <;> trivial
  · trivial

@[simp] theorem depth_listPopNative : (listPopNative argCount args).DepthAtMost 2 := by
  simp only [listPopNative, depth_bind]
  refine ⟨by simp, fun _ => ⟨by simp, fun _ => ⟨by simp, fun list => ?_⟩⟩⟩
  cases list.2.values.getLast? <;> simp

@[simp] theorem depth_listRemoveNative : (listRemoveNative libc argCount args).DepthAtMost 2 := by
  simp only [listRemoveNative, depth_bind]
  refine ⟨by simp, fun _ => ⟨by simp, fun _ => ⟨by simp, fun _ => ⟨by simp, fun list => ?_⟩⟩⟩⟩
  refine ⟨by simp, fun _ => ⟨by simp, fun _ => ?_⟩⟩
  cases list.2.values[(cInt (numberArg (args 1))).toNat]? <;> simp

@[simp] theorem depth_strIndexOfNative : (strIndexOfNative argCount args).DepthAtMost 2 := by
  simp only [strIndexOfNative, depth_bind]
  refine ⟨by simp, fun _ => ⟨by simp, fun _ => ⟨by simp, fun _ => ⟨by simp, fun string =>
    ⟨by simp, fun sub => ?_⟩⟩⟩⟩⟩
  cases findBytes string.chars 0 sub.chars <;> simp

attribute [local simp] writeFile floatNative floatNative₂ printingNative isHelper hasTypeNative
  sliceValues joinStrings arrayOfValues parseArgError raiseScriptMessage compareNative
  changeAsciiCase assertStringPosition replaceMatches

def Native.DepthAtMost (n : ℕ) : Native → Prop
  | .stops fn => ∀ argCount args, (fn argCount args).DepthAtMost n
  | .goesOn fn => ∀ argCount args, (fn argCount args).DepthAtMost n

/-- No native keeps more than two values on the stack. -/
theorem natives_depth (version : Bytes) :
    ∀ definition ∈ nativeDefinitions libc version, definition.2.DepthAtMost 2 := by
  simp only [nativeDefinitions, List.forall_mem_cons]
  simp [Native.DepthAtMost, clockNative, versionNative, exitNative, randNative,
    rand01Native, randBetweenNative, ceilNative, writeStringToFileNative, numberToStringNative,
    boolToStringNative, fileExistsNative, setEnvNative, strLenNative, arrLenNative,
    arrContainsNative, arrEqualNative, arrCopyNative, arrReverseNative, arrJoinNative,
    arrSliceNative, arrConcatNative, arrToListNative, listLenNative, typeofNative, printNative,
    printlnNative, eprintNative, eprintlnNative, argcNative, parseIntNative, parseFloatNative,
    listPushNative, listInsertNative, listClearNative, listContainsNative, listCopyNative,
    listIsEmptyNative, listEqualNative, listSliceNative, listConcatNative, listReverseNative,
    listJoinNative, strConcatNative, isNative, isNumberNative, isFunctionNative, isBoolNative,
    isStringNative, isNilNative, strIsEmptyNative, floorNative, roundNative, truncNative,
    absNative, sqrtNative, powNative, minNative, maxNative, assertNative, panicNative,
    strContainsNative, strStartsWithNative, strEndsWithNative, strTrimNative, strToUpperNative,
    strToLowerNative, strRepeatNative, strSplitNative, strSliceNative, strReplaceNative,
    strReplaceAllNative, strToBytesNative, nowNative, readFileToStringNative, promptNative,
    stdinNative]

end Arguments

end KirbyLang.Vm
