import KirbyLang.TypeEnv
import KirbyLang.TypeParts

/-!
# Values checked against a type

How a value is checked against the type it should have (`typchkCheckInto` and what it calls, in
`typecheck.c`). A value is described as far as its check looks at it; what the rest of the checker
makes of it is part of the description, since it is asked only once. A body's value depends on the
types that the parameters were given.

* `typchkCheckInto`, `typchkCheckOrInferLambda`, `bodyType`: the checks;
* `checkedType`: the type that a value is found to have;
* `typeAccepts_checkedType_iff`: when the type that is asked for accepts it.
-/

namespace KirbyLang

mutual

inductive ValueNode
  /-- An array literal, and its type when none is asked for. -/
  | array (items : List ValueNode) (inferred : Ty)
  /-- A declared type that does not resolve is unknown. -/
  | lambda (paramTypes : List (Option Ty)) (returnType : Option Ty) (body : BodyNode)
  /-- A variable or function, with its declared type, unknown if it has none. -/
  | variable_ (declared : Ty)
  /-- A struct literal, and its type when no instance is asked for. The declaration is `none` when
  there is none, or its members did not resolve. -/
  | structInit (declaration : Option StructDeclaration) (fieldNames : List Bytes)
      (values : List ValueNode) (inferred : Ty)
  /-- Any other expression. Its literals take the number type asked for, and a call takes the type
  asked for as what it should return. -/
  | other (applyExpectedNumberType : Ty → Bool) (infer : Ty → Ty)

inductive BodyNode
  | expr (value : List Ty → ValueNode)
  /-- A block without a value. -/
  | block (alwaysReturns : Bool)
  | blockValue (alwaysJumps isBranch alwaysYields : Bool) (value : List Ty → ValueNode)

end

/-! ### Generic functions as values -/

/-- A native's parameters have no name. -/
def typchkHasDeclaredGenericParams (type : Ty) : Bool :=
  (List.range (typeGenericParamCount type)).any fun index =>
    match typeFindGenericParam index type with
    | some (some _) => true
    | _ => false

def noBindings (count : ℕ) : List Ty := List.replicate count .unknown

/-- A generic function type with its parameters filled in from `expected`. -/
def typchkFillGenericFunctionValue (genericType expected : Ty) : Ty :=
  let bindings := noBindings (typeGenericParamCount genericType)
  match genericType, expected with
  | .fn paramTypes returnType, .fn expectedParams expectedReturn =>
    if paramTypes.length = expectedParams.length then
      typeSubstituteGenericParams genericType
        (typeBindGenericParams returnType expectedReturn
          (bindAll paramTypes expectedParams bindings))
    else typeSubstituteGenericParams genericType bindings
  | _, _ => typeSubstituteGenericParams genericType bindings

def typchkCheckGenericFunctionValue (genericType expected : Ty) : Bool :=
  typeAccepts expected
    (typeEraseGenericParams (typchkFillGenericFunctionValue genericType expected))

namespace Ty

def isFn : Ty → Bool
  | fn _ _ => true
  | _ => false

end Ty

/-- Whether a value of type `actual` is a generic function given where `expected` is wanted. -/
def isGenericFunctionValue (actual expected : Ty) : Bool :=
  expected.isFn && actual.isFn && typchkHasDeclaredGenericParams actual

/-- The end of `typchkCheckInto`, for a value whose own type was worked out. -/
def checkInferred (actual expected : Ty) : Option Ty :=
  if actual.isUnknown || expected.isUnknown then some .unknown
  else if isGenericFunctionValue actual expected then
    if typchkCheckGenericFunctionValue actual expected then some .unknown else none
  else if typeAccepts expected actual then some actual
  else none

/-- A generic function used as a value has no single type. -/
def typchkInferVariable (declared : Ty) : Ty :=
  if 0 < typeGenericParamCount declared then .unknown else declared

/-! ### Struct literals and lambdas -/

/-- The declared type of a field, or the same for an instance with its type arguments filled in. -/
def typeStructFieldLookup (declaration : StructDeclaration) (typeArgs : List Ty) (name : Bytes) :
    Ty :=
  if typeArgs.isEmpty then bindingArrayLookup declaration.fields name
  else typeSubstituteGenericParams (bindingArrayLookup declaration.fields name) typeArgs

/-- Whether a literal of a struct is checked against the instance that is asked for. -/
def isInstanceAskedFor (declaration : Option StructDeclaration) (expected : Ty) : Bool :=
  match declaration, expected with
  | some declaration, .struct name typeArgs =>
    !typeArgs.isEmpty && typeIsFullyKnown expected && decide (declaration.name = name)
  | _, _ => false

/-- The type of each field of a literal, as seen from the instance that is asked for. -/
def instanceFields (declaration : Option StructDeclaration) (fieldNames : List Bytes)
    (expected : Ty) : List Ty :=
  match declaration, expected with
  | some declaration, .struct _ typeArgs =>
    fieldNames.map (typeStructFieldLookup declaration typeArgs)
  | _, _ => []

/-- The types of a lambda's parameters: the declared one, else the one that is asked for. -/
def lambdaParamTypes (paramTypes : List (Option Ty)) (expected : Ty) : Option (List Ty) :=
  match expected with
  | .fn expectedParams _ =>
    if paramTypes.all fun type => type.all fun type => !type.isUnknown then
      some (List.zipWith (fun type expectedType => type.getD expectedType) paramTypes
        expectedParams)
    else none
  | _ =>
    if paramTypes.all fun type => !(type.getD .unknown).isUnknown then
      some (paramTypes.map fun type => type.getD .unknown)
    else none

/-- Whether a function type with another number of parameters, or no function, is asked for. -/
def lambdaMismatch (arity : ℕ) : Ty → Bool
  | .unknown => false
  | .fn expectedParams _ => decide (expectedParams.length ≠ arity)
  | _ => true

def expectedReturn : Ty → Ty
  | .fn _ returnType => returnType
  | _ => .unknown

def typchkCheckIfBodyProducesDeclaredValue (body : BodyNode) (returnType : Ty) : Bool :=
  returnType.isUnknown || typesEqual returnType .unit ||
    match body with
    | .expr _ => true
    | .block alwaysReturns => alwaysReturns
    | .blockValue _ _ alwaysYields _ => alwaysYields

/-- The type of a lambda, unknown when something was reported. `bodyType` is the type of what its
body yields, from the parameters' types and the return type. -/
def typchkCheckOrInferLambda (bodyType : List Ty → Ty → Ty) (body : BodyNode)
    (paramTypes : List (Option Ty)) (returnType : Option Ty) (expected : Ty) : Ty :=
  if lambdaMismatch paramTypes.length expected then .unknown
  else
    match lambdaParamTypes paramTypes expected with
    | none => .unknown
    | some params =>
      let declaredReturnType := returnType.getD .unknown
      let targetReturnType :=
        if declaredReturnType.isUnknown then expectedReturn expected else declaredReturnType
      if !typchkCheckIfBodyProducesDeclaredValue body targetReturnType then .unknown
      else if (bodyType params targetReturnType).isUnknown then .unknown
      else
        .fn params
          (if declaredReturnType.isUnknown then bodyType params targetReturnType
          else declaredReturnType)

/-! ### The checks -/

mutual

/-- `none` when something was reported; otherwise `*actualOut`, unknown where C leaves it alone. -/
def typchkCheckInto (node : ValueNode) (expected : Ty) : Option Ty :=
  match node with
  | .lambda paramTypes returnType body =>
    if (typchkCheckOrInferLambda (bodyType body) body paramTypes returnType expected).isUnknown then none
    else some .unknown
  | .array items _ =>
    match expected with
    | .unknown => some .unknown
    | .list elementType => if checkItems items elementType then some .unknown else none
    | .array elementType length =>
      if checkItems items elementType && decide ((items.length : ℤ) = length) then some .unknown
      else none
    | _ => none
  | .variable_ declared =>
    if isGenericFunctionValue declared expected then
      if typchkCheckGenericFunctionValue declared expected then some .unknown else none
    else checkInferred (typchkInferVariable declared) expected
  | .structInit declaration fieldNames values inferred =>
    if isInstanceAskedFor declaration expected then
      if typchkCheckGenericStructInit values (instanceFields declaration fieldNames expected) then
        some .unknown
      else none
    else checkInferred inferred expected
  | .other applyExpectedNumberType infer =>
    if applyExpectedNumberType expected then checkInferred (infer expected) expected else none

def checkItems : List ValueNode → Ty → Bool
  | [], _ => true
  | item :: items, elementType =>
    (typchkCheckInto item elementType).isSome && checkItems items elementType

/-- A field that the struct does not have is reported. -/
def typchkCheckGenericStructInit : List ValueNode → List Ty → Bool
  | value :: values, fieldType :: fieldTypes =>
    !fieldType.isUnknown && (typchkCheckInto value fieldType).isSome &&
      typchkCheckGenericStructInit values fieldTypes
  | [], _ => true
  | _ :: _, [] => true

/-- The type of what a body yields, unknown when something was reported; of a block, what
`typchkCheckBlockContents` returns. -/
def bodyType (body : BodyNode) (params : List Ty) (expectedValueType : Ty) : Ty :=
  match body with
  | .expr value =>
    if expectedValueType.isUnknown then typchkInfer (value params)
    else if (typchkCheckInto (value params) expectedValueType).isSome then expectedValueType
    else .unknown
  -- No trailing value: always unit. Returns inside the block are checked on their own.
  | .block _ => .unit
  | .blockValue alwaysJumps isBranch alwaysYields value =>
    if alwaysJumps then if expectedValueType.isUnknown then .unit else expectedValueType
    else if expectedValueType.isUnknown then typchkInfer (value params)
    else if isBranch && !alwaysYields then expectedValueType
    else
      match typchkCheckInto (value params) expectedValueType with
      | none => .unknown
      | some actual =>
        if !actual.isUnknown && !typeIsFullyKnown expectedValueType then actual
        else expectedValueType

/-- The type of a value for which none is asked. -/
def typchkInfer (node : ValueNode) : Ty :=
  match node with
  | .array _ inferred => inferred
  | .lambda paramTypes returnType body =>
    typchkCheckOrInferLambda (bodyType body) body paramTypes returnType .unknown
  | .variable_ declared => typchkInferVariable declared
  | .structInit _ _ _ inferred => inferred
  | .other _ infer => infer .unknown

end

/-! ### What a value is found to be -/

/-- The type of a value that has the type `actual` of its own: a generic function is filled in from
what is asked for. -/
def filledType (actual expected : Ty) : Ty :=
  if isGenericFunctionValue actual expected then
    typeEraseGenericParams (typchkFillGenericFunctionValue actual expected)
  else actual

/-- The type that a value is found to have when it is checked against a type. A literal that is
checked part by part has none of its own. -/
def checkedType (node : ValueNode) (expected : Ty) : Ty :=
  match node with
  | .array _ inferred => if expected.isUnknown then inferred else .unknown
  | .lambda paramTypes returnType body =>
    typchkCheckOrInferLambda (bodyType body) body paramTypes returnType expected
  | .variable_ declared =>
    if isGenericFunctionValue declared expected then filledType declared expected
    else filledType (typchkInferVariable declared) expected
  | .structInit declaration _ _ inferred =>
    if isInstanceAskedFor declaration expected then .unknown else filledType inferred expected
  | .other _ infer => filledType (infer expected) expected

/-- The parts of a literal that is checked part by part, each beside the type it is checked
against. -/
def checkedParts (node : ValueNode) (expected : Ty) : List (ValueNode × Ty) :=
  match node with
  | .array items _ =>
    match expected with
    | .list elementType => items.map fun item => (item, elementType)
    | .array elementType _ => items.map fun item => (item, elementType)
    | _ => []
  | .structInit declaration fieldNames values _ =>
    if isInstanceAskedFor declaration expected then
      values.zip (instanceFields declaration fieldNames expected)
    else []
  | _ => []

/-- A value with the type it is checked against: the value itself, or a part of it, or of that. -/
inductive CheckedWithin (node : ValueNode) (expected : Ty) : ValueNode → Ty → Prop
  | self : CheckedWithin node expected node expected
  | part {part : ValueNode} {type : Ty} {inner : ValueNode × Ty} :
    CheckedWithin node expected part type → inner ∈ checkedParts part type →
      CheckedWithin node expected inner.1 inner.2

/-- What a body yields whatever it is asked for; unknown when it is what is asked for. -/
def BodyNode.ownType : BodyNode → Ty
  | .block _ => .unit
  | _ => .unknown

/-- The type of a lambda's result, as far as the lambda decides it. -/
def lambdaResult (returnType : Option Ty) (body : BodyNode) : Ty :=
  if (returnType.getD .unknown).isUnknown then body.ownType else returnType.getD .unknown

/-- What the lambda says of its own type is accepted where a type is asked for. -/
def AnnotationsFit (node : ValueNode) (expected : Ty) : Prop :=
  match node, expected with
  | .lambda paramTypes returnType body, .fn expectedParams expectedReturn =>
    (∀ param ∈ paramTypes.zip expectedParams, ∀ type ∈ param.1,
        typeAccepts param.2 type = true) ∧
      typeAccepts expectedReturn (lambdaResult returnType body) = true
  | _, _ => True

variable {node : ValueNode} {expected : Ty}

theorem typeAccepts_of_checkInferred {actual out : Ty}
    (h : checkInferred actual expected = some out) : typeAccepts expected out = true := by
  unfold checkInferred at h
  split at h
  · cases h
    exact typeAccepts_unknown expected
  · split at h
    · split at h <;> cases h
      exact typeAccepts_unknown expected
    · split at h
      · cases h
        assumption
      · cases h

/-- What a check stores in `*actualOut` is accepted by the type asked for. -/
theorem typeAccepts_of_typchkCheckInto {out : Ty} (h : typchkCheckInto node expected = some out) :
    typeAccepts expected out = true := by
  cases node with
  | array items inferred =>
    cases expected <;> simp only [typchkCheckInto, Option.ite_none_right_eq_some, reduceCtorEq,
      Option.some.injEq] at h
    case unknown => rfl
    case list | array =>
      rw [← h.2]
      exact typeAccepts_unknown _
  | lambda paramTypes returnType body =>
    simp only [typchkCheckInto, Option.ite_none_left_eq_some, Option.some.injEq] at h
    rw [← h.2]
    exact typeAccepts_unknown _
  | variable_ declared =>
    rw [typchkCheckInto] at h
    by_cases hgeneric : isGenericFunctionValue declared expected = true
    · rw [if_pos hgeneric, Option.ite_none_right_eq_some] at h
      cases h.2
      exact typeAccepts_unknown _
    · rw [if_neg hgeneric] at h
      exact typeAccepts_of_checkInferred h
  | structInit declaration fieldNames values inferred =>
    rw [typchkCheckInto] at h
    by_cases hasked : isInstanceAskedFor declaration expected = true
    · rw [if_pos hasked, Option.ite_none_right_eq_some] at h
      cases h.2
      exact typeAccepts_unknown _
    · rw [if_neg hasked] at h
      exact typeAccepts_of_checkInferred h
  | other applyExpectedNumberType infer =>
    rw [typchkCheckInto, Option.ite_none_right_eq_some] at h
    exact typeAccepts_of_checkInferred h.2

/-! ### The parts of a literal -/

theorem typchkCheckInto_of_mem_items {items : List ValueNode} {elementType : Ty}
    (h : checkItems items elementType = true) {item : ValueNode} (hitem : item ∈ items) :
    (typchkCheckInto item elementType).isSome = true := by
  induction items with
  | nil => cases hitem
  | cons head items ih =>
    simp only [checkItems, Bool.and_eq_true] at h
    rcases List.mem_cons.mp hitem with rfl | hrest
    · exact h.1
    · exact ih h.2 hrest

theorem typchkCheckInto_of_mem_fields {values : List ValueNode} {fieldTypes : List Ty}
    (h : typchkCheckGenericStructInit values fieldTypes = true) {field : ValueNode × Ty}
    (hfield : field ∈ values.zip fieldTypes) :
    (typchkCheckInto field.1 field.2).isSome = true := by
  induction values generalizing fieldTypes with
  | nil => cases hfield
  | cons value values ih =>
    cases fieldTypes with
    | nil => cases hfield
    | cons fieldType fieldTypes =>
      simp only [typchkCheckGenericStructInit, Bool.and_eq_true] at h
      rw [List.zip_cons_cons] at hfield
      rcases List.mem_cons.mp hfield with rfl | hrest
      · exact h.1.2
      · exact ih h.2 hrest

/-- The parts of a checked literal have been checked. -/
theorem typchkCheckInto_of_mem_checkedParts (h : (typchkCheckInto node expected).isSome = true)
    {inner : ValueNode × Ty} (hinner : inner ∈ checkedParts node expected) :
    (typchkCheckInto inner.1 inner.2).isSome = true := by
  cases node with
  | array items inferred =>
    cases expected with
    | list elementType =>
      obtain ⟨item, hitem, rfl⟩ := List.mem_map.mp hinner
      apply typchkCheckInto_of_mem_items ?_ hitem
      by_contra hitems
      simp [typchkCheckInto, hitems] at h
    | array elementType length =>
      obtain ⟨item, hitem, rfl⟩ := List.mem_map.mp hinner
      apply typchkCheckInto_of_mem_items ?_ hitem
      by_contra hitems
      simp [typchkCheckInto, hitems] at h
    | _ => cases hinner
  | structInit declaration fieldNames values inferred =>
    by_cases hasked : isInstanceAskedFor declaration expected = true
    · rw [checkedParts, if_pos hasked] at hinner
      apply typchkCheckInto_of_mem_fields ?_ hinner
      by_contra hfields
      simp [typchkCheckInto, hasked, hfields] at h
    · rw [checkedParts, if_neg hasked] at hinner
      cases hinner
  | _ => cases hinner

theorem typchkCheckInto_of_checkedWithin (h : (typchkCheckInto node expected).isSome = true)
    {inner : ValueNode} {type : Ty} (hinner : CheckedWithin node expected inner type) :
    (typchkCheckInto inner type).isSome = true := by
  induction hinner with
  | self => exact h
  | part _ hpart ih => exact typchkCheckInto_of_mem_checkedParts ih hpart

/-! ### The type of a value that was checked -/

/-- A value whose own type was worked out was not given to a type that does not accept it. -/
theorem typeAccepts_filledType {actual : Ty} (h : (checkInferred actual expected).isSome = true) :
    typeAccepts expected (filledType actual expected) = true := by
  unfold checkInferred at h
  unfold filledType
  by_cases hunknown : (actual.isUnknown || expected.isUnknown) = true
  · cases actual with
    | unknown => simp [isGenericFunctionValue, Ty.isFn]
    | _ =>
      cases expected with
      | unknown => rfl
      | _ => cases hunknown
  · rw [if_neg hunknown] at h
    by_cases hgeneric : isGenericFunctionValue actual expected = true
    · rw [if_pos hgeneric] at h ⊢
      by_contra hrefused
      simp [typchkCheckGenericFunctionValue, hrefused] at h
    · rw [if_neg hgeneric] at h ⊢
      by_contra hrefused
      simp [hrefused] at h

theorem lambdaParamTypes_fn {paramTypes : List (Option Ty)} {expectedParams params : List Ty}
    {returnType : Ty}
    (h : lambdaParamTypes paramTypes (.fn expectedParams returnType) = some params) :
    params = List.zipWith (fun type expectedType => type.getD expectedType) paramTypes
      expectedParams := by
  rw [lambdaParamTypes, Option.ite_none_right_eq_some] at h
  exact (Option.some.inj h.2).symm

/-- A parameter without a declared type has the one asked for. -/
theorem acceptsAll_params_iff {paramTypes : List (Option Ty)} {expectedParams : List Ty}
    (hlength : expectedParams.length = paramTypes.length)
    (hdefinite : allDefinite (List.zipWith (fun type expectedType => type.getD expectedType)
      paramTypes expectedParams) = true) :
    acceptsAll expectedParams (List.zipWith (fun type expectedType => type.getD expectedType)
        paramTypes expectedParams) = true ↔
      ∀ param ∈ paramTypes.zip expectedParams, ∀ type ∈ param.1,
        typeAccepts param.2 type = true := by
  induction paramTypes generalizing expectedParams with
  | nil =>
    cases expectedParams with
    | nil => simp [acceptsAll]
    | cons => simp at hlength
  | cons paramType paramTypes ih =>
    cases expectedParams with
    | nil => simp at hlength
    | cons expectedParam expectedParams =>
      simp only [List.zipWith_cons_cons, allDefinite, Bool.and_eq_true] at hdefinite
      have hrest := ih (by simpa using hlength) hdefinite.2
      simp only [List.zipWith_cons_cons, acceptsAll, Bool.and_eq_true, hrest, List.zip_cons_cons,
        List.mem_cons, forall_eq_or_imp]
      cases paramType with
      | none => simp [typeAccepts_self expectedParam hdefinite.1]
      | some type => simp

/-- What a body yields where a type is asked for is accepted by it, unless it is a block without a
value. -/
theorem typeAccepts_bodyType_iff (body : BodyNode) (params : List Ty) (target : Ty)
    (hknown : isDefinite (bodyType body params target) = true)
    (hyields : (bodyType body params target).isUnknown = false) :
    typeAccepts target (bodyType body params target) = true ↔
      typeAccepts target body.ownType = true := by
  cases body with
  | block alwaysReturns => rfl
  | expr value =>
    simp only [BodyNode.ownType, typeAccepts_unknown, iff_true]
    rw [bodyType] at hknown hyields ⊢
    by_cases htarget : target.isUnknown = true
    · rw [Ty.eq_unknown htarget]
      rfl
    · rw [if_neg htarget] at hknown hyields ⊢
      split at hknown
      · rw [if_pos (by assumption)]
        exact typeAccepts_self target hknown
      · rw [if_neg (by assumption)] at hyields
        cases hyields
  | blockValue alwaysJumps isBranch alwaysYields value =>
    simp only [BodyNode.ownType, typeAccepts_unknown, iff_true]
    rw [bodyType] at hknown hyields ⊢
    by_cases htarget : target.isUnknown = true
    · rw [Ty.eq_unknown htarget]
      rfl
    · by_cases hjumps : alwaysJumps = true
      · rw [if_pos hjumps, if_neg htarget] at hknown ⊢
        exact typeAccepts_self target hknown
      · rw [if_neg hjumps, if_neg htarget] at hknown hyields ⊢
        by_cases hbranch : (isBranch && !alwaysYields) = true
        · rw [if_pos hbranch] at hknown ⊢
          exact typeAccepts_self target hknown
        · rw [if_neg hbranch] at hknown hyields ⊢
          cases hcheck : typchkCheckInto (value params) target with
          | none =>
            rw [hcheck] at hyields
            cases hyields
          | some actual =>
            rw [hcheck] at hknown
            dsimp only at hknown ⊢
            by_cases hown : (!actual.isUnknown && !typeIsFullyKnown target) = true
            · rw [if_pos hown]
              exact typeAccepts_of_typchkCheckInto hcheck
            · rw [if_neg hown] at hknown ⊢
              exact typeAccepts_self target hknown

/-- The type of a lambda that was checked. -/
theorem typchkCheckOrInferLambda_eq {body : BodyNode} {paramTypes : List (Option Ty)}
    {returnType : Option Ty}
    (h : (typchkCheckOrInferLambda (bodyType body) body paramTypes returnType expected).isUnknown =
      false) :
    lambdaMismatch paramTypes.length expected = false ∧
      ∃ params, lambdaParamTypes paramTypes expected = some params ∧
        typchkCheckOrInferLambda (bodyType body) body paramTypes returnType expected =
          .fn params
            (if (returnType.getD .unknown).isUnknown then
              bodyType body params (expectedReturn expected)
            else returnType.getD .unknown) ∧
        ((returnType.getD .unknown).isUnknown = true →
          (bodyType body params (expectedReturn expected)).isUnknown = false) := by
  unfold typchkCheckOrInferLambda at h ⊢
  by_cases hmatch : lambdaMismatch paramTypes.length expected = true
  · rw [if_pos hmatch] at h
    cases h
  · rw [if_neg hmatch] at h ⊢
    refine ⟨by simpa using hmatch, ?_⟩
    cases hparams : lambdaParamTypes paramTypes expected with
    | none =>
      rw [hparams] at h
      cases h
    | some params =>
      rw [hparams] at h
      dsimp only at h ⊢
      refine ⟨params, rfl, ?_⟩
      generalize htarget : (if (returnType.getD .unknown).isUnknown then expectedReturn expected
        else returnType.getD .unknown) = target at h ⊢
      by_cases hproduces : typchkCheckIfBodyProducesDeclaredValue body target = true
      · rw [if_neg (by simp [hproduces])] at h ⊢
        by_cases hyields : (bodyType body params target).isUnknown = true
        · rw [if_pos hyields] at h
          cases h
        · rw [if_neg hyields]
          by_cases hdeclared : (returnType.getD .unknown).isUnknown = true
          · rw [if_pos hdeclared] at htarget
            rw [if_pos hdeclared, if_pos hdeclared, htarget]
            exact ⟨rfl, fun _ => by simpa using hyields⟩
          · rw [if_neg hdeclared, if_neg hdeclared]
            exact ⟨rfl, fun h => absurd h hdeclared⟩
      · rw [if_pos (by simpa using hproduces)] at h
        cases h

/-- A type that a check finds, and fully knows, is accepted exactly if what a lambda says of its own
type is. -/
theorem typeAccepts_checkedType_iff (h : (typchkCheckInto node expected).isSome = true)
    (hknown : FullyKnown (checkedType node expected)) :
    typeAccepts expected (checkedType node expected) = true ↔ AnnotationsFit node expected := by
  cases node with
  | lambda paramTypes returnType body =>
    obtain ⟨hmatch, params, hparams, htype, hbody⟩ :=
      typchkCheckOrInferLambda_eq hknown.not_isUnknown
    have hdefinite := hknown.definite
    rw [checkedType, htype] at hdefinite ⊢
    simp only [isDefinite, Bool.and_eq_true] at hdefinite
    cases expected with
    | unknown => simp [AnnotationsFit, typeAccepts]
    | fn expectedParams expectedReturn =>
      have hlength : expectedParams.length = paramTypes.length := by
        simpa [lambdaMismatch] using hmatch
      rw [lambdaParamTypes_fn hparams] at hdefinite ⊢
      rw [typeAccepts, Bool.and_eq_true, AnnotationsFit,
        acceptsAll_params_iff hlength hdefinite.1, lambdaResult]
      by_cases hdeclared : (returnType.getD .unknown).isUnknown = true
      · rw [if_pos hdeclared, if_pos hdeclared]
        rw [if_pos hdeclared] at hdefinite
        rw [lambdaParamTypes_fn hparams] at hbody
        exact and_congr_right fun _ =>
          typeAccepts_bodyType_iff body _ _ hdefinite.2 (hbody hdeclared)
      · rw [if_neg hdeclared, if_neg hdeclared]
    | _ => cases hmatch
  | array items inferred =>
    simp only [AnnotationsFit, iff_true]
    cases expected with
    | unknown => rfl
    | _ => exact typeAccepts_unknown _
  | variable_ declared =>
    simp only [AnnotationsFit, iff_true]
    rw [typchkCheckInto] at h
    rw [checkedType]
    by_cases hgeneric : isGenericFunctionValue declared expected = true
    · rw [if_pos hgeneric] at h ⊢
      rw [filledType, if_pos hgeneric]
      by_contra hrefused
      simp [typchkCheckGenericFunctionValue, hrefused] at h
    · rw [if_neg hgeneric] at h ⊢
      exact typeAccepts_filledType h
  | structInit declaration fieldNames values inferred =>
    simp only [AnnotationsFit, iff_true]
    rw [typchkCheckInto] at h
    rw [checkedType]
    by_cases hasked : isInstanceAskedFor declaration expected = true
    · rw [if_pos hasked]
      exact typeAccepts_unknown _
    · rw [if_neg hasked] at h ⊢
      exact typeAccepts_filledType h
  | other applyExpectedNumberType infer =>
    simp only [AnnotationsFit, iff_true]
    rw [typchkCheckInto] at h
    by_cases hfits : applyExpectedNumberType expected = true
    · rw [if_pos hfits] at h
      exact typeAccepts_filledType h
    · rw [if_neg hfits] at h
      cases h

end KirbyLang
