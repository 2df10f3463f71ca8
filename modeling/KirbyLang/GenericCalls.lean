import KirbyLang.ValueChecks

/-!
# Generic calls and literals

Calls of a function with generic parameters, and literals of a generic struct (`typecheck.c`). The
arguments, or the fields, fill the parameters in order.

* `typchkUnifyValue`, `typchkCheckGenericCall`, `typchkInferGenericStructInit`: the code;
* `typeAccepts_final_iff`: when the parameter, with what the call made of it, accepts an argument;
* `generic_uses_fit_iff`: the same for every argument and every field of what is accepted.
-/

namespace KirbyLang

/-- What a call has found so far: the bindings, whether nothing was reported, and whether the type
of an argument was not known. -/
structure Unified where
  bindings : List Ty
  ok : Bool := true
  sawUnknown : Bool := false
  deriving Repr

namespace Ty

def isList : Ty → Bool
  | list _ => true
  | _ => false

end Ty

namespace ValueNode

def isEmptyArray : ValueNode → Bool
  | array [] _ => true
  | _ => false

/-- `typchkLookupVariableType`, of a variable. -/
def declaredType : ValueNode → Ty
  | variable_ declared => declared
  | _ => .unknown

/-- A literal given where a list is expected is a list. -/
def asList (node : ValueNode) (param actual : Ty) : Ty :=
  match node, param, actual with
  | array _ _, .list _, .array elementType _ => .list elementType
  | _, _, _ => actual

end ValueNode

/-- The type of a value given to a parameter with generic parameters in it. `none` where C reads
through NULL: a function given to a bare parameter that is not filled. -/
def actualType (node : ValueNode) (param : Ty) : Option Ty :=
  if node.isEmptyArray && param.isList then some (.list .unknown)
  else
    match node with
    | .lambda paramTypes returnType body =>
      some (typchkCheckOrInferLambda (bodyType body) body paramTypes returnType
        (typeEraseGenericParams param))
    | _ =>
      let actual := if (typchkInfer node).isUnknown then node.declaredType else typchkInfer node
      match actual, typeEraseGenericParams param with
      | .fn _ _, .unknown => none
      | .fn paramTypes returnType, .fn knownParams knownReturn =>
        if paramTypes.length = knownParams.length ∧
            typchkHasDeclaredGenericParams (.fn paramTypes returnType) = true then
          some (typeEraseGenericParams (typchkFillGenericFunctionValue (.fn paramTypes returnType)
            (.fn knownParams knownReturn)))
        else some (.fn paramTypes returnType)
      | actual, _ => some actual

def typchkUnifyValue (node : ValueNode) (pattern : Ty) (unified : Unified) : Option Unified :=
  let param := typeSubstituteGenericParams pattern unified.bindings
  if typeGenericParamCount param = 0 then
    some { unified with ok := unified.ok && (typchkCheckInto node param).isSome }
  else
    match actualType node param with
    | none => none
    | some actual =>
      if actual.isUnknown then some { unified with sawUnknown := true }
      else if typeAccepts (typeEraseGenericParams param) (node.asList param actual) then
        some { unified with
          bindings := typeBindGenericParams param (node.asList param actual) unified.bindings }
      else some { unified with ok := false }

/-- Each value beside its declared type. -/
def typchkUnifyValues (values : List (ValueNode × Ty)) (unified : Unified) : Option Unified :=
  values.foldlM (fun unified value => typchkUnifyValue value.1 value.2 unified) unified

inductive CheckFailure
  | reported
  | nullDereference
  deriving DecidableEq, Repr

/-! ### Calls -/

/-- The bindings of a call, once its arguments and the type it is expected to return are seen. -/
def genericCallUnified (paramTypes : List Ty) (returnType : Ty) (args : List ValueNode)
    (expected : Ty) : Except CheckFailure Unified :=
  match typchkUnifyValues (args.zip paramTypes)
      { bindings := noBindings (typeGenericParamCount (.fn paramTypes returnType)) } with
  | none => .error .nullDereference
  | some unified =>
    if unified.ok then
      .ok { unified with bindings := typeBindGenericParams returnType expected unified.bindings }
    else .error .reported

/-- Whether a parameter that the program declared is left empty. -/
def hasEmptyDeclaredParam (calleeType : Ty) (bindings : List Ty) : Bool :=
  (List.range (typeGenericParamCount calleeType)).any fun index =>
    (slotAt bindings index).isUnknown &&
      match typeFindGenericParam index calleeType with
      | some (some _) => true
      | _ => false

def typchkCheckGenericCall (paramTypes : List Ty) (returnType : Ty) (args : List ValueNode)
    (expected : Ty) : Except CheckFailure Ty :=
  match genericCallUnified paramTypes returnType args expected with
  | .error failure => .error failure
  | .ok unified =>
    if !unified.sawUnknown && hasEmptyDeclaredParam (.fn paramTypes returnType) unified.bindings then
      .error .reported
    else
      .ok (typeEraseGenericParams (typeSubstituteGenericParams returnType unified.bindings))

def typchkCheckCallAgainstFunctionType (calleeType : Ty) (args : List ValueNode) (expected : Ty) :
    Except CheckFailure Ty :=
  match calleeType with
  | .fn paramTypes returnType =>
    if args.length ≠ paramTypes.length then .error .reported
    else if 0 < typeGenericParamCount calleeType then
      typchkCheckGenericCall paramTypes returnType args expected
    else if (args.zip paramTypes).all fun value => (typchkCheckInto value.1 value.2).isSome then
      .ok returnType
    else .error .reported
  | _ => .error .reported

/-! ### Struct literals -/

/-- The fields of a literal, each beside its declared type. -/
def literalFields (declaration : StructDeclaration) (fieldNames : List Bytes)
    (values : List ValueNode) : List (ValueNode × Ty) :=
  values.zip (fieldNames.map (typeStructFieldLookup declaration []))

def typchkInferGenericStructInit (declaration : StructDeclaration) (fieldNames : List Bytes)
    (values : List ValueNode) : Except CheckFailure Ty :=
  let fields := literalFields declaration fieldNames values
  -- A field that the struct does not have is reported, and the next one is looked at.
  match typchkUnifyValues (fields.filter fun field => !field.2.isUnknown)
      { bindings := noBindings declaration.genericParamCount } with
  | none => .error .nullDereference
  | some unified =>
    if !unified.ok || fields.any fun field => field.2.isUnknown then .error .reported
    else if !unified.sawUnknown && unified.bindings.any Ty.isUnknown then .error .reported
    else .ok (.struct declaration.name unified.bindings)

/-! ### One value -/

/-- The type that a value is found to have, with what the parameters hold before it. -/
def argumentType (bindings : List Ty) (node : ValueNode) (pattern : Ty) : Ty :=
  let param := typeSubstituteGenericParams pattern bindings
  if typeGenericParamCount param = 0 then checkedType node param
  else node.asList param ((actualType node param).getD .unknown)

/-- Against a type without parameters, what a lambda says of its own type is accepted; otherwise the
parts that the parameters meet agree. -/
def ArgumentFits (bindings : List Ty) (node : ValueNode) (pattern : Ty) : Prop :=
  let param := typeSubstituteGenericParams pattern bindings
  if typeGenericParamCount param = 0 then AnnotationsFit node param
  else Agrees bindings pattern (argumentType bindings node pattern)

variable {unified unified' : Unified} {node : ValueNode} {pattern : Ty}

/-- A value that is accepted fills empty slots only. -/
theorem typchkUnifyValue_extends (h : typchkUnifyValue node pattern unified = some unified')
    (hok : unified'.ok = true) :
    unified.ok = true ∧ Extends unified.bindings unified'.bindings := by
  unfold typchkUnifyValue at h
  dsimp only at h
  by_cases hcount : typeGenericParamCount
      (typeSubstituteGenericParams pattern unified.bindings) = 0
  · rw [if_pos hcount, Option.some.injEq] at h
    subst h
    simp only [Bool.and_eq_true] at hok
    exact ⟨hok.1, Extends.refl _⟩
  · rw [if_neg hcount] at h
    cases hactual : actualType node (typeSubstituteGenericParams pattern unified.bindings) with
    | none =>
      rw [hactual] at h
      cases h
    | some actual =>
      rw [hactual] at h
      dsimp only at h
      split at h
      · cases h
        exact ⟨hok, Extends.refl _⟩
      · split at h
        · cases h
          exact ⟨hok, extends_typeBindGenericParams _ _ _⟩
        · cases h
          cases hok

theorem typchkCheckInto_of_typchkUnifyValue
    (h : typchkUnifyValue node pattern unified = some unified') (hok : unified'.ok = true)
    (hcount : typeGenericParamCount (typeSubstituteGenericParams pattern unified.bindings) = 0) :
    (typchkCheckInto node (typeSubstituteGenericParams pattern unified.bindings)).isSome = true := by
  unfold typchkUnifyValue at h
  dsimp only at h
  rw [if_pos hcount, Option.some.injEq] at h
  subst h
  simp only [Bool.and_eq_true] at hok
  exact hok.2

/-- With what the parameters hold in the end, the declared type accepts a value's type exactly if
the value fits what it was checked against. -/
theorem typeAccepts_argumentType_iff {final : List Ty}
    (h : typchkUnifyValue node pattern unified = some unified') (hok : unified'.ok = true)
    (hfinal : Extends unified'.bindings final)
    (hknown : FullyKnown (argumentType unified.bindings node pattern)) :
    typeAccepts (typeSubstituteGenericParams pattern final)
        (argumentType unified.bindings node pattern) = true ↔
      ArgumentFits unified.bindings node pattern := by
  have hextends := (typchkUnifyValue_extends h hok).2
  unfold ArgumentFits
  by_cases hcount : typeGenericParamCount
      (typeSubstituteGenericParams pattern unified.bindings) = 0
  · have hchecked := typchkCheckInto_of_typchkUnifyValue h hok hcount
    rw [argumentType, if_pos hcount] at hknown ⊢
    rw [if_pos hcount, substitute_of_extends (hextends.trans hfinal) pattern hcount]
    exact typeAccepts_checkedType_iff hchecked hknown
  · rw [if_neg hcount]
    unfold typchkUnifyValue at h
    dsimp only at h
    rw [if_neg hcount] at h
    cases hactual : actualType node (typeSubstituteGenericParams pattern unified.bindings) with
    | none =>
      rw [hactual] at h
      cases h
    | some actual =>
      have htype : argumentType unified.bindings node pattern =
          node.asList (typeSubstituteGenericParams pattern unified.bindings) actual := by
        rw [argumentType, if_neg hcount, hactual, Option.getD_some]
      rw [htype] at hknown ⊢
      rw [hactual] at h
      dsimp only at h
      split at h
      · -- A value of unknown type stays so as a list.
        rename_i hunknown
        rw [Ty.eq_unknown hunknown] at hknown
        have hstill : node.asList (typeSubstituteGenericParams pattern unified.bindings)
            .unknown = .unknown := by
          unfold ValueNode.asList
          split <;> first | rfl | simp_all
        rw [hstill] at hknown
        cases hknown.not_isUnknown
      · split at h
        · rename_i hshape
          cases h
          exact typeAccepts_final_iff hknown hshape hfinal
        · cases h
          cases hok

/-! ### All values -/

theorem typchkUnifyValues_cons (value : ValueNode × Ty) (values : List (ValueNode × Ty))
    (unified : Unified) :
    typchkUnifyValues (value :: values) unified =
      (typchkUnifyValue value.1 value.2 unified).bind (typchkUnifyValues values) := rfl

theorem typchkUnifyValues_append (before after : List (ValueNode × Ty)) (unified : Unified) :
    typchkUnifyValues (before ++ after) unified =
      (typchkUnifyValues before unified).bind (typchkUnifyValues after) := by
  unfold typchkUnifyValues
  rw [List.foldlM_append]
  rfl

theorem typchkUnifyValues_extends {values : List (ValueNode × Ty)}
    (h : typchkUnifyValues values unified = some unified') (hok : unified'.ok = true) :
    unified.ok = true ∧ Extends unified.bindings unified'.bindings := by
  induction values generalizing unified with
  | nil =>
    cases h
    exact ⟨hok, Extends.refl _⟩
  | cons value values ih =>
    rw [typchkUnifyValues_cons] at h
    obtain ⟨next, hvalue, hrest⟩ := Option.bind_eq_some_iff.mp h
    obtain ⟨hnext, hextends⟩ := ih hrest
    obtain ⟨hfirst, hvalueExtends⟩ := typchkUnifyValue_extends hvalue hnext
    exact ⟨hfirst, hvalueExtends.trans hextends⟩

/-- Each value's type, and the type of each part that was checked on its own, is accepted exactly
if the value, or the part, fits what it was checked against. -/
def AcceptedIfFits (initial final : List Ty) (values : List (ValueNode × Ty)) : Prop :=
  ∀ before node pattern after, values = before ++ (node, pattern) :: after →
    ∃ unified, typchkUnifyValues before { bindings := initial } = some unified ∧
      (FullyKnown (argumentType unified.bindings node pattern) →
        (typeAccepts (typeSubstituteGenericParams pattern final)
            (argumentType unified.bindings node pattern) = true ↔
          ArgumentFits unified.bindings node pattern)) ∧
      (typeGenericParamCount (typeSubstituteGenericParams pattern unified.bindings) = 0 →
        ∀ part type, CheckedWithin node (typeSubstituteGenericParams pattern final) part type →
          FullyKnown (checkedType part type) →
            (typeAccepts type (checkedType part type) = true ↔ AnnotationsFit part type))

theorem acceptedIfFits_of_typchkUnifyValues {initial final : List Ty}
    {values : List (ValueNode × Ty)}
    (h : typchkUnifyValues values { bindings := initial } = some unified) (hok : unified.ok = true)
    (hfinal : Extends unified.bindings final) : AcceptedIfFits initial final values := by
  intro before node pattern after hvalues
  rw [hvalues, typchkUnifyValues_append] at h
  obtain ⟨found, hbefore, hrest⟩ := Option.bind_eq_some_iff.mp h
  rw [typchkUnifyValues_cons] at hrest
  obtain ⟨next, hvalue, hafter⟩ := Option.bind_eq_some_iff.mp hrest
  obtain ⟨hnext, hlater⟩ := typchkUnifyValues_extends hafter hok
  refine ⟨found, hbefore, typeAccepts_argumentType_iff hvalue hnext (hlater.trans hfinal), ?_⟩
  intro hcount part type hpart
  have hextends := (typchkUnifyValue_extends hvalue hnext).2
  rw [substitute_of_extends (hextends.trans (hlater.trans hfinal)) pattern hcount] at hpart
  exact typeAccepts_checkedType_iff
    (typchkCheckInto_of_checkedWithin (typchkCheckInto_of_typchkUnifyValue hvalue hnext hcount)
      hpart)

theorem genericCallUnified_accepted {paramTypes : List Ty} {returnType : Ty}
    {args : List ValueNode} {expected : Ty}
    (h : genericCallUnified paramTypes returnType args expected = .ok unified) :
    AcceptedIfFits (noBindings (typeGenericParamCount (.fn paramTypes returnType)))
      unified.bindings (args.zip paramTypes) := by
  unfold genericCallUnified at h
  split at h
  · cases h
  · rename_i found hvalues
    split at h
    · cases h
      exact acceptedIfFits_of_typchkUnifyValues hvalues (by assumption)
        (extends_typeBindGenericParams returnType expected found.bindings)
    · cases h

theorem typchkInferGenericStructInit_accepted {declaration : StructDeclaration}
    {fieldNames : List Bytes} {values : List ValueNode} {name : Bytes} {final : List Ty}
    (h : typchkInferGenericStructInit declaration fieldNames values = .ok (.struct name final)) :
    AcceptedIfFits (noBindings declaration.genericParamCount) final
      (literalFields declaration fieldNames values) := by
  unfold typchkInferGenericStructInit at h
  dsimp only at h
  split at h
  · cases h
  · rename_i found hvalues
    split at h
    · cases h
    · rename_i hreported
      simp only [Bool.or_eq_true, Bool.not_eq_true', not_or, List.any_eq_true, not_exists, not_and]
        at hreported
      have hall : (literalFields declaration fieldNames values).filter
          (fun field => !field.2.isUnknown) = literalFields declaration fieldNames values := by
        rw [List.filter_eq_self]
        intro field hfield
        simpa using hreported.2 field hfield
      rw [hall] at hvalues
      split at h
      · cases h
      · cases h
        exact acceptedIfFits_of_typchkUnifyValues hvalues (by simpa using hreported.1)
          (Extends.refl _)

/-! ### Everything that is accepted -/

theorem typchkCheckCall_accepted {paramTypes : List Ty} {returnType : Ty} {args : List ValueNode}
    {expected type : Ty}
    (h : typchkCheckCallAgainstFunctionType (.fn paramTypes returnType) args expected = .ok type)
    (hgeneric : 0 < typeGenericParamCount (.fn paramTypes returnType)) :
    ∃ unified, args.length = paramTypes.length ∧
      genericCallUnified paramTypes returnType args expected = .ok unified ∧
      type = typeEraseGenericParams (typeSubstituteGenericParams returnType unified.bindings) := by
  unfold typchkCheckCallAgainstFunctionType at h
  dsimp only at h
  by_cases hlength : args.length = paramTypes.length
  · rw [if_neg (not_not.mpr hlength), if_pos hgeneric] at h
    unfold typchkCheckGenericCall at h
    cases hcall : genericCallUnified paramTypes returnType args expected with
    | error failure =>
      rw [hcall] at h
      cases h
    | ok unified =>
      rw [hcall] at h
      dsimp only at h
      split at h
      · cases h
      · cases h
        exact ⟨unified, hlength, rfl, rfl⟩
  · rw [if_pos hlength] at h
    cases h

theorem typchkInferGenericStructInit_struct {declaration : StructDeclaration}
    {fieldNames : List Bytes} {values : List ValueNode} {type : Ty}
    (h : typchkInferGenericStructInit declaration fieldNames values = .ok type) :
    ∃ final, type = .struct declaration.name final := by
  unfold typchkInferGenericStructInit at h
  dsimp only at h
  split at h
  · cases h
  · split at h
    · cases h
    · split at h
      · cases h
      · cases h
        exact ⟨_, rfl⟩

/-- In every generic call and every literal of a generic struct that is accepted, the declared type
of an argument or a field, with what the parameters hold in the end, accepts the type that the value
was found to have, if that is fully known, exactly if the value fits what it was checked against. So
it is for each part of a literal that was checked on its own. -/
theorem generic_uses_fit_iff (values : List ValueNode) (expected : Ty) :
    (∀ paramTypes returnType type,
      typchkCheckCallAgainstFunctionType (.fn paramTypes returnType) values expected = .ok type →
      0 < typeGenericParamCount (.fn paramTypes returnType) →
        ∃ unified, values.length = paramTypes.length ∧
          genericCallUnified paramTypes returnType values expected = .ok unified ∧
          type = typeEraseGenericParams (typeSubstituteGenericParams returnType unified.bindings) ∧
          AcceptedIfFits (noBindings (typeGenericParamCount (.fn paramTypes returnType)))
            unified.bindings (values.zip paramTypes)) ∧
    (∀ declaration fieldNames type,
      typchkInferGenericStructInit declaration fieldNames values = .ok type →
        ∃ final, type = .struct declaration.name final ∧
          AcceptedIfFits (noBindings declaration.genericParamCount) final
            (literalFields declaration fieldNames values)) ∧
    (∀ declaration fieldNames inferred,
      (typchkCheckInto (.structInit declaration fieldNames values inferred) expected).isSome = true →
      isInstanceAskedFor declaration expected = true →
        ∀ field ∈ values.zip (instanceFields declaration fieldNames expected),
          ∀ part type, CheckedWithin field.1 field.2 part type → FullyKnown (checkedType part type) →
            (typeAccepts type (checkedType part type) = true ↔ AnnotationsFit part type)) := by
  refine ⟨?_, ?_, ?_⟩
  · intro paramTypes returnType type h hgeneric
    obtain ⟨unified, hlength, hcall, htype⟩ := typchkCheckCall_accepted h hgeneric
    exact ⟨unified, hlength, hcall, htype, genericCallUnified_accepted hcall⟩
  · intro declaration fieldNames type h
    obtain ⟨final, rfl⟩ := typchkInferGenericStructInit_struct h
    exact ⟨final, rfl, typchkInferGenericStructInit_accepted h⟩
  · intro declaration fieldNames inferred h hasked field hfield part type hpart
    have hparts : checkedParts (.structInit declaration fieldNames values inferred) expected =
        values.zip (instanceFields declaration fieldNames expected) := by
      rw [checkedParts, if_pos hasked]
    have hchecked := typchkCheckInto_of_mem_checkedParts h (hparts ▸ hfield)
    exact typeAccepts_checkedType_iff (typchkCheckInto_of_checkedWithin hchecked hpart)

/-- `f: fun (T, T) => unit`, given a function of two numbers. -/
theorem generic_uses_fit_iff_same :
    ∃ unified, genericCallUnified [.fn [.genericParam 0 (some [84]), .genericParam 0 (some [84])]
        .unit] .unit [.variable_ (.fn [.number .i64, .number .i64] .unit)] .unknown = .ok unified ∧
      AcceptedIfFits (noBindings 1) unified.bindings
        [(.variable_ (.fn [.number .i64, .number .i64] .unit),
          .fn [.genericParam 0 (some [84]), .genericParam 0 (some [84])] .unit)] := by
  obtain ⟨unified, -, hcall, -, haccepted⟩ :=
    (generic_uses_fit_iff [.variable_ (.fn [.number .i64, .number .i64] .unit)] .unknown).1
      [.fn [.genericParam 0 (some [84]), .genericParam 0 (some [84])] .unit] .unit .unit rfl
      (by decide)
  exact ⟨unified, hcall, haccepted⟩

/-- `f: fun (T, T) => unit` takes a function of a number and a string, with `T` a number. -/
theorem generic_call_not_final :
    ¬ ∀ paramTypes returnType args expected unified type,
      genericCallUnified paramTypes returnType args expected = .ok unified →
      typchkCheckCallAgainstFunctionType (.fn paramTypes returnType) args expected = .ok type →
      ∀ node pattern, args.zip paramTypes = [(node, pattern)] →
        FullyKnown (argumentType (noBindings (typeGenericParamCount (.fn paramTypes returnType)))
          node pattern) →
        typeAccepts (typeSubstituteGenericParams pattern unified.bindings)
          (argumentType (noBindings (typeGenericParamCount (.fn paramTypes returnType))) node
            pattern) = true := by
  intro h
  have haccepts := h [.fn [.genericParam 0 (some [84]), .genericParam 0 (some [84])] .unit] .unit
    [.variable_ (.fn [.number .i64, .string] .unit)] .unknown ⟨[.number .i64], true, false⟩ .unit
    rfl rfl _ _ rfl ⟨rfl, rfl⟩
  exact absurd haccepts (by decide)

end KirbyLang
