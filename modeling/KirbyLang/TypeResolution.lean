import KirbyLang.NumberOps
import KirbyLang.TypeEnv

/-!
# What type expressions stand for

How the checker resolves a type expression of the program (`typchkResolveType`, in `typecheck.c`,
outside of native signatures). The first error ends it.

* `typchkResolveType` and what it calls;
* `typeNames`: the names in a type expression, in the order in which they are resolved;
* `typchkResolveType_congr`: of the aliases, only those with these names matter.
-/

namespace KirbyLang

/-- An error, and the token it is reported at. -/
structure TypeError where
  token : Token
  message : Bytes
  deriving DecidableEq, Repr

/-- A type, or an error: `none` if it was reported before. -/
abbrev Resolved (α : Type) := Except (Option TypeError) α

def errorAt {α : Type} (token : Token) (message : Bytes) : Resolved α :=
  .error (some ⟨token, message⟩)

/-- A name in quotes. -/
def quoted (name : Token) : Bytes := ascii "'" ++ name.text ++ ascii "'"

def numberKindFromName (name : Bytes) : Option NumberKind :=
  NumberKind.all.find? fun kind => ascii kind.info.name == name

/-! ### Lookups -/

def typchkTypeEnvLookupStruct (env : TypeEnv) (name : Bytes) : Option StructDeclaration :=
  env.structs.find? fun declaration => declaration.name == name

def typchkTypeEnvLookupAlias (env : TypeEnv) (name : Bytes) : Ty :=
  bindingArrayLookup env.aliases name

def genericAliasLookup (env : TypeEnv) (name : Bytes) : Option GenericAlias :=
  env.genericAliases.find? fun genericAlias => genericAlias.name == name

/-- How many parameters a struct's declaration has; an instance of a generic struct has none. -/
def structParamCount (env : TypeEnv) : Ty → ℕ
  | .struct name [] => ((typchkTypeEnvLookupStruct env name).map fun declaration =>
      declaration.genericParamCount).getD 0
  | _ => 0

/-- A struct by its name. -/
def structType (env : TypeEnv) (name : Bytes) : Ty :=
  match typchkTypeEnvLookupStruct env name with
  | some declaration => .struct declaration.name []
  | none => .unknown

def typeStructInstance (declaration : Ty) (typeArgs : List Ty) : Ty :=
  match declaration with
  | .struct name _ => .struct name typeArgs
  | other => other

/-! ### Names -/

/-- What `Self` is without type arguments. -/
def selfType (env : TypeEnv) : Ty :=
  if !env.currentImplSelfType.isUnknown then env.currentImplSelfType
  else if !env.currentImplTargetType.isUnknown then env.currentImplTargetType
  else .selfPlaceholder

/-- A name that the program declares. The innermost name wins, so a parameter hides a struct or
alias of the same name inside its declaration. -/
def typchkResolveDeclaredName (env : TypeEnv) (name : Token) : Resolved Ty :=
  if !(bindingArrayLookup env.genericParams name.text).isUnknown then
    .ok (bindingArrayLookup env.genericParams name.text)
  else
    match typchkTypeEnvLookupStruct env name.text with
    | some declaration =>
      if 0 < declaration.genericParamCount then
        errorAt name (quoted name ++ ascii " needs " ++ decimal declaration.genericParamCount ++
          ascii " type argument(s).")
      else .ok (.struct declaration.name [])
    | none =>
      if !(typchkTypeEnvLookupAlias env name.text).isUnknown then
        .ok (typchkTypeEnvLookupAlias env name.text)
      else
        match genericAliasLookup env name.text with
        | some genericAlias =>
          errorAt name (quoted name ++ ascii " needs " ++ decimal genericAlias.paramCount ++
            ascii " type argument(s).")
        | none => errorAt name (ascii "Unknown type.")

/-- A name without type arguments. -/
def typchkResolveName (env : TypeEnv) (name : Token) : Resolved Ty :=
  if tokenTextEquals name "unit" then .ok .unit
  else if tokenTextEquals name "bool" then .ok .bool
  else if tokenTextEquals name "string" then .ok .string
  else
    match numberKindFromName name.text with
    | some kind => .ok (.number kind)
    | none =>
      if tokenTextEquals name "Self" then .ok (selfType env)
      else typchkResolveDeclaredName env name

/-! ### Type arguments -/

def wrongArgCount {α : Type} (name : Token) (expected got : ℕ) : Resolved α :=
  errorAt name (quoted name ++ ascii " takes " ++ decimal expected ++
    ascii " type argument(s), got " ++ decimal got ++ ascii ".")

/-- The alias's target with its parameters replaced by the arguments. -/
def typchkInstantiateGenericAlias (name : Token) (genericArgCount : ℕ)
    (genericArgs : Resolved (List Ty)) (genericAlias : GenericAlias) : Resolved Ty :=
  if genericArgCount ≠ genericAlias.paramCount then
    wrongArgCount name genericAlias.paramCount genericArgCount
  else do
    let typeArgs ← genericArgs
    -- the alias's own error was already reported
    if genericAlias.target.isUnknown then .error none
    else return typeSubstituteGenericParams genericAlias.target typeArgs

/-- A name with type arguments. -/
def typchkResolveGenericInstance (env : TypeEnv) (name : Token) (genericArgCount : ℕ)
    (genericArgs : Resolved (List Ty)) : Resolved Ty :=
  if tokenTextEquals name "Self" && env.currentImplTargetType.isUnknown then
    errorAt name (ascii "'Self' can only be used inside an impl block.")
  else
    let declaration :=
      if tokenTextEquals name "Self" then env.currentImplTargetType else structType env name.text
    if declaration.isUnknown then
      match genericAliasLookup env name.text with
      | some genericAlias =>
        typchkInstantiateGenericAlias name genericArgCount genericArgs genericAlias
      | none =>
        if !(typchkTypeEnvLookupAlias env name.text).isUnknown then
          errorAt name (quoted name ++ ascii " doesn't take type arguments.")
        else errorAt name (ascii "Unknown type.")
    else if structParamCount env declaration = 0 then
      errorAt name (quoted name ++ ascii " doesn't take type arguments.")
    else if genericArgCount ≠ structParamCount env declaration then
      wrongArgCount name (structParamCount env declaration) genericArgCount
    else do
      let typeArgs ← genericArgs
      return typeStructInstance declaration typeArgs

mutual

def typchkResolveType (env : TypeEnv) : TypeNode → Resolved Ty
  | .function _ paramTypes returnType => do
    let paramTypes ← typchkResolveTypes env paramTypes
    let returnType ← typchkResolveType env returnType
    return .fn paramTypes returnType
  | .list _ elementType => do
    let elementType ← typchkResolveType env elementType
    return .list elementType
  | .array _ elementType length => do
    let elementType ← typchkResolveType env elementType
    return .array elementType length
  | .named _ name genericArgs =>
    if 0 < genericArgs.length then
      typchkResolveGenericInstance env name genericArgs.length (typchkResolveTypes env genericArgs)
    else typchkResolveName env name

def typchkResolveTypes (env : TypeEnv) : List TypeNode → Resolved (List Ty)
  | [] => .ok []
  | node :: nodes => do
    let type ← typchkResolveType env node
    let types ← typchkResolveTypes env nodes
    return type :: types

end

/-! ### What is looked up -/

mutual

/-- The names in a type expression; type arguments come before the name they are given to. -/
def typeNames : TypeNode → List Token
  | .named _ name genericArgs => typeNamesAll genericArgs ++ [name]
  | .function _ paramTypes returnType => typeNamesAll paramTypes ++ typeNames returnType
  | .list _ elementType | .array _ elementType _ => typeNames elementType

def typeNamesAll : List TypeNode → List Token
  | [] => []
  | node :: nodes => typeNames node ++ typeNamesAll nodes

end

/-- The same but for what the aliases stand for. -/
structure SameBesidesAliases (env env' : TypeEnv) : Prop where
  structs : env.structs = env'.structs
  genericParams : env.genericParams = env'.genericParams
  currentImplTargetType : env.currentImplTargetType = env'.currentImplTargetType
  currentImplSelfType : env.currentImplSelfType = env'.currentImplSelfType

/-- A name stands for the same alias, generic or not. -/
def SameAlias (env env' : TypeEnv) (name : Bytes) : Prop :=
  typchkTypeEnvLookupAlias env name = typchkTypeEnvLookupAlias env' name ∧
    genericAliasLookup env name = genericAliasLookup env' name

namespace SameBesidesAliases

variable {env env' env'' : TypeEnv}

theorem refl (env : TypeEnv) : SameBesidesAliases env env := ⟨rfl, rfl, rfl, rfl⟩

theorem symm (h : SameBesidesAliases env env') : SameBesidesAliases env' env where
  structs := h.structs.symm
  genericParams := h.genericParams.symm
  currentImplTargetType := h.currentImplTargetType.symm
  currentImplSelfType := h.currentImplSelfType.symm

theorem trans (h : SameBesidesAliases env env') (h' : SameBesidesAliases env' env'') :
    SameBesidesAliases env env'' where
  structs := h.structs.trans h'.structs
  genericParams := h.genericParams.trans h'.genericParams
  currentImplTargetType := h.currentImplTargetType.trans h'.currentImplTargetType
  currentImplSelfType := h.currentImplSelfType.trans h'.currentImplSelfType

theorem lookupStruct (h : SameBesidesAliases env env') :
    typchkTypeEnvLookupStruct env = typchkTypeEnvLookupStruct env' := by
  funext name
  rw [typchkTypeEnvLookupStruct, h.structs, typchkTypeEnvLookupStruct]

theorem structParamCount (h : SameBesidesAliases env env') :
    structParamCount env = structParamCount env' := by
  funext type
  unfold KirbyLang.structParamCount
  rw [h.lookupStruct]

theorem structType (h : SameBesidesAliases env env') : structType env = structType env' := by
  funext name
  unfold KirbyLang.structType
  rw [h.lookupStruct]

end SameBesidesAliases

section Congruence

variable {env env' : TypeEnv}

theorem typchkResolveName_congr (h : SameBesidesAliases env env') {name : Token}
    (hname : SameAlias env env' name.text) :
    typchkResolveName env name = typchkResolveName env' name := by
  unfold typchkResolveName typchkResolveDeclaredName selfType
  rw [h.genericParams, h.currentImplTargetType, h.currentImplSelfType, h.lookupStruct, hname.1,
    hname.2]

theorem typchkResolveGenericInstance_congr (h : SameBesidesAliases env env') {name : Token}
    (hname : SameAlias env env' name.text) (count : ℕ) (args : Resolved (List Ty)) :
    typchkResolveGenericInstance env name count args =
      typchkResolveGenericInstance env' name count args := by
  unfold typchkResolveGenericInstance
  rw [h.currentImplTargetType, h.structType, h.structParamCount, hname.1, hname.2]

mutual

theorem typchkResolveType_congr (h : SameBesidesAliases env env') (node : TypeNode)
    (hnames : ∀ name ∈ typeNames node, SameAlias env env' name.text) :
    typchkResolveType env node = typchkResolveType env' node := by
  cases node with
  | named line name genericArgs =>
    have hargs := typchkResolveTypes_congr h genericArgs fun n hn =>
      hnames n (by simp [typeNames, hn])
    have hname : SameAlias env env' name.text := hnames name (by simp [typeNames])
    rw [typchkResolveType, typchkResolveType, hargs, typchkResolveGenericInstance_congr h hname,
      typchkResolveName_congr h hname]
  | function line paramTypes returnType =>
    have hparams := typchkResolveTypes_congr h paramTypes fun n hn =>
      hnames n (by simp [typeNames, hn])
    have hreturn := typchkResolveType_congr h returnType fun n hn =>
      hnames n (by simp [typeNames, hn])
    rw [typchkResolveType, typchkResolveType, hparams, hreturn]
  | list line elementType =>
    have helement := typchkResolveType_congr h elementType fun n hn =>
      hnames n (by simp [typeNames, hn])
    rw [typchkResolveType, typchkResolveType, helement]
  | array line elementType length =>
    have helement := typchkResolveType_congr h elementType fun n hn =>
      hnames n (by simp [typeNames, hn])
    rw [typchkResolveType, typchkResolveType, helement]

theorem typchkResolveTypes_congr (h : SameBesidesAliases env env') (nodes : List TypeNode)
    (hnames : ∀ name ∈ typeNamesAll nodes, SameAlias env env' name.text) :
    typchkResolveTypes env nodes = typchkResolveTypes env' nodes := by
  cases nodes with
  | nil => rfl
  | cons node nodes =>
    have hnode := typchkResolveType_congr h node fun n hn => hnames n (by simp [typeNamesAll, hn])
    have hrest := typchkResolveTypes_congr h nodes fun n hn => hnames n (by simp [typeNamesAll, hn])
    rw [typchkResolveTypes, typchkResolveTypes, hnode, hrest]

end

end Congruence

end KirbyLang
