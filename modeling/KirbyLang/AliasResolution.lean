import KirbyLang.Lib.DepthFirst
import KirbyLang.TypeResolution

/-!
# Type aliases

How the aliases of a program are resolved (`typecheck.c`). Aliases may reference each other in any
order, so each is resolved on demand, depth first.

* `typchkResolveAliasDependencies`, `typchkResolvePendingAlias`, `typchkResolveAliases`: the code;
* `typchkResolveAliases_eq`: it is a depth-first search.
-/

namespace KirbyLang

/-- A type alias declaration. -/
structure TypeAliasNode where
  name : Token
  genericParams : List Token := []
  target : TypeNode

/-! ### Registering an alias -/

def typchkTypeEnvRegisterAlias (env : TypeEnv) (name : Bytes) (type : Ty) : TypeEnv :=
  { env with aliases := bindingArrayWrite env.aliases name type }

def typchkRegisterGenericAlias (env : TypeEnv) (name : Bytes) (paramCount : ℕ) (target : Ty) :
    TypeEnv :=
  { env with genericAliases := ⟨name, paramCount, target⟩ :: env.genericAliases }

/-- Parameters that callers fill in, numbered from an index. -/
def declaredParams (firstIndex : ℕ) : List Token → List TypeEnvBinding
  | [] => []
  | name :: names =>
    ⟨name.text, .genericParam firstIndex (some name.text)⟩ :: declaredParams (firstIndex + 1) names

def redeclaredParams (seen : List Token) : List Token → List TypeError
  | [] => []
  | name :: names =>
    let errors := redeclaredParams (name :: seen) names
    if seen.any (tokensEqual name) then
      ⟨name, ascii "Generic parameter " ++ quoted name ++ ascii " is already declared."⟩ :: errors
    else errors

/-- `typchkEnterGenericParams` for parameters that callers fill in, besides its errors. -/
def typchkEnterGenericParams (env : TypeEnv) (names : List Token) (firstIndex : ℕ) : TypeEnv :=
  { env with genericParams := (declaredParams firstIndex names).reverse ++ env.genericParams }

def resolvedType : Resolved Ty → Ty
  | .ok type => type
  | .error _ => .unknown

def resolutionErrors : Resolved Ty → List TypeError
  | .ok _ => []
  | .error error => error.toList

/-- The environment, and what was reported besides circular aliases. -/
structure Checked where
  env : TypeEnv
  errors : List TypeError := []

/-- A target in the environment, under its alias's name. -/
def registerTarget (env : TypeEnv) (decl : TypeAliasNode) (target : Ty) : TypeEnv :=
  if 0 < decl.genericParams.length then
    typchkRegisterGenericAlias env decl.name.text decl.genericParams.length target
  else if !target.isUnknown then typchkTypeEnvRegisterAlias env decl.name.text target
  else env

/-- The target of an alias, with the alias's own parameters in scope. -/
def aliasTarget (env : TypeEnv) (decl : TypeAliasNode) : Resolved Ty :=
  typchkResolveType (typchkEnterGenericParams env decl.genericParams 0) decl.target

/-- The end of `typchkResolvePendingAlias`. -/
def resolveTarget (decl : TypeAliasNode) (checked : Checked) : Checked where
  env := registerTarget checked.env decl (resolvedType (aliasTarget checked.env decl))
  errors := checked.errors ++ redeclaredParams [] decl.genericParams ++
    resolutionErrors (aliasTarget checked.env decl)

/-! ### Resolving them all -/

def circularError (decl : TypeAliasNode) : TypeError :=
  ⟨decl.name, ascii "Type alias " ++ quoted decl.name ++ ascii " is circular."⟩

section Resolution

variable (decls : List TypeAliasNode)

/-- The marks on the declarations, and those that were reported as circular. -/
abbrev AliasState := DepthFirst.State (Fin decls.length) Checked

def circularityErrors (s : AliasState decls) : List TypeError :=
  s.cycles.map fun i => circularError (decls.get i)

/-- The first declaration of a name. -/
def aliasIndex (name : Token) : Option (Fin decls.length) :=
  decls.findFinIdx? fun decl => tokensEqual decl.name name

mutual

/-- Resolve any alias that a type expression names before it is itself resolved. -/
def typchkResolveAliasDependencies
    (resolvePending : Fin decls.length → AliasState decls → Option (AliasState decls)) :
    TypeNode → AliasState decls → Option (AliasState decls)
  | .function _ paramTypes returnType, s =>
    (typchkResolveAllDependencies resolvePending paramTypes s).bind
      (typchkResolveAliasDependencies resolvePending returnType)
  | .list _ elementType, s => typchkResolveAliasDependencies resolvePending elementType s
  | .array _ elementType _, s => typchkResolveAliasDependencies resolvePending elementType s
  | .named _ name genericArgs, s =>
    (typchkResolveAllDependencies resolvePending genericArgs s).bind fun s =>
      match aliasIndex decls name with
      | some i => resolvePending i s
      | none => some s

def typchkResolveAllDependencies
    (resolvePending : Fin decls.length → AliasState decls → Option (AliasState decls)) :
    List TypeNode → AliasState decls → Option (AliasState decls)
  | [], s => some s
  | node :: nodes, s =>
    (typchkResolveAliasDependencies resolvePending node s).bind
      (typchkResolveAllDependencies resolvePending nodes)

end

/-- `none` when the fuel, a bound on the depth of the recursion, is used up. -/
def typchkResolvePendingAlias :
    ℕ → Fin decls.length → AliasState decls → Option (AliasState decls)
  | 0, _, _ => none
  | fuel + 1, index, s =>
    if s.resolved index then some s
    else if s.resolving index then some (s.report index)
    else
      (typchkResolveAliasDependencies decls (typchkResolvePendingAlias fuel)
        (decls.get index).target (s.enter index)).map fun s =>
          s.finish (fun i => resolveTarget (decls.get i)) index

/-- The aliases of a program, in the order of their declarations (`typchkCheckProgram`). -/
def typchkResolveAliases (fuel : ℕ) (env : TypeEnv) : Option (AliasState decls) :=
  (List.finRange decls.length).foldlM (fun s i => typchkResolvePendingAlias decls fuel i s)
    (.start ⟨env, []⟩)

/-! ### A depth-first search -/

/-- The declarations that are resolved before one of them is. -/
def dependencies (i : Fin decls.length) : List (Fin decls.length) :=
  (typeNames (decls.get i).target).filterMap (aliasIndex decls)

variable {decls}

theorem foldlM_filterMap_append {names names' : List Token}
    {resolvePending : Fin decls.length → AliasState decls → Option (AliasState decls)}
    (s : AliasState decls) :
    ((names ++ names').filterMap (aliasIndex decls)).foldlM (fun s i => resolvePending i s) s =
      ((names.filterMap (aliasIndex decls)).foldlM (fun s i => resolvePending i s) s).bind fun s =>
        (names'.filterMap (aliasIndex decls)).foldlM (fun s i => resolvePending i s) s := by
  rw [List.filterMap_append, List.foldlM_append]
  rfl

mutual

/-- The aliases of a type expression are resolved in the order of their names in it. -/
theorem typchkResolveAliasDependencies_eq
    (resolvePending : Fin decls.length → AliasState decls → Option (AliasState decls))
    (node : TypeNode) (s : AliasState decls) :
    typchkResolveAliasDependencies decls resolvePending node s =
      ((typeNames node).filterMap (aliasIndex decls)).foldlM (fun s i => resolvePending i s) s := by
  cases node with
  | named line name genericArgs =>
    rw [typchkResolveAliasDependencies, typchkResolveAllDependencies_eq, typeNames,
      foldlM_filterMap_append]
    congr 1
    funext s
    cases h : aliasIndex decls name with
    | none => simp [h]
    | some i => simp [h]
  | function line paramTypes returnType =>
    rw [typchkResolveAliasDependencies, typchkResolveAllDependencies_eq, typeNames,
      foldlM_filterMap_append]
    congr 1
    funext s
    exact typchkResolveAliasDependencies_eq resolvePending returnType s
  | list line elementType =>
    rw [typchkResolveAliasDependencies, typeNames]
    exact typchkResolveAliasDependencies_eq resolvePending elementType s
  | array line elementType length =>
    rw [typchkResolveAliasDependencies, typeNames]
    exact typchkResolveAliasDependencies_eq resolvePending elementType s

theorem typchkResolveAllDependencies_eq
    (resolvePending : Fin decls.length → AliasState decls → Option (AliasState decls))
    (nodes : List TypeNode) (s : AliasState decls) :
    typchkResolveAllDependencies decls resolvePending nodes s =
      ((typeNamesAll nodes).filterMap (aliasIndex decls)).foldlM
        (fun s i => resolvePending i s) s := by
  cases nodes with
  | nil => rfl
  | cons node nodes =>
    rw [typchkResolveAllDependencies, typchkResolveAliasDependencies_eq, typeNamesAll,
      foldlM_filterMap_append]
    congr 1
    funext s
    exact typchkResolveAllDependencies_eq resolvePending nodes s

end

theorem typchkResolvePendingAlias_eq (fuel : ℕ) :
    typchkResolvePendingAlias decls fuel =
      DepthFirst.visit (dependencies decls) (fun i => resolveTarget (decls.get i)) fuel := by
  induction fuel with
  | zero => rfl
  | succ fuel ih =>
    funext i s
    rw [typchkResolvePendingAlias, DepthFirst.visit, ih, typchkResolveAliasDependencies_eq]
    rfl

theorem typchkResolveAliases_eq (fuel : ℕ) (env : TypeEnv) :
    typchkResolveAliases decls fuel env =
      DepthFirst.visitAll (dependencies decls) (fun i => resolveTarget (decls.get i)) fuel
        (List.finRange decls.length) (.start ⟨env, []⟩) := by
  unfold typchkResolveAliases DepthFirst.visitAll
  rw [typchkResolvePendingAlias_eq]

end Resolution

end KirbyLang
