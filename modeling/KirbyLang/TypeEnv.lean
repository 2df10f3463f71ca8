import KirbyLang.Ast
import KirbyLang.Lib.LexicalScopes
import KirbyLang.Types

/-!
# The type environment

The names that the checker knows (`typecheck.c`), with the latest binding of an array and the
innermost scope first. A name is its bytes: names are interned, and compared byte by byte.

* `typchkTypeEnvLookup`, `typchkLookupVariableType`: the lookups;
* `typchkTypeEnvLookup_lexical_iff`: when they are lexical scoping, and when the type of an outer
  declaration shows through.
-/

namespace KirbyLang

open LexicalScopes (Event Scope lexical)

structure TypeEnvBinding where
  name : Bytes
  type : Ty
  deriving Repr

def bindingArrayWrite (array : List TypeEnvBinding) (name : Bytes) (type : Ty) :
    List TypeEnvBinding := ⟨name, type⟩ :: array

/-- Most recently declared binding wins. Unknown when there is none. -/
def bindingArrayLookup (array : List TypeEnvBinding) (name : Bytes) : Ty :=
  match array.find? fun binding => binding.name == name with
  | some binding => binding.type
  | none => .unknown

/-- A generic type alias. The target holds the alias's parameters as unfilled generic parameters,
and is unknown if it did not resolve. -/
structure GenericAlias where
  name : Bytes
  paramCount : ℕ
  target : Ty
  deriving Repr

/-- A struct declaration: how many type parameters it has, and its fields. -/
structure StructDeclaration where
  name : Bytes
  genericParamCount : ℕ := 0
  fields : List TypeEnvBinding := []
  deriving Repr

structure TypeEnv where
  scopes : List (List TypeEnvBinding) := []
  structs : List StructDeclaration := []
  functions : List TypeEnvBinding := []
  aliases : List TypeEnvBinding := []
  genericAliases : List GenericAlias := []
  /-- Generic parameters of the declarations being checked, innermost first. -/
  genericParams : List TypeEnvBinding := []
  /-- Unknown when no impl block is being checked. -/
  currentImplTargetType : Ty := .unknown
  currentImplSelfType : Ty := .unknown
  deriving Repr

/-! ### Variables -/

def typchkTypeEnvBeginScope (env : TypeEnv) : TypeEnv := { env with scopes := [] :: env.scopes }

/-- `none` where C would end a scope that is not there. -/
def typchkTypeEnvEndScope (env : TypeEnv) : Option TypeEnv :=
  match env.scopes with
  | [] => none
  | _ :: scopes => some { env with scopes }

def typchkTypeEnvDeclare (env : TypeEnv) (name : Bytes) (type : Ty) : Option TypeEnv :=
  match env.scopes with
  | [] => none
  | scope :: scopes => some { env with scopes := bindingArrayWrite scope name type :: scopes }

/-- The innermost scope with a type for the name. -/
def lookupInScopes (name : Bytes) : List (List TypeEnvBinding) → Ty
  | [] => .unknown
  | scope :: scopes =>
    if (bindingArrayLookup scope name).isUnknown then lookupInScopes name scopes
    else bindingArrayLookup scope name

def typchkTypeEnvLookup (env : TypeEnv) (name : Bytes) : Ty := lookupInScopes name env.scopes

def typchkTypeEnvLookupFunction (env : TypeEnv) (name : Bytes) : Ty :=
  bindingArrayLookup env.functions name

/-- The declared type of a variable or function, which may still be generic. -/
def typchkLookupVariableType (env : TypeEnv) (name : Bytes) : Ty :=
  if (typchkTypeEnvLookup env name).isUnknown then typchkTypeEnvLookupFunction env name
  else typchkTypeEnvLookup env name

/-! ### Operations and scopes -/

def typeEnvStep (env : TypeEnv) : Event Bytes Ty → Option TypeEnv
  | .beginScope => some (typchkTypeEnvBeginScope env)
  | .endScope => typchkTypeEnvEndScope env
  | .declare name type => typchkTypeEnvDeclare env name type

def typeEnvRun (env : TypeEnv) (events : List (Event Bytes Ty)) : Option TypeEnv :=
  events.foldlM typeEnvStep env

/-- A scope as a map; an unknown type is a declaration too. -/
def scopeOf (scope : List TypeEnvBinding) : Scope Bytes Ty := fun name =>
  (scope.find? fun binding => binding.name == name).map TypeEnvBinding.type

def scopesOf (env : TypeEnv) : List (Scope Bytes Ty) := env.scopes.map scopeOf

variable {env env' : TypeEnv} {name : Bytes} {events : List (Event Bytes Ty)}

theorem bindingArrayLookup_eq (array : List TypeEnvBinding) :
    bindingArrayLookup array name = (scopeOf array name).getD .unknown := by
  unfold bindingArrayLookup scopeOf
  cases array.find? fun binding => binding.name == name <;> rfl

theorem scopeOf_write (scope : List TypeEnvBinding) (type : Ty) :
    scopeOf (bindingArrayWrite scope name type) =
      Function.update (scopeOf scope) name (some type) := by
  funext other
  by_cases h : other = name
  · subst h
    simp [scopeOf, bindingArrayWrite]
  · have hne : (name == other) = false := by simpa using Ne.symm h
    simp [scopeOf, bindingArrayWrite, hne, Function.update_of_ne h]

/-- Each operation does to the environment's scopes what it does to lexical scopes, and to
nothing else. -/
theorem typeEnvStep_eq (env : TypeEnv) (event : Event Bytes Ty) :
    (typeEnvStep env event).map scopesOf = LexicalScopes.step event (scopesOf env) ∧
      ∀ env', typeEnvStep env event = some env' → env'.functions = env.functions := by
  cases event with
  | beginScope =>
    constructor
    · rfl
    · rintro env' ⟨⟩
      rfl
  | endScope =>
    unfold typeEnvStep typchkTypeEnvEndScope scopesOf
    cases env.scopes with
    | nil => simp [LexicalScopes.step]
    | cons scope scopes =>
      simp only [Option.map_some, List.map_cons, LexicalScopes.step, true_and]
      rintro env' ⟨⟩
      rfl
  | declare name type =>
    unfold typeEnvStep typchkTypeEnvDeclare scopesOf
    cases env.scopes with
    | nil => simp [LexicalScopes.step]
    | cons scope scopes =>
      simp only [Option.map_some, List.map_cons, LexicalScopes.step, scopeOf_write, true_and]
      rintro env' ⟨⟩
      rfl

theorem typeEnvRun_eq (env : TypeEnv) (events : List (Event Bytes Ty)) :
    (typeEnvRun env events).map scopesOf = LexicalScopes.run events (scopesOf env) ∧
      ∀ env', typeEnvRun env events = some env' → env'.functions = env.functions := by
  induction events generalizing env with
  | nil =>
    constructor
    · rfl
    · rintro env' ⟨⟩
      rfl
  | cons event events ih =>
    obtain ⟨hstep, hkept⟩ := typeEnvStep_eq env event
    have hrun : typeEnvRun env (event :: events) =
        (typeEnvStep env event).bind fun env' => typeEnvRun env' events := rfl
    rw [hrun, LexicalScopes.run_cons, ← hstep]
    cases hnext : typeEnvStep env event with
    | none => simp
    | some next =>
      obtain ⟨hscopes, hfunctions⟩ := ih next
      rw [Option.bind_some, Option.map_some, Option.bind_some]
      exact ⟨hscopes, fun env' h => (hfunctions env' h).trans (hkept next hnext)⟩

/-! ### Lookups -/

/-- No scope has a type for the name in its latest declaration. -/
def NoneKnown (scopes : List (Scope Bytes Ty)) (name : Bytes) : Prop :=
  ∀ scope ∈ scopes, ∀ type, scope name = some type → type.isUnknown = true

theorem lookupInScopes_of_noneKnown {scopes : List (List TypeEnvBinding)}
    (h : NoneKnown (scopes.map scopeOf) name) : lookupInScopes name scopes = .unknown := by
  induction scopes with
  | nil => rfl
  | cons scope scopes ih =>
    have hhead : (bindingArrayLookup scope name).isUnknown = true := by
      rw [bindingArrayLookup_eq]
      cases hscope : scopeOf scope name with
      | none => rfl
      | some type => exact h _ (by simp) type hscope
    rw [lookupInScopes, if_pos hhead]
    exact ih fun s hs => h s (List.mem_cons_of_mem _ hs)

theorem noneKnown_of_lookupInScopes {scopes : List (List TypeEnvBinding)}
    (h : lookupInScopes name scopes = .unknown) : NoneKnown (scopes.map scopeOf) name := by
  induction scopes with
  | nil => simp [NoneKnown]
  | cons scope scopes ih =>
    by_cases hhead : (bindingArrayLookup scope name).isUnknown = true
    · rw [lookupInScopes, if_pos hhead] at h
      intro s hs type htype
      rcases List.mem_cons.mp hs with rfl | hs
      · rwa [bindingArrayLookup_eq, htype] at hhead
      · exact ih h s hs type htype
    · rw [lookupInScopes, if_neg hhead] at h
      exact absurd (by rw [h]; rfl) hhead

/-- A name that its innermost declaration knows, or that has none, is looked up as it should be. -/
theorem lookupInScopes_of_known {scopes : List (List TypeEnvBinding)}
    (h : lexical (scopes.map scopeOf) name ≠ some .unknown) :
    lookupInScopes name scopes = (lexical (scopes.map scopeOf) name).getD .unknown := by
  induction scopes with
  | nil => rfl
  | cons scope scopes ih =>
    have hlookup : bindingArrayLookup scope name = (scopeOf scope name).getD .unknown :=
      bindingArrayLookup_eq scope
    simp only [List.map_cons, lexical, List.findSome?_cons] at h ih ⊢
    rw [lookupInScopes, hlookup]
    cases hscope : scopeOf scope name with
    | none =>
      rw [hscope] at h
      simpa [Ty.isUnknown] using ih h
    | some type =>
      rw [hscope] at h
      have hknown : ¬ type.isUnknown = true := fun hu => h (by rw [Ty.eq_unknown hu])
      simp [hknown]

/-- Lookups see of the scopes what they declare. -/
theorem lookupInScopes_congr {scopes scopes' : List (List TypeEnvBinding)}
    (h : scopes'.map scopeOf = scopes.map scopeOf) :
    lookupInScopes name scopes' = lookupInScopes name scopes := by
  induction scopes generalizing scopes' with
  | nil => rw [List.map_eq_nil_iff.mp h]
  | cons scope scopes ih =>
    obtain ⟨scope', rest, rfl, hscope, hrest⟩ := List.map_eq_cons_iff.mp h
    simp only [lookupInScopes, bindingArrayLookup_eq, hscope, ih hrest]

theorem typchkTypeEnvLookup_lexical_iff (env : TypeEnv) (name : Bytes) :
    typchkTypeEnvLookup env name = (lexical (scopesOf env) name).getD .unknown ↔
      (lexical (scopesOf env) name = some .unknown → NoneKnown (scopesOf env) name) := by
  by_cases hunknown : lexical (scopesOf env) name = some .unknown
  · rw [hunknown]
    constructor
    · intro h _
      exact noneKnown_of_lookupInScopes h
    · intro h
      exact lookupInScopes_of_noneKnown (h rfl)
  · constructor
    · intro _ h
      exact absurd h hunknown
    · intro _
      exact lookupInScopes_of_known hunknown

theorem typchkLookupVariableType_lexical_iff (env : TypeEnv) (name : Bytes) :
    typchkLookupVariableType env name =
        (lexical (scopesOf env) name).getD (typchkTypeEnvLookupFunction env name) ↔
      (lexical (scopesOf env) name = some .unknown →
        NoneKnown (scopesOf env) name ∧ typchkTypeEnvLookupFunction env name = .unknown) := by
  unfold typchkLookupVariableType
  by_cases hunknown : lexical (scopesOf env) name = some .unknown
  · rw [hunknown, Option.getD_some]
    by_cases hlookup : (typchkTypeEnvLookup env name).isUnknown = true
    · have hnone := noneKnown_of_lookupInScopes (Ty.eq_unknown hlookup)
      rw [if_pos hlookup]
      exact ⟨fun h _ => ⟨hnone, h⟩, fun h => (h rfl).2⟩
    · rw [if_neg hlookup]
      constructor
      · intro h
        exact absurd (by rw [h]; rfl) hlookup
      · intro h
        exact lookupInScopes_of_noneKnown (h rfl).1
  · have hlookup : typchkTypeEnvLookup env name = (lexical (scopesOf env) name).getD .unknown :=
      lookupInScopes_of_known hunknown
    refine ⟨fun _ h => absurd h hunknown, fun _ => ?_⟩
    rw [hlookup]
    cases hlexical : lexical (scopesOf env) name with
    | none => rfl
    | some type =>
      have hknown : ¬ type.isUnknown = true := fun hu =>
        hunknown (by rw [hlexical, Ty.eq_unknown hu])
      simp [hknown]

/-- After any operations: a lookup gives the type of the latest declaration in the innermost scope
that has one, exactly if that type is known or no scope around it knows one; for variables, no
function of the name may have one either. Ending a scope restores every lookup. -/
theorem lookup_after_operations {env' : TypeEnv} (h : typeEnvRun env events = some env') :
    ∃ scopes, LexicalScopes.run events (scopesOf env) = some scopes ∧
      (∀ name, typchkTypeEnvLookup env' name = (lexical scopes name).getD .unknown ↔
        (lexical scopes name = some .unknown → NoneKnown scopes name)) ∧
      (∀ name, typchkLookupVariableType env' name =
          (lexical scopes name).getD (typchkTypeEnvLookupFunction env name) ↔
        (lexical scopes name = some .unknown →
          NoneKnown scopes name ∧ typchkTypeEnvLookupFunction env name = .unknown)) ∧
      ∀ inside, LexicalScopes.Balanced inside →
        ∃ env'', typeEnvRun env' (.beginScope :: (inside ++ [.endScope])) = some env'' ∧
          ∀ name, typchkTypeEnvLookup env'' name = typchkTypeEnvLookup env' name ∧
            typchkLookupVariableType env'' name = typchkLookupVariableType env' name := by
  obtain ⟨hscopes, hfunctions⟩ := typeEnvRun_eq env events
  rw [h, Option.map_some] at hscopes
  have hfunction : ∀ name, typchkTypeEnvLookupFunction env' name =
      typchkTypeEnvLookupFunction env name := fun name => by
    rw [typchkTypeEnvLookupFunction, hfunctions env' h, typchkTypeEnvLookupFunction]
  refine ⟨scopesOf env', hscopes.symm, typchkTypeEnvLookup_lexical_iff env', fun name => ?_,
    fun inside hinside => ?_⟩
  · rw [← hfunction]
    exact typchkLookupVariableType_lexical_iff env' name
  · obtain ⟨hinner, hkept⟩ := typeEnvRun_eq env' (.beginScope :: (inside ++ [.endScope]))
    rw [LexicalScopes.run_scope hinside] at hinner
    obtain ⟨env'', henv, hsame⟩ := Option.map_eq_some_iff.mp hinner
    refine ⟨env'', henv, fun name => ?_⟩
    have hlookup : typchkTypeEnvLookup env'' name = typchkTypeEnvLookup env' name :=
      lookupInScopes_congr hsame
    refine ⟨hlookup, ?_⟩
    rw [typchkLookupVariableType, typchkLookupVariableType, hlookup, typchkTypeEnvLookupFunction,
      hkept env'' henv, typchkTypeEnvLookupFunction]

/-- A variable of an unknown type in an inner scope: the outer one shows through. -/
def shadowingUnknown : List (Event Bytes Ty) :=
  [.beginScope, .declare (ascii "x") (.number .f64), .beginScope, .declare (ascii "x") .unknown]

theorem lookup_after_operations_shadowing :
    ∃ env', typeEnvRun {} shadowingUnknown = some env' ∧
      ¬ typchkTypeEnvLookup env' (ascii "x") = .unknown := by
  obtain ⟨env', hrun⟩ : ∃ env', typeEnvRun {} shadowingUnknown = some env' := ⟨_, rfl⟩
  obtain ⟨scopes, hscopes, hlookup, -⟩ := lookup_after_operations hrun
  cases hscopes
  refine ⟨env', hrun, fun h => ?_⟩
  have hnone := (hlookup (ascii "x")).mp (by rw [h]; rfl) rfl
  have hknown := hnone _ (List.mem_cons_of_mem _ List.mem_cons_self) (.number .f64) rfl
  cases hknown

/-- The innermost declaration of the name has an unknown type, and the lookup gives another. -/
theorem lookup_not_lexical :
    ∃ env', typeEnvRun {} shadowingUnknown = some env' ∧
      lexical (scopesOf env') (ascii "x") = some .unknown ∧
      typchkTypeEnvLookup env' (ascii "x") = .number .f64 := ⟨_, rfl, rfl, rfl⟩

end KirbyLang
