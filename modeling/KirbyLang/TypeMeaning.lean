import KirbyLang.Substitution
import KirbyLang.TypeResolution
import Mathlib.Data.List.GetD

/-!
# What type expressions mean

The meaning of a type expression, apart from how the checker finds it: a name stands for a type, or
for a function from the types it is given, and that function is applied.

* `Names`, `meaning`: what names stand for at a place, and what a type expression then means;
* `meaning_filled`: filling in parameters afterwards gives the meaning with the parameters bound;
* `typchkResolveType_meaning`: the checker resolves a type expression to its meaning.
-/

namespace KirbyLang

/-! ### Types for parameters -/

namespace Ty

mutual

/-- The type with other types in the place of its parameters. -/
def filled (args : List Ty) : Ty → Ty
  | genericParam index name => args.getD index (genericParam index name)
  | struct name typeArgs => struct name (filledAll args typeArgs)
  | fn paramTypes returnType => fn (filledAll args paramTypes) (filled args returnType)
  | list elementType => list (filled args elementType)
  | array elementType length => array (filled args elementType) length
  | unknown => unknown
  | unit => unit
  | bool => bool
  | string => string
  | number kind => number kind
  | anyNumber => anyNumber
  | anyInteger => anyInteger
  | trait name => trait name
  | selfPlaceholder => selfPlaceholder
  | opaqueParam address index name => opaqueParam address index name

def filledAll (args : List Ty) : List Ty → List Ty
  | [] => []
  | type :: types => filled args type :: filledAll args types

end

mutual

/-- All parameters are below a number, and all lengths are written out. -/
def Within (count : ℕ) : Ty → Prop
  | genericParam index _ => index < count
  | struct _ typeArgs => AllWithin count typeArgs
  | fn paramTypes returnType => AllWithin count paramTypes ∧ Within count returnType
  | list elementType => Within count elementType
  | array elementType length => 0 ≤ length ∧ Within count elementType
  | unknown | unit | bool | string | number _ | anyNumber | anyInteger | trait _
  | selfPlaceholder | opaqueParam _ _ _ => True

def AllWithin (count : ℕ) : List Ty → Prop
  | [] => True
  | type :: types => Within count type ∧ AllWithin count types

end

theorem filledAll_eq_map (args types : List Ty) : filledAll args types = types.map (filled args) := by
  induction types with
  | nil => rfl
  | cons type types ih => rw [filledAll, ih, List.map_cons]

theorem allWithin_iff {count : ℕ} {types : List Ty} :
    AllWithin count types ↔ ∀ type ∈ types, type.Within count := by
  induction types with
  | nil => simp [AllWithin]
  | cons type types ih => simp [AllWithin, ih]

@[simp] theorem within_unknown (count : ℕ) : unknown.Within count := by simp [Within]

mutual

theorem Within.mono {count count' : ℕ} (hle : count ≤ count') {type : Ty}
    (h : type.Within count) : type.Within count' := by
  cases type with
  | genericParam index name =>
    simp only [Within] at h ⊢
    omega
  | struct name typeArgs =>
    simp only [Within] at h ⊢
    exact AllWithin.mono hle h
  | fn paramTypes returnType =>
    simp only [Within] at h ⊢
    exact ⟨AllWithin.mono hle h.1, Within.mono hle h.2⟩
  | list elementType =>
    simp only [Within] at h ⊢
    exact Within.mono hle h
  | array elementType length =>
    simp only [Within] at h ⊢
    exact ⟨h.1, Within.mono hle h.2⟩
  | _ => simp [Within]

theorem AllWithin.mono {count count' : ℕ} (hle : count ≤ count') {types : List Ty}
    (h : AllWithin count types) : AllWithin count' types := by
  cases types with
  | nil => simp [AllWithin]
  | cons type types =>
    simp only [AllWithin] at h ⊢
    exact ⟨Within.mono hle h.1, AllWithin.mono hle h.2⟩

end

mutual

theorem Within.filled {count : ℕ} {args : List Ty} (hargs : ∀ arg ∈ args, arg.Within count)
    {type : Ty} (h : type.Within args.length) : (type.filled args).Within count := by
  cases type with
  | genericParam index name =>
    have hindex : index < args.length := by simpa [Within] using h
    rw [Ty.filled, List.getD_eq_getElem args _ hindex]
    exact hargs _ (List.getElem_mem hindex)
  | struct name typeArgs =>
    simp only [Ty.filled, Within] at h ⊢
    exact AllWithin.filled hargs h
  | fn paramTypes returnType =>
    simp only [Ty.filled, Within] at h ⊢
    exact ⟨AllWithin.filled hargs h.1, Within.filled hargs h.2⟩
  | list elementType =>
    simp only [Ty.filled, Within] at h ⊢
    exact Within.filled hargs h
  | array elementType length =>
    simp only [Ty.filled, Within] at h ⊢
    exact ⟨h.1, Within.filled hargs h.2⟩
  | _ => simp [Ty.filled, Within]

theorem AllWithin.filled {count : ℕ} {args : List Ty} (hargs : ∀ arg ∈ args, arg.Within count)
    {types : List Ty} (h : AllWithin args.length types) : AllWithin count (filledAll args types) := by
  cases types with
  | nil => simp [filledAll, AllWithin]
  | cons type types =>
    simp only [filledAll, AllWithin] at h ⊢
    exact ⟨Within.filled hargs h.1, AllWithin.filled hargs h.2⟩

end

mutual

/-- Filling in twice is filling in once, with what is put in filled in. -/
theorem filled_filled {args : List Ty} (args' : List Ty) {type : Ty} (h : type.Within args.length) :
    (type.filled args).filled args' = type.filled (args.map (filled args')) := by
  cases type with
  | genericParam index name =>
    have hindex : index < args.length := by simpa [Within] using h
    have hindex' : index < (args.map (filled args')).length := by simpa using hindex
    rw [filled, filled, List.getD_eq_getElem args _ hindex, List.getD_eq_getElem _ _ hindex',
      List.getElem_map]
  | struct name typeArgs =>
    simp only [filled, Within] at h ⊢
    rw [filledAll_filledAll args' h]
  | fn paramTypes returnType =>
    simp only [filled, Within] at h ⊢
    rw [filledAll_filledAll args' h.1, filled_filled args' h.2]
  | list elementType =>
    simp only [filled, Within] at h ⊢
    rw [filled_filled args' h]
  | array elementType length =>
    simp only [filled, Within] at h ⊢
    rw [filled_filled args' h.2]
  | _ => simp [filled]

theorem filledAll_filledAll {args : List Ty} (args' : List Ty) {types : List Ty}
    (h : AllWithin args.length types) :
    filledAll args' (filledAll args types) = filledAll (args.map (filled args')) types := by
  cases types with
  | nil => simp [filledAll]
  | cons type types =>
    simp only [filledAll, AllWithin] at h ⊢
    rw [filled_filled args' h.1, filledAll_filledAll args' h.2]

end

mutual

/-- Nothing is filled into a type without parameters. -/
theorem filled_closed (args : List Ty) {type : Ty} (h : type.Within 0) : type.filled args = type := by
  cases type with
  | genericParam index name => simp [Within] at h
  | struct name typeArgs =>
    simp only [filled, Within] at h ⊢
    rw [filledAll_closed args h]
  | fn paramTypes returnType =>
    simp only [filled, Within] at h ⊢
    rw [filledAll_closed args h.1, filled_closed args h.2]
  | list elementType =>
    simp only [filled, Within] at h ⊢
    rw [filled_closed args h]
  | array elementType length =>
    simp only [filled, Within] at h ⊢
    rw [filled_closed args h.2]
  | _ => simp [filled]

theorem filledAll_closed (args : List Ty) {types : List Ty} (h : AllWithin 0 types) :
    filledAll args types = types := by
  cases types with
  | nil => simp [filledAll]
  | cons type types =>
    simp only [filledAll, AllWithin] at h ⊢
    rw [filled_closed args h.1, filledAll_closed args h.2]

end

end Ty

mutual

/-- With a known type for each parameter, the checker's substitution fills them in. -/
theorem typeSubstituteGenericParams_eq_filled {args : List Ty}
    (hargs : ∀ arg ∈ args, arg.isUnknown = false) {type : Ty} (h : type.Within args.length) :
    typeSubstituteGenericParams type args = type.filled args := by
  unfold typeSubstituteGenericParams
  cases type with
  | genericParam index name =>
    have hindex : index < args.length := by simpa [Ty.Within] using h
    have hslot : slotAt args index = args[index] := List.getD_eq_getElem args _ hindex
    have hknown : (slotAt args index).isUnknown = false := by
      rw [hslot]
      exact hargs _ (List.getElem_mem hindex)
    rw [substituteGenericParams, hknown, Ty.filled, List.getD_eq_getElem args _ hindex, hslot]
    rfl
  | struct name typeArgs =>
    simp only [Ty.Within] at h
    rw [substituteGenericParams, Ty.filled, substituteAll_eq_filledAll hargs h]
  | fn paramTypes returnType =>
    simp only [Ty.Within] at h
    have hreturn := typeSubstituteGenericParams_eq_filled hargs h.2
    unfold typeSubstituteGenericParams at hreturn
    rw [substituteGenericParams, Ty.filled, substituteAll_eq_filledAll hargs h.1, hreturn]
  | list elementType =>
    simp only [Ty.Within] at h
    have helement := typeSubstituteGenericParams_eq_filled hargs h
    unfold typeSubstituteGenericParams at helement
    rw [substituteGenericParams, Ty.filled, helement]
  | array elementType length =>
    simp only [Ty.Within] at h
    have helement := typeSubstituteGenericParams_eq_filled hargs h.2
    have hlength : boundLength args length = length := by
      rw [boundLength, if_neg (by omega)]
    unfold typeSubstituteGenericParams at helement
    rw [substituteGenericParams, Ty.filled, helement, hlength]
  | _ => simp [substituteGenericParams, Ty.filled]

theorem substituteAll_eq_filledAll {args : List Ty}
    (hargs : ∀ arg ∈ args, arg.isUnknown = false) {types : List Ty}
    (h : Ty.AllWithin args.length types) :
    substituteAll args false types = Ty.filledAll args types := by
  cases types with
  | nil => simp [substituteAll, Ty.filledAll]
  | cons type types =>
    simp only [Ty.AllWithin] at h
    have htype := typeSubstituteGenericParams_eq_filled hargs h.1
    unfold typeSubstituteGenericParams at htype
    rw [substituteAll, Ty.filledAll, htype, substituteAll_eq_filledAll hargs h.2]

end

/-! ### What names stand for -/

/-- The types that need no declaration. What `Self` is stays open outside of an impl block. -/
def builtinTypes : List (Bytes × Ty) :=
  [(ascii "unit", .unit), (ascii "bool", .bool), (ascii "string", .string)] ++
    NumberKind.all.map (fun kind => (ascii kind.info.name, .number kind)) ++
      [(ascii "Self", .selfPlaceholder)]

/-- What names stand for at a place of a program. -/
@[ext] structure Names where
  /-- The parameters in scope. -/
  param : Bytes → Option Ty
  /-- How many parameters a struct takes. -/
  struct : Bytes → Option ℕ
  alias_ : Bytes → Option Ty
  /-- An alias with parameters is a function of types, one for each of them. -/
  genericAlias : Bytes → List Ty → Option Ty

namespace Names

/-- A name by itself. A parameter hides structs and aliases, a struct hides aliases. -/
def plain (names : Names) (name : Bytes) : Option Ty :=
  (builtinTypes.lookup name).or <| (names.param name).or <|
    match names.struct name with
    | some 0 => some (.struct name [])
    | some _ => none
    | none => names.alias_ name

/-- A name that is given types. -/
def applied (names : Names) (name : Bytes) (args : List Ty) : Option Ty :=
  if name = ascii "Self" then none
  else
    match names.struct name with
    | some count => if 0 < count ∧ args.length = count then some (.struct name args) else none
    | none => names.genericAlias name args

/-- With the parameters of a declaration in scope, of which the last of a name counts. -/
def bind (names : Names) (params : List Token) (args : List Ty) : Names :=
  { names with
    param := fun name =>
      (((params.map Token.text).zip args).reverse.lookup name).or (names.param name) }

end Names

mutual

/-- The type that a type expression means, if it means one. -/
def meaning (names : Names) : TypeNode → Option Ty
  | .function _ paramTypes returnType => do
    let paramTypes ← meanings names paramTypes
    let returnType ← meaning names returnType
    return .fn paramTypes returnType
  | .list _ elementType => do
    let elementType ← meaning names elementType
    return .list elementType
  | .array _ elementType length => do
    let elementType ← meaning names elementType
    return .array elementType length
  | .named _ name genericArgs =>
    if genericArgs = [] then names.plain name.text
    else do
      let args ← meanings names genericArgs
      names.applied name.text args

def meanings (names : Names) : List TypeNode → Option (List Ty)
  | [] => some []
  | node :: nodes => do
    let type ← meaning names node
    let types ← meanings names nodes
    return type :: types

end

mutual

/-- All lengths in a type expression are numbers. Only native signatures have other lengths. -/
def LengthsWritten : TypeNode → Prop
  | .named _ _ genericArgs => AllLengthsWritten genericArgs
  | .function _ paramTypes returnType => AllLengthsWritten paramTypes ∧ LengthsWritten returnType
  | .list _ elementType => LengthsWritten elementType
  | .array _ elementType length => 0 ≤ length ∧ LengthsWritten elementType

def AllLengthsWritten : List TypeNode → Prop
  | [] => True
  | node :: nodes => LengthsWritten node ∧ AllLengthsWritten nodes

end

/-! ### Meanings and parameters -/

theorem lookup_map_snd {α β γ : Type} [BEq α] (f : β → γ) (entries : List (α × β)) (key : α) :
    (entries.map fun entry => (entry.1, f entry.2)).lookup key = (entries.lookup key).map f := by
  induction entries with
  | nil => rfl
  | cons entry entries ih =>
    rw [List.map_cons, List.lookup_cons, List.lookup_cons]
    cases key == entry.1 with
    | true => rfl
    | false => exact ih

theorem mem_of_lookup {α β : Type} [BEq α] [LawfulBEq α] {entries : List (α × β)} {key : α}
    {value : β} (h : entries.lookup key = some value) : (key, value) ∈ entries := by
  obtain ⟨before, after, rfl, -⟩ := List.lookup_eq_some_iff.mp h
  simp

theorem builtinTypes_within : ∀ entry ∈ builtinTypes, entry.2.Within 0 := by
  intro entry hentry
  simp only [builtinTypes, List.mem_append, List.mem_cons, List.not_mem_nil, or_false,
    List.mem_map] at hentry
  rcases hentry with ((rfl | rfl | rfl) | ⟨kind, -, rfl⟩) | rfl
  all_goals simp [Ty.Within]

/-- What names stand for has no parameters of its own, and what is given to an alias may be filled
in before or after. -/
structure Names.Closed (names : Names) : Prop where
  param : ∀ name type, names.param name = some type → type.Within 0
  alias_ : ∀ name type, names.alias_ name = some type → type.Within 0
  genericAlias : ∀ name args type, names.genericAlias name args = some type →
    ∀ count, (∀ arg ∈ args, arg.Within count) → type.Within count
  filled : ∀ name args args', names.genericAlias name (args.map (Ty.filled args')) =
    (names.genericAlias name args).map (Ty.filled args')

section Parameters

variable {names : Names} (hnames : names.Closed) (params : List Token) {types : List Ty}

include hnames

theorem plain_filled (types args : List Ty) (name : Bytes) :
    (names.bind params (types.map (Ty.filled args))).plain name =
      ((names.bind params types).plain name).map (Ty.filled args) := by
  have hlookup : ((params.map Token.text).zip (types.map (Ty.filled args))).reverse.lookup name =
      (((params.map Token.text).zip types).reverse.lookup name).map (Ty.filled args) := by
    rw [List.zip_map_right, ← List.map_reverse]
    exact lookup_map_snd _ _ _
  unfold Names.plain Names.bind
  dsimp only
  rw [hlookup]
  cases hbuiltin : builtinTypes.lookup name with
  | some type =>
    have hclosed := builtinTypes_within _ (mem_of_lookup hbuiltin)
    rw [Option.some_or, Option.some_or, Option.map_some, Ty.filled_closed args hclosed]
  | none =>
    cases ((params.map Token.text).zip types).reverse.lookup name with
    | some type => rfl
    | none =>
      cases hparam : names.param name with
      | some type =>
        have hclosed := hnames.param name type hparam
        simp [Ty.filled_closed args hclosed]
      | none =>
        simp only [Option.none_or, Option.map_none]
        cases names.struct name with
        | some count => cases count <;> rfl
        | none =>
          cases halias : names.alias_ name with
          | none => rfl
          | some type => rw [Option.map_some, Ty.filled_closed args (hnames.alias_ name type halias)]

theorem applied_filled (args : List Ty) (name : Bytes) (given : List Ty) :
    names.applied name (given.map (Ty.filled args)) =
      (names.applied name given).map (Ty.filled args) := by
  unfold Names.applied
  by_cases hself : name = ascii "Self"
  · rw [if_pos hself, if_pos hself]
    rfl
  · rw [if_neg hself, if_neg hself]
    cases names.struct name with
    | none => exact hnames.filled name given args
    | some count =>
      dsimp only
      rw [List.length_map]
      split
      · rw [Option.map_some, Ty.filled, Ty.filledAll_eq_map]
      · rfl

set_option linter.unusedSectionVars false in
mutual

/-- Filling in parameters afterwards gives the meaning with the parameters bound. -/
theorem meaning_filled (types args : List Ty) (node : TypeNode) :
    meaning (names.bind params (types.map (Ty.filled args))) node =
      (meaning (names.bind params types) node).map (Ty.filled args) := by
  cases node with
  | named line name genericArgs =>
    rw [meaning, meaning]
    by_cases hargs : genericArgs = []
    · rw [if_pos hargs, if_pos hargs]
      exact plain_filled hnames params types args name.text
    · rw [if_neg hargs, if_neg hargs, meanings_filled types args genericArgs]
      cases meanings (names.bind params types) genericArgs with
      | none => rfl
      | some given => exact applied_filled hnames args name.text given
  | function line paramTypes returnType =>
    rw [meaning, meaning, meanings_filled types args paramTypes,
      meaning_filled types args returnType]
    cases meanings (names.bind params types) paramTypes with
    | none => rfl
    | some given =>
      cases meaning (names.bind params types) returnType with
      | none => rfl
      | some result => simp [Ty.filled, Ty.filledAll_eq_map]
  | list line elementType =>
    rw [meaning, meaning, meaning_filled types args elementType]
    cases meaning (names.bind params types) elementType with
    | none => rfl
    | some element => simp [Ty.filled]
  | array line elementType length =>
    rw [meaning, meaning, meaning_filled types args elementType]
    cases meaning (names.bind params types) elementType with
    | none => rfl
    | some element => simp [Ty.filled]

theorem meanings_filled (types args : List Ty) (nodes : List TypeNode) :
    meanings (names.bind params (types.map (Ty.filled args))) nodes =
      (meanings (names.bind params types) nodes).map (List.map (Ty.filled args)) := by
  cases nodes with
  | nil => rfl
  | cons node nodes =>
    rw [meanings, meanings, meaning_filled types args node, meanings_filled types args nodes]
    cases meaning (names.bind params types) node with
    | none => rfl
    | some type => cases meanings (names.bind params types) nodes <;> rfl

end

variable {count : ℕ} (htypes : ∀ type ∈ types, type.Within count)

include htypes

theorem plain_within {name : Bytes} {type : Ty}
    (h : (names.bind params types).plain name = some type) : type.Within count := by
  unfold Names.plain Names.bind at h
  dsimp only at h
  cases hbuiltin : builtinTypes.lookup name with
  | some builtin =>
    rw [hbuiltin, Option.some_or] at h
    cases h
    exact (builtinTypes_within _ (mem_of_lookup hbuiltin)).mono (Nat.zero_le count)
  | none =>
    rw [hbuiltin, Option.none_or] at h
    cases hbound : ((params.map Token.text).zip types).reverse.lookup name with
    | some bound =>
      rw [hbound, Option.some_or, Option.some_or] at h
      cases h
      have hmem := List.mem_reverse.mp (mem_of_lookup hbound)
      exact htypes _ (List.of_mem_zip hmem).2
    | none =>
      rw [hbound, Option.none_or] at h
      cases hparam : names.param name with
      | some outer =>
        rw [hparam, Option.some_or] at h
        cases h
        exact (hnames.param name _ hparam).mono (Nat.zero_le count)
      | none =>
        rw [hparam, Option.none_or] at h
        cases hstruct : names.struct name with
        | none =>
          rw [hstruct] at h
          exact (hnames.alias_ name _ h).mono (Nat.zero_le count)
        | some structCount =>
          rw [hstruct] at h
          cases structCount with
          | zero =>
            cases h
            simp [Ty.Within, Ty.AllWithin]
          | succ structCount => cases h

omit htypes in
theorem applied_within {name : Bytes} {given : List Ty} {type : Ty}
    (hgiven : ∀ arg ∈ given, arg.Within count) (h : names.applied name given = some type) :
    type.Within count := by
  unfold Names.applied at h
  split at h
  · cases h
  · cases hstruct : names.struct name with
    | none =>
      rw [hstruct] at h
      exact hnames.genericAlias name given type h count hgiven
    | some structCount =>
      rw [hstruct] at h
      dsimp only at h
      split at h
      · cases h
        rw [Ty.Within]
        exact Ty.allWithin_iff.mpr hgiven
      · cases h

set_option linter.unusedSectionVars false in
mutual

/-- A meaning has no parameters but those that are bound. -/
theorem meaning_within (node : TypeNode) (hnode : LengthsWritten node) {type : Ty}
    (h : meaning (names.bind params types) node = some type) : type.Within count := by
  cases node with
  | named line name genericArgs =>
    rw [meaning] at h
    by_cases hargs : genericArgs = []
    · rw [if_pos hargs] at h
      exact plain_within hnames params htypes h
    · rw [if_neg hargs] at h
      obtain ⟨given, hgiven, happlied⟩ := Option.bind_eq_some_iff.mp h
      rw [LengthsWritten] at hnode
      exact applied_within hnames (meanings_within genericArgs hnode hgiven) happlied
  | function line paramTypes returnType =>
    rw [meaning] at h
    rw [LengthsWritten] at hnode
    obtain ⟨given, hgiven, hrest⟩ := Option.bind_eq_some_iff.mp h
    obtain ⟨result, hresult, hfn⟩ := Option.bind_eq_some_iff.mp hrest
    cases hfn
    rw [Ty.Within, Ty.allWithin_iff]
    exact ⟨meanings_within paramTypes hnode.1 hgiven, meaning_within returnType hnode.2 hresult⟩
  | list line elementType =>
    rw [meaning] at h
    rw [LengthsWritten] at hnode
    obtain ⟨element, helement, hlist⟩ := Option.bind_eq_some_iff.mp h
    cases hlist
    rw [Ty.Within]
    exact meaning_within elementType hnode helement
  | array line elementType length =>
    rw [meaning] at h
    rw [LengthsWritten] at hnode
    obtain ⟨element, helement, harray⟩ := Option.bind_eq_some_iff.mp h
    cases harray
    rw [Ty.Within]
    exact ⟨hnode.1, meaning_within elementType hnode.2 helement⟩

theorem meanings_within (nodes : List TypeNode) (hnodes : AllLengthsWritten nodes)
    {found : List Ty} (h : meanings (names.bind params types) nodes = some found) :
    ∀ type ∈ found, type.Within count := by
  cases nodes with
  | nil =>
    cases h
    simp
  | cons node nodes =>
    rw [meanings] at h
    rw [AllLengthsWritten] at hnodes
    obtain ⟨type, htype, hrest⟩ := Option.bind_eq_some_iff.mp h
    obtain ⟨rest, hfound, hcons⟩ := Option.bind_eq_some_iff.mp hrest
    cases hcons
    exact List.forall_mem_cons.mpr
      ⟨meaning_within node hnodes.1 htype, meanings_within nodes hnodes.2 hfound⟩

end

end Parameters

/-! ### What resolves is known -/

variable {env : TypeEnv}

theorem resolved_bind_eq_ok {α β : Type} {first : Resolved α} {rest : α → Resolved β} {result : β}
    (h : first >>= rest = .ok result) : ∃ value, first = .ok value ∧ rest value = .ok result := by
  cases first with
  | error => cases h
  | ok value => exact ⟨value, rfl, h⟩

theorem typeStructInstance_known {declaration : Ty} {typeArgs : List Ty}
    (h : declaration.isUnknown = false) :
    (typeStructInstance declaration typeArgs).isUnknown = false := by
  cases declaration with
  | unknown => cases h
  | _ => rfl

theorem selfType_known (env : TypeEnv) : (selfType env).isUnknown = false := by
  unfold selfType
  split
  · next h => simpa using h
  · split
    · next h => simpa using h
    · rfl

theorem typchkResolveDeclaredName_known {name : Token} {type : Ty}
    (h : typchkResolveDeclaredName env name = .ok type) : type.isUnknown = false := by
  unfold typchkResolveDeclaredName errorAt at h
  split at h
  · next hparam =>
    cases h
    simpa using hparam
  · split at h
    · split at h
      · cases h
      · cases h
        rfl
    · split at h
      · next halias =>
        cases h
        simpa using halias
      · split at h <;> cases h

theorem typchkResolveName_known {name : Token} {type : Ty}
    (h : typchkResolveName env name = .ok type) : type.isUnknown = false := by
  unfold typchkResolveName at h
  split at h
  · cases h
    rfl
  · split at h
    · cases h
      rfl
    · split at h
      · cases h
        rfl
      · split at h
        · cases h
          rfl
        · split at h
          · cases h
            exact selfType_known env
          · exact typchkResolveDeclaredName_known h

theorem typchkInstantiateGenericAlias_known {name : Token} {count : ℕ}
    {args : Resolved (List Ty)} {genericAlias : GenericAlias} {type : Ty}
    (h : typchkInstantiateGenericAlias name count args genericAlias = .ok type) :
    type.isUnknown = false := by
  unfold typchkInstantiateGenericAlias at h
  split at h
  · cases h
  · obtain ⟨typeArgs, -, htarget⟩ := resolved_bind_eq_ok h
    split at htarget
    · cases htarget
    · next hknown =>
      cases htarget
      exact isUnknown_substitute typeArgs (by simpa using hknown)

theorem typchkResolveGenericInstance_known {name : Token} {count : ℕ}
    {args : Resolved (List Ty)} {type : Ty}
    (h : typchkResolveGenericInstance env name count args = .ok type) :
    type.isUnknown = false := by
  unfold typchkResolveGenericInstance at h
  split at h
  · cases h
  · dsimp only at h
    generalize (if tokenTextEquals name "Self" = true then env.currentImplTargetType
      else structType env name.text) = declaration at h
    split at h
    · cases hlookup : genericAliasLookup env name.text with
      | some genericAlias =>
        rw [hlookup] at h
        exact typchkInstantiateGenericAlias_known h
      | none =>
        rw [hlookup] at h
        dsimp only at h
        split at h <;> cases h
    · next hdeclaration =>
      split at h
      · cases h
      · split at h
        · cases h
        · obtain ⟨typeArgs, -, hinstance⟩ := resolved_bind_eq_ok h
          cases hinstance
          exact typeStructInstance_known (by simpa using hdeclaration)

theorem typchkResolveType_known {node : TypeNode} {type : Ty}
    (h : typchkResolveType env node = .ok type) : type.isUnknown = false := by
  cases node with
  | named line name genericArgs =>
    rw [typchkResolveType] at h
    split at h
    · exact typchkResolveGenericInstance_known h
    · exact typchkResolveName_known h
  | function line paramTypes returnType =>
    rw [typchkResolveType] at h
    obtain ⟨params, -, hrest⟩ := resolved_bind_eq_ok h
    obtain ⟨result, -, hfn⟩ := resolved_bind_eq_ok hrest
    cases hfn
    rfl
  | list line elementType =>
    rw [typchkResolveType] at h
    obtain ⟨element, -, hlist⟩ := resolved_bind_eq_ok h
    cases hlist
    rfl
  | array line elementType length =>
    rw [typchkResolveType] at h
    obtain ⟨element, -, harray⟩ := resolved_bind_eq_ok h
    cases harray
    rfl

/-! ### Resolution -/

def knownType (type : Ty) : Option Ty := if type.isUnknown then none else some type

/-- What names stand for in an environment. -/
def TypeEnv.names (env : TypeEnv) : Names where
  param name := knownType (bindingArrayLookup env.genericParams name)
  struct name :=
    (env.structs.find? fun declaration => declaration.name == name).map
      StructDeclaration.genericParamCount
  alias_ name := knownType (bindingArrayLookup env.aliases name)
  genericAlias name args :=
    (env.genericAliases.find? fun genericAlias => genericAlias.name == name).bind
      fun genericAlias =>
        if args.length = genericAlias.paramCount then
          (knownType genericAlias.target).map (Ty.filled args)
        else none

/-- Outside of impl blocks, and the target of each alias has the parameters of the alias. -/
structure TypeEnv.WellScoped (env : TypeEnv) : Prop where
  noImplTarget : env.currentImplTargetType = .unknown
  noImplSelf : env.currentImplSelfType = .unknown
  genericAliases : ∀ genericAlias ∈ env.genericAliases,
    genericAlias.target.Within genericAlias.paramCount

theorem toOption_bind {α β : Type} (first : Resolved α) (rest : α → Resolved β) :
    (first >>= rest).toOption = first.toOption.bind fun value => (rest value).toOption := by
  cases first <;> rfl

@[simp] theorem toOption_errorAt {α : Type} (token : Token) (message : Bytes) :
    (errorAt token message : Resolved α).toOption = none := rfl

@[simp] theorem toOption_ok {α : Type} (value : α) :
    (Except.ok value : Resolved α).toOption = some value := rfl

theorem knownType_of_known {type : Ty} (h : type.isUnknown = false) : knownType type = some type := by
  rw [knownType, h]
  rfl

theorem knownType_of_unknown {type : Ty} (h : type.isUnknown = true) : knownType type = none := by
  rw [knownType, h]
  rfl

theorem resolvedTypes_known {nodes : List TypeNode} {types : List Ty}
    (h : typchkResolveTypes env nodes = .ok types) : ∀ type ∈ types, type.isUnknown = false := by
  induction nodes generalizing types with
  | nil =>
    cases h
    simp
  | cons node nodes ih =>
    rw [typchkResolveTypes] at h
    obtain ⟨type, htype, hrest⟩ := resolved_bind_eq_ok h
    obtain ⟨rest, hfound, hcons⟩ := resolved_bind_eq_ok hrest
    cases hcons
    exact List.forall_mem_cons.mpr ⟨typchkResolveType_known htype, ih hfound⟩

theorem resolvedTypes_length {nodes : List TypeNode} {types : List Ty}
    (h : typchkResolveTypes env nodes = .ok types) : types.length = nodes.length := by
  induction nodes generalizing types with
  | nil =>
    cases h
    rfl
  | cons node nodes ih =>
    rw [typchkResolveTypes] at h
    obtain ⟨type, -, hrest⟩ := resolved_bind_eq_ok h
    obtain ⟨rest, hfound, hcons⟩ := resolved_bind_eq_ok hrest
    cases hcons
    rw [List.length_cons, List.length_cons, ih hfound]

theorem lookup_numberKinds (name : Bytes) :
    (NumberKind.all.map fun kind => (ascii kind.info.name, Ty.number kind)).lookup name =
      (numberKindFromName name).map Ty.number := by
  unfold numberKindFromName
  induction NumberKind.all with
  | nil => rfl
  | cons kind kinds ih =>
    rw [List.map_cons, List.lookup_cons, List.find?_cons, Bool.beq_comm]
    cases ascii kind.info.name == name with
    | true => rfl
    | false => exact ih

section Meaning

variable (henv : env.WellScoped)

theorem structType_eq (env : TypeEnv) (name : Bytes) :
    structType env name =
      match env.names.struct name with
      | some _ => .struct name []
      | none => .unknown := by
  unfold structType typchkTypeEnvLookupStruct TypeEnv.names
  dsimp only
  cases hlookup : env.structs.find? fun declaration => declaration.name == name with
  | none => rfl
  | some declaration =>
    have hname : declaration.name = name := by simpa using List.find?_some hlookup
    simp [hname]

theorem structParamCount_eq (env : TypeEnv) (name : Bytes) :
    structParamCount env (.struct name []) = (env.names.struct name).getD 0 := rfl

theorem typchkResolveDeclaredName_meaning (name : Token) :
    (typchkResolveDeclaredName env name).toOption =
      (env.names.param name.text).or
        (match env.names.struct name.text with
        | some 0 => some (.struct name.text [])
        | some _ => none
        | none => env.names.alias_ name.text) := by
  unfold typchkResolveDeclaredName typchkTypeEnvLookupStruct typchkTypeEnvLookupAlias TypeEnv.names
  dsimp only
  cases hparam : (bindingArrayLookup env.genericParams name.text).isUnknown with
  | false => simp [knownType_of_known hparam]
  | true =>
    rw [knownType_of_unknown hparam, Option.none_or, Bool.not_true, if_neg Bool.false_ne_true]
    cases hlookup : env.structs.find? fun declaration => declaration.name == name.text with
    | some declaration =>
      have hname : declaration.name = name.text := by simpa using List.find?_some hlookup
      simp only [Option.map_some]
      cases declaration.genericParamCount with
      | zero => simp [hname]
      | succ count => simp
    | none =>
      simp only [Option.map_none]
      cases halias : (bindingArrayLookup env.aliases name.text).isUnknown with
      | false => simp [knownType_of_known halias]
      | true =>
        rw [knownType_of_unknown halias, Bool.not_true, if_neg Bool.false_ne_true]
        cases genericAliasLookup env name.text <;> rfl

include henv

theorem typchkResolveName_meaning (name : Token) :
    (typchkResolveName env name).toOption = env.names.plain name.text := by
  have hself : selfType env = .selfPlaceholder := by
    simp [selfType, henv.noImplTarget, henv.noImplSelf, Ty.isUnknown]
  unfold typchkResolveName Names.plain builtinTypes tokenTextEquals
  simp only [List.cons_append, List.nil_append, List.lookup_append, List.lookup_cons,
    List.lookup_nil, lookup_numberKinds, hself]
  cases name.text == ascii "unit" with
  | true => rfl
  | false =>
    cases name.text == ascii "bool" with
    | true => rfl
    | false =>
      cases name.text == ascii "string" with
      | true => rfl
      | false =>
        cases numberKindFromName name.text with
        | some kind => rfl
        | none =>
          cases name.text == ascii "Self" with
          | true => rfl
          | false => exact typchkResolveDeclaredName_meaning name

theorem typchkInstantiateGenericAlias_meaning {name : Token} {count : ℕ}
    {genericArgs : Resolved (List Ty)} {genericAlias : GenericAlias}
    (hlookup : genericAliasLookup env name.text = some genericAlias)
    (hargs : ∀ args, genericArgs = .ok args →
      args.length = count ∧ ∀ arg ∈ args, arg.isUnknown = false) :
    (typchkInstantiateGenericAlias name count genericArgs genericAlias).toOption =
      genericArgs.toOption.bind (env.names.genericAlias name.text) := by
  have happlied : env.names.genericAlias name.text = fun args =>
      if args.length = genericAlias.paramCount then
        (knownType genericAlias.target).map (Ty.filled args)
      else none := by
    funext args
    exact congrArg (Option.bind · _) hlookup
  rw [happlied]
  unfold typchkInstantiateGenericAlias
  cases genericArgs with
  | error error => split <;> rfl
  | ok args =>
    obtain ⟨hlength, hknown⟩ := hargs args rfl
    rw [toOption_ok, Option.bind_some, hlength]
    by_cases hcount : count = genericAlias.paramCount
    · rw [if_neg (not_not.mpr hcount), if_pos hcount, toOption_bind, toOption_ok, Option.bind_some]
      cases htarget : genericAlias.target.isUnknown with
      | true =>
        -- a target that did not resolve is an error here as well
        simp [knownType_of_unknown htarget, Except.toOption]
      | false =>
        have hwithin : genericAlias.target.Within args.length := by
          rw [hlength, hcount]
          exact henv.genericAliases genericAlias (List.mem_of_find?_eq_some hlookup)
        have hfilled := typeSubstituteGenericParams_eq_filled hknown hwithin
        simp [knownType_of_known htarget, hfilled, Except.toOption, pure, Except.pure]
    · rw [if_pos hcount, if_neg hcount]
      rfl

theorem typchkResolveGenericInstance_meaning (name : Token) (nodes : List TypeNode) :
    (typchkResolveGenericInstance env name nodes.length (typchkResolveTypes env nodes)).toOption =
      (typchkResolveTypes env nodes).toOption.bind (env.names.applied name.text) := by
  unfold typchkResolveGenericInstance tokenTextEquals
  rw [henv.noImplTarget]
  by_cases hself : name.text = ascii "Self"
  · -- `Self` takes arguments in impl blocks only
    have hnone : env.names.applied name.text = fun _ => none := by
      funext args
      rw [Names.applied, if_pos hself]
    rw [hnone, hself]
    cases typchkResolveTypes env nodes <;> rfl
  · have hself' : (name.text == ascii "Self") = false := by simpa using hself
    simp only [hself', Bool.false_and, Bool.false_eq_true, if_false, structType_eq]
    have happlied : env.names.applied name.text = fun args =>
        match env.names.struct name.text with
        | some count => if 0 < count ∧ args.length = count then some (.struct name.text args)
          else none
        | none => env.names.genericAlias name.text args := by
      funext args
      rw [Names.applied, if_neg hself]
    rw [happlied]
    cases hstruct : env.names.struct name.text with
    | some count =>
      have hcount : structParamCount env (.struct name.text []) = count := by
        rw [structParamCount_eq, hstruct, Option.getD_some]
      have hknown : (Ty.struct name.text []).isUnknown = false := rfl
      dsimp only
      rw [hcount, hknown, if_neg Bool.false_ne_true]
      cases hargs : typchkResolveTypes env nodes with
      | error error =>
        split
        · rfl
        · split <;> rfl
      | ok args =>
        rw [toOption_ok, Option.bind_some, resolvedTypes_length hargs]
        by_cases hpos : count = 0
        · rw [if_pos hpos, if_neg (by omega)]
          rfl
        · rw [if_neg hpos]
          by_cases hlength : nodes.length = count
          · rw [if_neg (not_not.mpr hlength), if_pos ⟨by omega, hlength⟩]
            rfl
          · rw [if_pos hlength, if_neg fun h => hlength h.2]
            rfl
    -- a name that is no struct is looked up among the generic aliases
    | none =>
      have hunknown : Ty.unknown.isUnknown = true := rfl
      dsimp only
      rw [hunknown, if_pos rfl]
      cases hlookup : genericAliasLookup env name.text with
      | some genericAlias =>
        have hargs : ∀ args, typchkResolveTypes env nodes = .ok args →
            args.length = nodes.length ∧ ∀ arg ∈ args, arg.isUnknown = false :=
          fun args h => ⟨resolvedTypes_length h, resolvedTypes_known h⟩
        exact typchkInstantiateGenericAlias_meaning henv hlookup hargs
      | none =>
        have hnone : env.names.genericAlias name.text = fun _ => none := by
          funext args
          exact congrArg (Option.bind · _) hlookup
        rw [hnone]
        dsimp only
        cases typchkResolveTypes env nodes <;> split <;> rfl

set_option linter.unusedSectionVars false in
mutual

/-- The checker resolves a type expression to its meaning. -/
theorem typchkResolveType_meaning (node : TypeNode) :
    (typchkResolveType env node).toOption = meaning env.names node := by
  cases node with
  | named line name genericArgs =>
    rw [typchkResolveType, meaning]
    by_cases hargs : genericArgs = []
    · rw [if_pos hargs, hargs, if_neg (by simp)]
      exact typchkResolveName_meaning henv name
    · rw [if_neg hargs, if_pos (List.length_pos_iff.mpr hargs),
        typchkResolveGenericInstance_meaning henv, typchkResolveTypes_meaning genericArgs]
      rfl
  | function line paramTypes returnType =>
    simp only [typchkResolveType, meaning, toOption_bind, typchkResolveTypes_meaning paramTypes,
      typchkResolveType_meaning returnType]
    rfl
  | list line elementType =>
    simp only [typchkResolveType, meaning, toOption_bind, typchkResolveType_meaning elementType]
    rfl
  | array line elementType length =>
    simp only [typchkResolveType, meaning, toOption_bind, typchkResolveType_meaning elementType]
    rfl

theorem typchkResolveTypes_meaning (nodes : List TypeNode) :
    (typchkResolveTypes env nodes).toOption = meanings env.names nodes := by
  cases nodes with
  | nil => rfl
  | cons node nodes =>
    simp only [typchkResolveTypes, meanings, toOption_bind, typchkResolveType_meaning node,
      typchkResolveTypes_meaning nodes]
    rfl

end

end Meaning

end KirbyLang
