import KirbyLang.AliasResolution
import KirbyLang.TypeMeaning
import Mathlib.Data.List.Induction
import Mathlib.Data.List.Nodup

/-!
# What aliases stand for

* `Names.expanded`, `fullExpansion`: what names mean when aliases are expanded to a depth, and what an
  alias then stands for, as a function of types;
* `roundsEnv`: what the checker comes to when it resolves all targets a number of times;
* `resolvedEnv_eq`: aliases that come after all they depend on are registered as after that many
  rounds;
* `roundsEnv_names`: after a number of rounds names mean what they do when aliases are expanded as
  deep.
-/

namespace KirbyLang

open Relation

/-! ### Expansions -/

/-- Aliases on top of other names. An alias that means nothing leaves its name to what it stood for
before, and hides what had type arguments. -/
def Names.declare (names : Names) (decls : List TypeAliasNode)
    (standsFor : TypeAliasNode → List Ty → Option Ty) : Names :=
  { names with
    alias_ := fun name =>
      match decls.find? fun decl => decl.name.text == name with
      | some decl =>
        if decl.genericParams = [] then (standsFor decl []).or (names.alias_ name)
        else names.alias_ name
      | none => names.alias_ name
    genericAlias := fun name args =>
      match decls.find? fun decl => decl.name.text == name with
      | some decl =>
        if decl.genericParams = [] then names.genericAlias name args
        else if args.length = decl.genericParams.length then standsFor decl args
        else none
      | none => names.genericAlias name args }

/-- What the target of an alias means, with types for the parameters. -/
def targetMeaning (names : Names) (decl : TypeAliasNode) (args : List Ty) : Option Ty :=
  meaning (names.bind decl.genericParams args) decl.target

/-- What names stand for when aliases are expanded to a depth. -/
def Names.expanded (names : Names) (decls : List TypeAliasNode) : ℕ → Names
  | 0 => names
  | depth + 1 => names.declare decls (targetMeaning (names.expanded decls depth))

/-- What an alias stands for when aliases are expanded as deep as there are any. -/
def fullExpansion (names : Names) (decls : List TypeAliasNode) : TypeAliasNode → List Ty → Option Ty :=
  targetMeaning (names.expanded decls decls.length)

/-! ### Registering -/

/-- Register a type for each alias. -/
def registerAll (target : TypeAliasNode → Ty) (decls : List TypeAliasNode) (env : TypeEnv) :
    TypeEnv :=
  decls.foldl (fun env decl => registerTarget env decl (target decl)) env

/-- The environment when all targets are resolved a number of times, each time with the aliases as
they came out before. -/
def roundsEnv (env : TypeEnv) (decls : List TypeAliasNode) : ℕ → TypeEnv
  | 0 => env
  | rounds + 1 =>
    registerAll (fun decl => resolvedType (aliasTarget (roundsEnv env decls rounds) decl)) decls env

variable {env env' : TypeEnv} {decl : TypeAliasNode} {decls : List TypeAliasNode} {name : Bytes}
  {target : TypeAliasNode → Ty}

theorem SameAlias.refl (env : TypeEnv) (name : Bytes) : SameAlias env env name := ⟨rfl, rfl⟩

theorem SameAlias.symm (h : SameAlias env env' name) : SameAlias env' env name :=
  ⟨h.1.symm, h.2.symm⟩

theorem SameAlias.trans {env'' : TypeEnv} (h : SameAlias env env' name)
    (h' : SameAlias env' env'' name) : SameAlias env env'' name :=
  ⟨h.1.trans h'.1, h.2.trans h'.2⟩

theorem registerTarget_sameBesidesAliases (env : TypeEnv) (decl : TypeAliasNode) (type : Ty) :
    SameBesidesAliases (registerTarget env decl type) env := by
  unfold registerTarget
  split
  · exact ⟨rfl, rfl, rfl, rfl⟩
  · split
    · exact ⟨rfl, rfl, rfl, rfl⟩
    · exact .refl env

theorem registerTarget_other (type : Ty) (hname : decl.name.text ≠ name) :
    SameAlias (registerTarget env decl type) env name := by
  have hne : (decl.name.text == name) = false := by simpa using hname
  unfold registerTarget
  split
  · exact ⟨rfl, by simp [genericAliasLookup, typchkRegisterGenericAlias, hne]⟩
  · split
    · refine ⟨?_, rfl⟩
      simp [typchkTypeEnvLookupAlias, typchkTypeEnvRegisterAlias, bindingArrayLookup,
        bindingArrayWrite, hne]
    · exact .refl env name

/-- What an alias's own name stands for depends on what it stood for before and on the target. -/
theorem registerTarget_congr (type : Ty) (h : SameAlias env env' decl.name.text) :
    SameAlias (registerTarget env decl type) (registerTarget env' decl type) decl.name.text := by
  unfold registerTarget
  split
  · exact ⟨h.1, by simp [genericAliasLookup, typchkRegisterGenericAlias]⟩
  · split
    · refine ⟨?_, h.2⟩
      simp [typchkTypeEnvLookupAlias, typchkTypeEnvRegisterAlias, bindingArrayLookup,
        bindingArrayWrite]
    · exact h

theorem registerAll_sameBesidesAliases (target : TypeAliasNode → Ty) (decls : List TypeAliasNode)
    (env : TypeEnv) : SameBesidesAliases (registerAll target decls env) env := by
  induction decls generalizing env with
  | nil => exact .refl env
  | cons decl decls ih =>
    exact (ih (registerTarget env decl (target decl))).trans
      (registerTarget_sameBesidesAliases env decl (target decl))

theorem registerAll_other (hname : ∀ decl ∈ decls, decl.name.text ≠ name) :
    SameAlias (registerAll target decls env) env name := by
  induction decls generalizing env with
  | nil => exact .refl env name
  | cons decl decls ih =>
    have hrest : SameAlias (registerAll target (decl :: decls) env)
        (registerTarget env decl (target decl)) name :=
      ih fun d hd => hname d (List.mem_cons_of_mem _ hd)
    exact hrest.trans (registerTarget_other (target decl) (hname decl List.mem_cons_self))

theorem registerAll_mem (hnodup : (decls.map fun decl => decl.name.text).Nodup)
    (hdecl : decl ∈ decls) :
    SameAlias (registerAll target decls env) (registerTarget env decl (target decl))
      decl.name.text := by
  induction decls generalizing env with
  | nil => cases hdecl
  | cons head decls ih =>
    obtain ⟨hhead, hrest⟩ := List.nodup_cons.mp hnodup
    rcases List.mem_cons.mp hdecl with rfl | hdecl
    · exact registerAll_other fun d hd hname => hhead (List.mem_map.mpr ⟨d, hd, hname⟩)
    · have hne : head.name.text ≠ decl.name.text := fun hname =>
        hhead (List.mem_map.mpr ⟨decl, hdecl, hname.symm⟩)
      have hbefore : SameAlias (registerTarget env head (target head)) env decl.name.text :=
        registerTarget_other (target head) hne
      exact (ih hrest hdecl).trans (registerTarget_congr (target decl) hbefore)

/-- Aliases with distinct names may be registered in any order. -/
theorem registerAll_perm {decls' : List TypeAliasNode}
    (hnodup : (decls.map fun decl => decl.name.text).Nodup) (hperm : decls'.Perm decls)
    (name : Bytes) :
    SameAlias (registerAll target decls' env) (registerAll target decls env) name := by
  by_cases hname : ∃ decl ∈ decls, decl.name.text = name
  · obtain ⟨decl, hdecl, rfl⟩ := hname
    have hnodup' : (decls'.map fun decl => decl.name.text).Nodup :=
      (hperm.map _).nodup_iff.mpr hnodup
    exact (registerAll_mem hnodup' (hperm.mem_iff.mpr hdecl)).trans
      (registerAll_mem hnodup hdecl).symm
  · have hother : ∀ decl ∈ decls, decl.name.text ≠ name := fun decl hdecl heq =>
      hname ⟨decl, hdecl, heq⟩
    have hother' : ∀ decl ∈ decls', decl.name.text ≠ name := fun decl hdecl =>
      hother decl (hperm.mem_iff.mp hdecl)
    exact (registerAll_other hother').trans (registerAll_other hother).symm

/-! ### Targets -/

theorem enterGenericParams_same (h : SameBesidesAliases env env') (names : List Token) :
    SameBesidesAliases (typchkEnterGenericParams env names 0)
      (typchkEnterGenericParams env' names 0) where
  structs := h.structs
  genericParams := by rw [typchkEnterGenericParams, typchkEnterGenericParams, h.genericParams]
  currentImplTargetType := h.currentImplTargetType
  currentImplSelfType := h.currentImplSelfType

theorem aliasTarget_congr (h : SameBesidesAliases env env')
    (hnames : ∀ name ∈ typeNames decl.target, SameAlias env env' name.text) :
    aliasTarget env decl = aliasTarget env' decl :=
  typchkResolveType_congr (enterGenericParams_same h decl.genericParams) decl.target hnames

theorem roundsEnv_sameBesidesAliases (env : TypeEnv) (decls : List TypeAliasNode) (depth : ℕ) :
    SameBesidesAliases (roundsEnv env decls depth) env := by
  cases depth with
  | zero => exact .refl env
  | succ depth => exact registerAll_sameBesidesAliases _ decls env

/-- What aliases stand for does not depend on the order of their declarations. -/
theorem roundsEnv_perm {decls' : List TypeAliasNode}
    (hnodup : (decls.map fun decl => decl.name.text).Nodup) (hperm : decls'.Perm decls)
    (depth : ℕ) (name : Bytes) :
    SameAlias (roundsEnv env decls' depth) (roundsEnv env decls depth) name := by
  induction depth generalizing name with
  | zero => exact .refl env name
  | succ depth ih =>
    have htargets : (fun decl => resolvedType (aliasTarget (roundsEnv env decls' depth) decl)) =
        fun decl => resolvedType (aliasTarget (roundsEnv env decls depth) decl) := by
      funext decl
      rw [aliasTarget_congr ((roundsEnv_sameBesidesAliases env decls' depth).trans
        (roundsEnv_sameBesidesAliases env decls depth).symm) fun name _ => ih name.text]
    rw [roundsEnv, roundsEnv, htargets]
    exact registerAll_perm hnodup hperm name

/-! ### Indices -/

section Indices

variable (hnodup : (decls.map fun decl => decl.name.text).Nodup)

theorem name_of_aliasIndex {name : Token} {i : Fin decls.length}
    (h : aliasIndex decls name = some i) : (decls.get i).name.text = name.text :=
  beq_iff_eq.mp (List.findFinIdx?_eq_some_iff.mp h).1

theorem name_ne_of_aliasIndex {name : Token} (h : aliasIndex decls name = none) :
    ∀ decl ∈ decls, decl.name.text ≠ name.text := by
  intro decl hdecl hname
  exact List.findFinIdx?_eq_none_iff.mp h decl hdecl (beq_iff_eq.mpr hname)

include hnodup

theorem index_injective {i j : Fin decls.length}
    (h : (decls.get i).name.text = (decls.get j).name.text) : i = j := by
  have hdecls : decls.get i = decls.get j :=
    List.inj_on_of_nodup_map hnodup (decls.get_mem i) (decls.get_mem j) h
  exact (List.Nodup.of_map _ hnodup).injective_get hdecls

theorem aliasIndex_of_name {name : Token} {i : Fin decls.length}
    (h : (decls.get i).name.text = name.text) : aliasIndex decls name = some i := by
  cases hindex : aliasIndex decls name with
  | none => exact absurd h (name_ne_of_aliasIndex hindex _ (decls.get_mem i))
  | some j =>
    have hname := name_of_aliasIndex hindex
    rw [index_injective hnodup (h.trans hname.symm)]

theorem names_nodup {order : List (Fin decls.length)} (horder : order.Nodup) :
    ((order.map decls.get).map fun decl => decl.name.text).Nodup := by
  rw [List.map_map]
  exact horder.map fun i j h => index_injective hnodup h

end Indices

/-! ### Registering in order -/

/-- The target of an alias after a number of rounds. -/
def roundTarget (env : TypeEnv) (decls : List TypeAliasNode) (depth : ℕ)
    (decl : TypeAliasNode) : Ty :=
  resolvedType (aliasTarget (roundsEnv env decls depth) decl)

/-- The environment when some aliases are resolved. -/
def resolvedEnv (env : TypeEnv) (decls : List TypeAliasNode) (order : List (Fin decls.length)) :
    TypeEnv :=
  (order.foldl (fun checked i => resolveTarget (decls.get i) checked) ⟨env, []⟩).env

theorem resolvedEnv_concat (order : List (Fin decls.length)) (i : Fin decls.length) :
    resolvedEnv env decls (order ++ [i]) =
      registerTarget (resolvedEnv env decls order) (decls.get i)
        (resolvedType (aliasTarget (resolvedEnv env decls order) (decls.get i))) := by
  unfold resolvedEnv
  rw [List.foldl_append]
  rfl

section Order

variable (hnodup : (decls.map fun decl => decl.name.text).Nodup)

include hnodup

/-- When all that a target names is expanded to a depth, the target is expanded one deeper. -/
theorem aliasTarget_registered {order : List (Fin decls.length)} (horder : order.Nodup)
    {i : Fin decls.length} (hdeps : ∀ j ∈ dependencies decls i, j ∈ order) (depth : ℕ) :
    aliasTarget (registerAll (roundTarget env decls depth) (order.map decls.get) env)
        (decls.get i) =
      aliasTarget (roundsEnv env decls (depth + 1)) (decls.get i) := by
  apply aliasTarget_congr
  · exact (registerAll_sameBesidesAliases _ _ env).trans
      (roundsEnv_sameBesidesAliases env decls (depth + 1)).symm
  intro name hname
  cases hindex : aliasIndex decls name with
  | none =>
    have hother := name_ne_of_aliasIndex hindex
    have hother' : ∀ decl ∈ order.map decls.get, decl.name.text ≠ name.text := by
      intro decl hdecl
      obtain ⟨j, -, rfl⟩ := List.mem_map.mp hdecl
      exact hother _ (decls.get_mem j)
    exact (registerAll_other hother').trans (registerAll_other hother).symm
  | some j =>
    have hj : j ∈ order := hdeps j (List.mem_filterMap.mpr ⟨name, hname, hindex⟩)
    rw [← name_of_aliasIndex hindex]
    exact (registerAll_mem (names_nodup hnodup horder) (List.mem_map_of_mem hj)).trans
      (registerAll_mem hnodup (decls.get_mem j)).symm

/-- Aliases that come after all they depend on are registered with their expansions, to any depth
that reaches to the first of them. -/
theorem resolvedEnv_eq {order : List (Fin decls.length)} (horder : order.Nodup)
    (htopological : DepthFirst.Topological (dependencies decls) order) {depth : ℕ}
    (hdepth : order.length ≤ depth + 1) :
    resolvedEnv env decls order =
      registerAll (roundTarget env decls depth) (order.map decls.get) env := by
  induction order using List.reverseRecOn generalizing depth with
  | nil => rfl
  | append_singleton order i ih =>
    obtain ⟨hbefore, hdeps⟩ := htopological.of_concat
    have hbeforeNodup : order.Nodup := (List.nodup_append.mp horder).1
    rw [List.length_append, List.length_singleton] at hdepth
    have hrun : resolvedEnv env decls order =
        registerAll (roundTarget env decls depth) (order.map decls.get) env :=
      ih hbeforeNodup hbefore (by omega)
    -- the aliases before `i` are as deep as needed one round earlier
    have htarget : aliasTarget (resolvedEnv env decls order) (decls.get i) =
        aliasTarget (roundsEnv env decls depth) (decls.get i) := by
      cases depth with
      | zero =>
        obtain rfl : order = [] := List.length_eq_zero_iff.mp (by omega)
        rfl
      | succ depth =>
        have hshallower : resolvedEnv env decls order =
            registerAll (roundTarget env decls depth) (order.map decls.get) env :=
          ih hbeforeNodup hbefore (by omega)
        rw [hshallower]
        exact aliasTarget_registered hnodup hbeforeNodup hdeps depth
    rw [resolvedEnv_concat, htarget, hrun, List.map_append, registerAll, registerAll,
      List.foldl_append]
    rfl

end Order

/-! ### Meanings -/

/-- Between declarations: no parameter is in scope, and no alias stands for one. -/
structure TypeEnv.TopLevel (env : TypeEnv) : Prop extends env.WellScoped where
  genericParams : env.genericParams = []
  aliases : ∀ binding ∈ env.aliases, binding.type.Within 0

/-- The types of parameters inside their declaration. -/
def paramPlaceholders (firstIndex : ℕ) (params : List Token) : List Ty :=
  (declaredParams firstIndex params).map TypeEnvBinding.type

theorem paramPlaceholders_cons (firstIndex : ℕ) (param : Token) (params : List Token) :
    paramPlaceholders firstIndex (param :: params) =
      .genericParam firstIndex (some param.text) :: paramPlaceholders (firstIndex + 1) params := rfl

theorem paramPlaceholders_within (firstIndex : ℕ) (params : List Token) :
    ∀ type ∈ paramPlaceholders firstIndex params, type.Within (firstIndex + params.length) := by
  induction params generalizing firstIndex with
  | nil => simp [paramPlaceholders, declaredParams]
  | cons param params ih =>
    rw [paramPlaceholders_cons, List.length_cons]
    intro type htype
    rcases List.mem_cons.mp htype with rfl | htype
    · simp only [Ty.Within]
      omega
    · have hrest := ih (firstIndex + 1) type htype
      exact hrest.mono (by omega)

theorem paramPlaceholders_filled (before args : List Ty) (params : List Token)
    (hlength : args.length = params.length) :
    (paramPlaceholders before.length params).map (Ty.filled (before ++ args)) = args := by
  induction params generalizing before args with
  | nil =>
    rw [List.length_eq_zero_iff.mp hlength]
    rfl
  | cons param params ih =>
    cases args with
    | nil => cases hlength
    | cons arg args =>
      have hrest := ih (before ++ [arg]) args (by simpa using hlength)
      rw [List.append_assoc, List.length_append, List.length_singleton] at hrest
      rw [paramPlaceholders_cons, List.map_cons, Ty.filled]
      have harg : (before ++ arg :: args).getD before.length
          (.genericParam before.length (some param.text)) = arg := by
        simp
      rw [harg]
      congr 1

theorem knownType_lookup (array rest : List TypeEnvBinding) (name : Bytes)
    (hknown : ∀ binding ∈ array, binding.type.isUnknown = false) :
    knownType (bindingArrayLookup (array ++ rest) name) =
      ((array.map fun binding => (binding.name, binding.type)).lookup name).or
        (knownType (bindingArrayLookup rest name)) := by
  induction array with
  | nil => rfl
  | cons binding array ih =>
    have hrest := ih fun b hb => hknown b (List.mem_cons_of_mem _ hb)
    unfold bindingArrayLookup at hrest ⊢
    rw [List.cons_append, List.find?_cons, List.map_cons, List.lookup_cons, Bool.beq_comm]
    cases hname : name == binding.name with
    | true => exact knownType_of_known (hknown binding List.mem_cons_self)
    | false => exact hrest

theorem declaredParams_known (firstIndex : ℕ) (params : List Token) :
    ∀ binding ∈ declaredParams firstIndex params, binding.type.isUnknown = false := by
  induction params generalizing firstIndex with
  | nil => simp [declaredParams]
  | cons param params ih =>
    intro binding hbinding
    rcases List.mem_cons.mp hbinding with rfl | hbinding
    · rfl
    · exact ih (firstIndex + 1) binding hbinding

theorem declaredParams_entries (firstIndex : ℕ) (params : List Token) :
    (declaredParams firstIndex params).map (fun binding => (binding.name, binding.type)) =
      (params.map Token.text).zip (paramPlaceholders firstIndex params) := by
  induction params generalizing firstIndex with
  | nil => rfl
  | cons param params ih =>
    rw [declaredParams, List.map_cons, ih, List.map_cons, paramPlaceholders_cons, List.zip_cons_cons]

theorem typchkEnterGenericParams_names (env : TypeEnv) (params : List Token) :
    (typchkEnterGenericParams env params 0).names = env.names.bind params (paramPlaceholders 0 params) := by
  unfold typchkEnterGenericParams TypeEnv.names Names.bind
  congr 1
  funext name
  dsimp only
  rw [knownType_lookup _ _ _ fun binding hbinding =>
    declaredParams_known 0 params binding (List.mem_reverse.mp hbinding),
    List.map_reverse, declaredParams_entries]

theorem knownType_resolvedType {node : TypeNode} :
    knownType (resolvedType (typchkResolveType env node)) = (typchkResolveType env node).toOption := by
  cases hresolved : typchkResolveType env node with
  | error error => rfl
  | ok type => exact knownType_of_known (typchkResolveType_known hresolved)

theorem aliasTarget_meaning (henv : env.WellScoped) (decl : TypeAliasNode) :
    knownType (resolvedType (aliasTarget env decl)) =
      targetMeaning env.names decl (paramPlaceholders 0 decl.genericParams) := by
  have hscoped : (typchkEnterGenericParams env decl.genericParams 0).WellScoped :=
    ⟨henv.noImplTarget, henv.noImplSelf, henv.genericAliases⟩
  rw [aliasTarget, knownType_resolvedType, typchkResolveType_meaning hscoped, targetMeaning,
    typchkEnterGenericParams_names]

theorem eq_of_knownType {type known : Ty} (h : knownType type = some known) : type = known := by
  unfold knownType at h
  split at h
  · cases h
  · exact Option.some.inj h

theorem lookupAlias_within (henv : env.TopLevel) (name : Bytes) :
    (bindingArrayLookup env.aliases name).Within 0 := by
  unfold bindingArrayLookup
  cases hlookup : env.aliases.find? fun binding => binding.name == name with
  | none => exact Ty.within_unknown 0
  | some binding => exact henv.aliases binding (List.mem_of_find?_eq_some hlookup)

theorem TypeEnv.TopLevel.closed (henv : env.TopLevel) : env.names.Closed where
  param name type h := by
    unfold TypeEnv.names at h
    rw [henv.genericParams] at h
    cases h
  alias_ name type h := by
    rw [← eq_of_knownType h]
    exact lookupAlias_within henv name
  genericAlias name args type h count hargs := by
    obtain ⟨genericAlias, hlookup, happlied⟩ := Option.bind_eq_some_iff.mp h
    split at happlied
    · next hlength =>
      obtain ⟨target, htarget, rfl⟩ := Option.map_eq_some_iff.mp happlied
      have hwithin : target.Within args.length := by
        rw [← eq_of_knownType htarget, hlength]
        exact henv.genericAliases genericAlias (List.mem_of_find?_eq_some hlookup)
      exact hwithin.filled hargs
    · cases happlied
  filled name args args' := by
    unfold TypeEnv.names
    dsimp only
    rw [List.length_map]
    cases hlookup : env.genericAliases.find? fun genericAlias => genericAlias.name == name with
    | none => rfl
    | some genericAlias =>
      rw [Option.bind_some, Option.bind_some]
      by_cases hlength : args.length = genericAlias.paramCount
      · -- a target without other parameters may have its arguments filled before or after
        have hwithin : genericAlias.target.Within args.length := by
          rw [hlength]
          exact henv.genericAliases genericAlias (List.mem_of_find?_eq_some hlookup)
        have hfilled := Ty.filled_filled args' hwithin
        rw [if_pos hlength, if_pos hlength, knownType]
        split
        · rfl
        · rw [Option.map_some, Option.map_some, Option.map_some, hfilled]
      · rw [if_neg hlength, if_neg hlength]
        rfl

theorem aliasTarget_within (henv : env.TopLevel) (hwritten : LengthsWritten decl.target) :
    (resolvedType (aliasTarget env decl)).Within decl.genericParams.length := by
  have hmeaning := aliasTarget_meaning henv.toWellScoped decl
  cases hunknown : (resolvedType (aliasTarget env decl)).isUnknown with
  | true =>
    rw [Ty.eq_unknown hunknown]
    exact Ty.within_unknown _
  | false =>
    rw [knownType_of_known hunknown] at hmeaning
    have hparams := paramPlaceholders_within 0 decl.genericParams
    rw [Nat.zero_add] at hparams
    exact meaning_within henv.closed decl.genericParams hparams decl.target hwritten hmeaning.symm

theorem registerTarget_topLevel (henv : env.TopLevel) {type : Ty}
    (htype : type.Within decl.genericParams.length) : (registerTarget env decl type).TopLevel := by
  unfold registerTarget
  split
  · exact
      { noImplTarget := henv.noImplTarget
        noImplSelf := henv.noImplSelf
        genericAliases := List.forall_mem_cons.mpr ⟨htype, henv.genericAliases⟩
        genericParams := henv.genericParams
        aliases := henv.aliases }
  · next hparams =>
    split
    · rw [Nat.eq_zero_of_not_pos hparams] at htype
      exact
        { noImplTarget := henv.noImplTarget
          noImplSelf := henv.noImplSelf
          genericAliases := henv.genericAliases
          genericParams := henv.genericParams
          aliases := List.forall_mem_cons.mpr ⟨htype, henv.aliases⟩ }
    · exact henv

theorem lookupAlias_registerTarget (type : Ty) :
    knownType (typchkTypeEnvLookupAlias (registerTarget env decl type) decl.name.text) =
      if decl.genericParams = [] then
        (knownType type).or (knownType (typchkTypeEnvLookupAlias env decl.name.text))
      else knownType (typchkTypeEnvLookupAlias env decl.name.text) := by
  unfold registerTarget
  by_cases hparams : decl.genericParams = []
  · rw [if_pos hparams, if_neg (by simp [hparams])]
    cases hunknown : type.isUnknown with
    | true => simp [knownType_of_unknown hunknown]
    | false =>
      rw [knownType_of_known hunknown, Option.some_or]
      simp [typchkTypeEnvLookupAlias, typchkTypeEnvRegisterAlias, bindingArrayLookup,
        bindingArrayWrite, knownType_of_known hunknown]
  · rw [if_neg hparams, if_pos (List.length_pos_iff.mpr hparams)]
    rfl

theorem genericAliasLookup_registerTarget (type : Ty) :
    genericAliasLookup (registerTarget env decl type) decl.name.text =
      if decl.genericParams = [] then genericAliasLookup env decl.name.text
      else some ⟨decl.name.text, decl.genericParams.length, type⟩ := by
  unfold registerTarget
  by_cases hparams : decl.genericParams = []
  · rw [if_pos hparams, if_neg (by simp [hparams])]
    split <;> rfl
  · rw [if_neg hparams, if_pos (List.length_pos_iff.mpr hparams)]
    simp [genericAliasLookup, typchkRegisterGenericAlias]

/-- Aliases that are registered with the meanings of their targets stand for these. -/
theorem names_registerAll (hnodup : (decls.map fun decl => decl.name.text).Nodup)
    {standsFor : TypeAliasNode → List Ty → Option Ty}
    (hplain : ∀ decl ∈ decls, decl.genericParams = [] →
      knownType (target decl) = standsFor decl [])
    (hgeneric : ∀ decl ∈ decls, ∀ args, args.length = decl.genericParams.length →
      (knownType (target decl)).map (Ty.filled args) = standsFor decl args) :
    (registerAll target decls env).names = env.names.declare decls standsFor := by
  have hsame := registerAll_sameBesidesAliases target decls env
  have hdeclared : ∀ {name decl}, (decls.find? fun decl => decl.name.text == name) = some decl →
      decl ∈ decls ∧ decl.name.text = name ∧
        SameAlias (registerAll target decls env) (registerTarget env decl (target decl)) name := by
    intro name decl hfind
    obtain rfl : decl.name.text = name := by simpa using List.find?_some hfind
    have hdecl := List.mem_of_find?_eq_some hfind
    exact ⟨hdecl, rfl, registerAll_mem hnodup hdecl⟩
  have hother : ∀ {name}, (decls.find? fun decl => decl.name.text == name) = none →
      SameAlias (registerAll target decls env) env name := by
    intro name hfind
    exact registerAll_other fun decl hdecl => by simpa using List.find?_eq_none.mp hfind decl hdecl
  apply Names.ext
  · funext name
    exact congrArg (fun params => knownType (bindingArrayLookup params name)) hsame.genericParams
  · funext name
    show Option.map _ (List.find? _ (registerAll target decls env).structs) = _
    rw [hsame.structs]
    rfl
  · funext name
    show knownType (typchkTypeEnvLookupAlias (registerAll target decls env) name) = _
    unfold Names.declare
    dsimp only
    cases hfind : decls.find? fun decl => decl.name.text == name with
    | none =>
      rw [(hother hfind).1]
      rfl
    | some decl =>
      obtain ⟨hdecl, rfl, halias⟩ := hdeclared hfind
      dsimp only
      rw [halias.1, lookupAlias_registerTarget]
      split
      · next hparams =>
        rw [hplain decl hdecl hparams]
        rfl
      · rfl
  · funext name args
    show (genericAliasLookup (registerAll target decls env) name).bind _ = _
    unfold Names.declare
    dsimp only
    cases hfind : decls.find? fun decl => decl.name.text == name with
    | none =>
      rw [(hother hfind).2]
      rfl
    | some decl =>
      obtain ⟨hdecl, rfl, halias⟩ := hdeclared hfind
      dsimp only
      rw [halias.2, genericAliasLookup_registerTarget]
      split
      · rfl
      · rw [Option.bind_some]
        split
        · next hlength => rw [hgeneric decl hdecl args hlength]
        · rfl

theorem registerAll_topLevel (henv : env.TopLevel)
    (htarget : ∀ decl ∈ decls, (target decl).Within decl.genericParams.length) :
    (registerAll target decls env).TopLevel := by
  induction decls generalizing env with
  | nil => exact henv
  | cons decl decls ih =>
    have hfirst := registerTarget_topLevel henv (htarget decl List.mem_cons_self)
    exact ih hfirst fun d hd => htarget d (List.mem_cons_of_mem _ hd)

theorem roundsEnv_topLevel (henv : env.TopLevel)
    (hwritten : ∀ decl ∈ decls, LengthsWritten decl.target) (rounds : ℕ) :
    (roundsEnv env decls rounds).TopLevel := by
  induction rounds with
  | zero => exact henv
  | succ rounds ih =>
    exact registerAll_topLevel henv fun decl hdecl => aliasTarget_within ih (hwritten decl hdecl)

/-- After a number of rounds, names stand for what they do when aliases are expanded as deep. -/
theorem roundsEnv_names (henv : env.TopLevel)
    (hwritten : ∀ decl ∈ decls, LengthsWritten decl.target)
    (hnodup : (decls.map fun decl => decl.name.text).Nodup) (rounds : ℕ) :
    (roundsEnv env decls rounds).names = env.names.expanded decls rounds := by
  induction rounds with
  | zero => rfl
  | succ rounds ih =>
    have hbefore := roundsEnv_topLevel henv hwritten rounds
    rw [roundsEnv, Names.expanded]
    apply names_registerAll hnodup
    · intro decl hdecl hparams
      rw [aliasTarget_meaning hbefore.toWellScoped, hparams, ih]
      rfl
    intro decl hdecl args hlength
    -- the target is resolved once, at placeholders, and means what it does at the arguments
    have hfilled : (paramPlaceholders 0 decl.genericParams).map (Ty.filled args) = args :=
      paramPlaceholders_filled [] args decl.genericParams hlength
    rw [aliasTarget_meaning hbefore.toWellScoped, targetMeaning, targetMeaning, ← ih,
      ← meaning_filled hbefore.closed, hfilled]

end KirbyLang
