import KirbyLang.AliasExpansion

/-!
# Circular aliases

A name in the target of an alias that is one of the alias's own parameters is no reference, since
the parameter hides the alias of that name (`typchkResolveType`). The search for circular aliases
follows it all the same.

* `RefersTo`, `DependsOn`: the references, and what the search follows;
* `Expanded`: aliases stand for their full expansions wherever they are used;
* `aliasesResolved_iff`: a circularity is reported exactly if references have a cycle, and otherwise
  aliases stand for their full expansions in any order, exactly if there is no cycle but of
  references.
-/

namespace KirbyLang

open Relation

/-! ### References -/

/-- An alias is named in the target of another, or in its own. -/
def DependsOn (decls : List TypeAliasNode) (decl decl' : TypeAliasNode) : Prop :=
  decl ∈ decls ∧ decl' ∈ decls ∧ ∃ name ∈ typeNames decl.target, name.text = decl'.name.text

/-- The same for names that are none of the alias's own parameters. -/
def RefersTo (decls : List TypeAliasNode) (decl decl' : TypeAliasNode) : Prop :=
  decl ∈ decls ∧ decl' ∈ decls ∧ ∃ name ∈ typeNames decl.target, name.text = decl'.name.text ∧
    ∀ param ∈ decl.genericParams, param.text ≠ name.text

def Circular (references : TypeAliasNode → TypeAliasNode → Prop) : Prop :=
  ∃ decl, TransGen references decl decl

variable {env env' : TypeEnv} {decls decls' : List TypeAliasNode} {decl decl' : TypeAliasNode}

theorem RefersTo.dependsOn (h : RefersTo decls decl decl') : DependsOn decls decl decl' := by
  obtain ⟨hdecl, hdecl', name, hname, htext, -⟩ := h
  exact ⟨hdecl, hdecl', name, hname, htext⟩

theorem Circular.dependsOn (h : Circular (RefersTo decls)) : Circular (DependsOn decls) := by
  obtain ⟨decl, hcycle⟩ := h
  have hle : RefersTo decls ≤ DependsOn decls := fun _ _ hrefers => RefersTo.dependsOn hrefers
  exact ⟨decl, TransGen.mono hle decl decl hcycle⟩

theorem dependsOn_perm (hperm : decls'.Perm decls) : DependsOn decls' = DependsOn decls := by
  funext decl decl'
  simp only [DependsOn, hperm.mem_iff]

section Edges

variable (hnodup : (decls.map fun decl => decl.name.text).Nodup)

include hnodup

theorem edge_iff_dependsOn (i j : Fin decls.length) :
    DepthFirst.Edge (dependencies decls) i j ↔ DependsOn decls (decls.get i) (decls.get j) := by
  unfold DepthFirst.Edge dependencies
  rw [List.mem_filterMap]
  constructor
  · rintro ⟨name, hname, hindex⟩
    exact ⟨decls.get_mem i, decls.get_mem j, name, hname, (name_of_aliasIndex hindex).symm⟩
  · rintro ⟨-, -, name, hname, htext⟩
    exact ⟨name, hname, aliasIndex_of_name hnodup htext.symm⟩

theorem path_of_dependsOn {i : Fin decls.length}
    (h : TransGen (DependsOn decls) (decls.get i) decl) :
    ∃ j, decls.get j = decl ∧ TransGen (DepthFirst.Edge (dependencies decls)) i j := by
  induction h with
  | single hedge =>
    obtain ⟨j, rfl⟩ := List.mem_iff_get.mp hedge.2.1
    exact ⟨j, rfl, .single ((edge_iff_dependsOn hnodup i j).mpr hedge)⟩
  | tail _ hedge ih =>
    obtain ⟨j, rfl, hpath⟩ := ih
    obtain ⟨k, rfl⟩ := List.mem_iff_get.mp hedge.2.1
    exact ⟨k, rfl, hpath.tail ((edge_iff_dependsOn hnodup j k).mpr hedge)⟩

theorem exists_cycle_iff :
    (∃ i, TransGen (DepthFirst.Edge (dependencies decls)) i i) ↔ Circular (DependsOn decls) := by
  constructor
  · rintro ⟨i, hcycle⟩
    exact ⟨decls.get i, hcycle.lift decls.get fun i j => (edge_iff_dependsOn hnodup i j).mp⟩
  · rintro ⟨decl, hcycle⟩
    obtain ⟨first, hedge, -⟩ := TransGen.head'_iff.mp hcycle
    obtain ⟨i, rfl⟩ := List.mem_iff_get.mp hedge.1
    obtain ⟨j, hj, hpath⟩ := path_of_dependsOn hnodup hcycle
    obtain rfl : j = i := index_injective hnodup (by rw [hj])
    exact ⟨j, hpath⟩

end Edges

/-! ### Resolution -/

/-- What the name of an alias stands for: a type, or what the checker makes of its type arguments. -/
def StandsFor (env : TypeEnv) (decl : TypeAliasNode) (expansion : List Ty → Option Ty) : Prop :=
  if decl.genericParams = [] then
    ∀ type, expansion [] = some type → typchkTypeEnvLookupAlias env decl.name.text = type
  else
    ∃ genericAlias, genericAliasLookup env decl.name.text = some genericAlias ∧
      ∀ args : List Ty, (∀ arg ∈ args, arg.isUnknown = false) →
        (typchkInstantiateGenericAlias decl.name args.length (.ok args) genericAlias).toOption =
          if args.length = decl.genericParams.length then expansion args else none

/-- Aliases are resolved to their full expansions: deeper expansion changes nothing, each name stands
for the expansion of its alias, and wherever a type expression is resolved afterwards, with any
parameters in scope, it has the meaning that these give it. -/
structure Expanded (env : TypeEnv) (decls : List TypeAliasNode) (resolved : TypeEnv) : Prop where
  deeper : ∀ depth ≥ decls.length,
    env.names.expanded decls depth = env.names.expanded decls decls.length
  standsFor : ∀ decl ∈ decls, StandsFor resolved decl (fullExpansion env.names decls decl)
  everywhere : ∀ params node,
    (typchkResolveType { resolved with genericParams := params } node).toOption =
      meaning { env.names.expanded decls decls.length with
        param := fun name => knownType (bindingArrayLookup params name) } node

/-- What resolution should come to. -/
structure AliasesResolved (env : TypeEnv) (decls : List TypeAliasNode) (s : AliasState decls) :
    Prop where
  circular : circularityErrors decls s ≠ [] ↔ Circular (RefersTo decls)
  expanded : ¬ Circular (RefersTo decls) → Expanded env decls s.payload.env
  anyOrder : ¬ Circular (RefersTo decls) → ∀ decls', decls'.Perm decls →
    ∃ s', (∀ fuel > decls'.length, typchkResolveAliases decls' fuel env = some s') ∧
      circularityErrors decls' s' = [] ∧ ∀ name, SameAlias s'.payload.env s.payload.env name

theorem names_congr (h : SameBesidesAliases env env') (halias : ∀ name, SameAlias env env' name) :
    env.names = env'.names := by
  apply Names.ext
  · funext name
    exact congrArg (fun params => knownType (bindingArrayLookup params name)) h.genericParams
  · funext name
    show Option.map _ (List.find? _ env.structs) = _
    rw [h.structs]
    rfl
  · funext name
    exact congrArg knownType (halias name).1
  · funext name args
    exact congrArg (fun genericAlias => Option.bind genericAlias _) (halias name).2

theorem expanded_nil (names : Names) (depth : ℕ) : names.expanded [] depth = names := by
  cases depth with
  | zero => rfl
  | succ depth => rfl

theorem find?_name (hnodup : (decls.map fun decl => decl.name.text).Nodup) (hdecl : decl ∈ decls) :
    (decls.find? fun d => d.name.text == decl.name.text) = some decl := by
  cases hfind : decls.find? fun d => d.name.text == decl.name.text with
  | none => simpa using List.find?_eq_none.mp hfind decl hdecl
  | some found =>
    have hname : found.name.text = decl.name.text := by simpa using List.find?_some hfind
    rw [List.inj_on_of_nodup_map hnodup (List.mem_of_find?_eq_some hfind) hdecl hname]

section Resolution

variable (hnodup : (decls.map fun decl => decl.name.text).Nodup)

include hnodup

/-- Resolution ends. It reports a circularity exactly if what the search follows has a cycle, and
otherwise resolves each alias after all it depends on. -/
theorem typchkResolveAliases_spec (env : TypeEnv) :
    ∃ s, (∀ fuel > decls.length, typchkResolveAliases decls fuel env = some s) ∧
      (circularityErrors decls s ≠ [] ↔ Circular (DependsOn decls)) ∧
      (¬ Circular (DependsOn decls) → ∃ order, order.Perm (List.finRange decls.length) ∧
        DepthFirst.Topological (dependencies decls) order ∧
        s.payload.env = resolvedEnv env decls order) := by
  obtain ⟨s, hrun, hcycles, horder⟩ := @DepthFirst.visitAll_spec (Fin decls.length) Checked _
    (dependencies decls) (fun i => resolveTarget (decls.get i)) (List.finRange decls.length)
    (fun _ b _ => List.mem_finRange b) (fun a _ => List.mem_finRange a)
    (List.nodup_finRange decls.length) ⟨env, []⟩
  have hreported : circularityErrors decls s ≠ [] ↔ Circular (DependsOn decls) := by
    rw [← exists_cycle_iff hnodup, ← hcycles, circularityErrors, ne_eq, List.map_eq_nil_iff]
  refine ⟨s, fun fuel hfuel => ?_, hreported, fun hacyclic => ?_⟩
  · rw [typchkResolveAliases_eq]
    exact hrun fuel (by rwa [List.length_finRange])
  · have hnone : s.cycles = [] := by
      by_contra hcycle
      exact hacyclic ((exists_cycle_iff hnodup).mp (hcycles.mp hcycle))
    obtain ⟨order, hperm, htopological, hpayload⟩ := horder hnone
    exact ⟨order, hperm, htopological, by rw [hpayload, resolvedEnv]⟩

variable {order : List (Fin decls.length)} (hperm : order.Perm (List.finRange decls.length))
  (htopological : DepthFirst.Topological (dependencies decls) order)

include hperm htopological

theorem resolvedEnv_all {depth : ℕ} (hdepth : decls.length ≤ depth + 1) :
    ∃ decls' : List TypeAliasNode, decls'.Perm decls ∧
      resolvedEnv env decls order = registerAll (roundTarget env decls depth) decls' env := by
  have horder : order.Nodup := hperm.nodup_iff.mpr (List.nodup_finRange _)
  have hlength : order.length = decls.length := by rw [hperm.length_eq, List.length_finRange]
  refine ⟨order.map decls.get, ?_, resolvedEnv_eq hnodup horder htopological (by omega)⟩
  have hmap := hperm.map decls.get
  rwa [List.map_get_finRange] at hmap

/-- Aliases stand for their expansions to any depth that is at least their number. -/
theorem resolvedEnv_sameAlias {depth : ℕ} (hdepth : decls.length ≤ depth + 1) (name : Bytes) :
    SameAlias (resolvedEnv env decls order) (roundsEnv env decls (depth + 1)) name := by
  obtain ⟨decls', hdecls', heq⟩ := resolvedEnv_all hnodup hperm htopological hdepth
  rw [heq]
  exact registerAll_perm hnodup hdecls' name

variable (henv : env.TopLevel) (hwritten : ∀ decl ∈ decls, LengthsWritten decl.target)

include henv hwritten

theorem resolvedEnv_topLevel : (resolvedEnv env decls order).TopLevel := by
  obtain ⟨decls', hdecls', heq⟩ :=
    @resolvedEnv_all env _ hnodup _ hperm htopological _ (Nat.le_succ decls.length)
  rw [heq]
  refine registerAll_topLevel henv fun decl hdecl => ?_
  exact aliasTarget_within (roundsEnv_topLevel henv hwritten _)
    (hwritten decl (hdecls'.mem_iff.mp hdecl))

theorem resolvedEnv_names {depth : ℕ} (hdepth : decls.length ≤ depth) :
    (resolvedEnv env decls order).names = env.names.expanded decls depth := by
  cases decls with
  | nil =>
    have hnone : order = [] := List.perm_nil.mp hperm
    rw [hnone, expanded_nil]
    rfl
  | cons head rest =>
    obtain ⟨rounds, rfl⟩ : ∃ rounds, depth = rounds + 1 :=
      ⟨depth - 1, by rw [List.length_cons] at hdepth; omega⟩
    obtain ⟨decls', -, heq⟩ :=
      @resolvedEnv_all env _ hnodup _ hperm htopological _ (Nat.le_succ (head :: rest).length)
    have hsame : SameBesidesAliases (resolvedEnv env (head :: rest) order) env := by
      rw [heq]
      exact registerAll_sameBesidesAliases _ decls' env
    rw [← roundsEnv_names henv hwritten hnodup]
    exact names_congr (hsame.trans (roundsEnv_sameBesidesAliases env _ _).symm)
      (resolvedEnv_sameAlias hnodup hperm htopological hdepth)

theorem expanded_resolvedEnv : Expanded env decls (resolvedEnv env decls order) where
  deeper depth hdepth := by
    rw [← resolvedEnv_names hnodup hperm htopological henv hwritten hdepth]
    exact resolvedEnv_names hnodup hperm htopological henv hwritten le_rfl
  standsFor decl hdecl := by
    have hnames := resolvedEnv_names hnodup hperm htopological henv hwritten
      (Nat.le_succ decls.length)
    have hfind := find?_name hnodup hdecl
    unfold StandsFor
    split
    · next hparams =>
      intro type htype
      have halias : knownType
          (typchkTypeEnvLookupAlias (resolvedEnv env decls order) decl.name.text) = some type := by
        have hexpanded := congrArg (fun names => names.alias_ decl.name.text) hnames
        rw [Names.expanded, Names.declare] at hexpanded
        dsimp only at hexpanded
        rw [hfind] at hexpanded
        dsimp only at hexpanded
        rw [if_pos hparams, show targetMeaning _ decl [] = some type from htype,
          Option.some_or] at hexpanded
        exact hexpanded
      exact eq_of_knownType halias
    · next hparams =>
      obtain ⟨decls', hdecls', heq⟩ :=
        @resolvedEnv_all env _ hnodup _ hperm htopological _ (Nat.le_succ decls.length)
      have hnodup' : (decls'.map fun decl => decl.name.text).Nodup :=
        (hdecls'.map _).nodup_iff.mpr hnodup
      have hsame := @registerAll_mem env decl decls' (roundTarget env decls decls.length) hnodup'
        (hdecls'.mem_iff.mpr hdecl)
      have hlookup := hsame.2
      rw [← heq, genericAliasLookup_registerTarget, if_neg hparams] at hlookup
      refine ⟨_, hlookup, fun args hknown => ?_⟩
      have hscoped := (resolvedEnv_topLevel hnodup hperm htopological henv hwritten).toWellScoped
      have hargs : ∀ args', (Except.ok args : Except (Option TypeError) (List Ty)) = .ok args' →
          args'.length = args.length ∧ ∀ arg ∈ args', arg.isUnknown = false := by
        rintro args' ⟨⟩
        exact ⟨rfl, hknown⟩
      rw [typchkInstantiateGenericAlias_meaning hscoped hlookup hargs, toOption_ok,
        Option.bind_some, hnames, Names.expanded, Names.declare]
      dsimp only
      rw [hfind]
      dsimp only
      rw [if_neg hparams]
      rfl
  everywhere params node := by
    have hscoped := (resolvedEnv_topLevel hnodup hperm htopological henv hwritten).toWellScoped
    have hparams : TypeEnv.WellScoped { resolvedEnv env decls order with genericParams := params } :=
      ⟨hscoped.noImplTarget, hscoped.noImplSelf, hscoped.genericAliases⟩
    rw [typchkResolveType_meaning hparams,
      ← resolvedEnv_names hnodup hperm htopological henv hwritten le_rfl]
    rfl

end Resolution

/-- Whatever it reports, resolution leaves an environment in which the next program's aliases can be
resolved. -/
theorem typchkResolveAliases_topLevel {fuel : ℕ} {s : AliasState decls} (henv : env.TopLevel)
    (hwritten : ∀ decl ∈ decls, LengthsWritten decl.target)
    (hrun : typchkResolveAliases decls fuel env = some s) : s.payload.env.TopLevel := by
  rw [typchkResolveAliases_eq] at hrun
  have hfinish : ∀ (i : Fin decls.length) (t : AliasState decls), t.payload.env.TopLevel →
      (t.finish (fun i => resolveTarget (decls.get i)) i).payload.env.TopLevel := fun i t ht =>
    registerTarget_topLevel ht (aliasTarget_within ht (hwritten _ (decls.get_mem i)))
  exact DepthFirst.visitAll_keeps (P := fun t : AliasState decls => t.payload.env.TopLevel)
    (fun _ _ _ ht h => DepthFirst.visit_keeps (P := fun t : AliasState decls =>
      t.payload.env.TopLevel) (fun _ _ h => h) (fun _ _ h => h) hfinish ht h) henv hrun

/-- Resolution always ends, and reports a circularity exactly if references have a cycle, and
otherwise every alias stands for its full expansion in any order of the declarations, exactly if
there is a cycle of references whenever there is one at all. -/
theorem aliasesResolved_iff (env : TypeEnv) (decls : List TypeAliasNode) (henv : env.TopLevel)
    (hwritten : ∀ decl ∈ decls, LengthsWritten decl.target)
    (hnodup : (decls.map fun decl => decl.name.text).Nodup) :
    ∃ s, (∀ fuel > decls.length, typchkResolveAliases decls fuel env = some s) ∧
      (AliasesResolved env decls s ↔
        (Circular (DependsOn decls) → Circular (RefersTo decls))) := by
  obtain ⟨s, hrun, hreported, horder⟩ := typchkResolveAliases_spec hnodup env
  refine ⟨s, hrun, fun hresolved hcycle => hresolved.circular.mp (hreported.mpr hcycle),
    fun hcycles => ?_⟩
  have hacyclic : ¬ Circular (RefersTo decls) → ¬ Circular (DependsOn decls) := mt hcycles
  exact
    { circular := hreported.trans ⟨hcycles, Circular.dependsOn⟩
      expanded := fun hrefers => by
        obtain ⟨order, hperm, htopological, hresolved⟩ := horder (hacyclic hrefers)
        rw [hresolved]
        exact expanded_resolvedEnv hnodup hperm htopological henv hwritten
      anyOrder := fun hrefers decls' hdecls' => by
        have hnodup' : (decls'.map fun decl => decl.name.text).Nodup :=
          (hdecls'.map _).nodup_iff.mpr hnodup
        obtain ⟨s', hrun', hreported', horder'⟩ := typchkResolveAliases_spec hnodup' env
        rw [dependsOn_perm hdecls'] at hreported' horder'
        obtain ⟨order, hperm, htopological, hresolved⟩ := horder (hacyclic hrefers)
        obtain ⟨order', hperm', htopological', hresolved'⟩ := horder' (hacyclic hrefers)
        refine ⟨s', hrun', ?_, fun name => ?_⟩
        · by_contra hcircular
          exact hacyclic hrefers (hreported'.mp hcircular)
        · -- both stand for the same expansion
          rw [hresolved, hresolved']
          have hdepth : decls'.length ≤ decls.length + 1 := by
            rw [hdecls'.length_eq]
            omega
          have hfirst : SameAlias (resolvedEnv env decls' order')
              (roundsEnv env decls' (decls.length + 1)) name :=
            resolvedEnv_sameAlias hnodup' hperm' htopological' hdepth name
          have hsecond : SameAlias (resolvedEnv env decls order)
              (roundsEnv env decls (decls.length + 1)) name :=
            resolvedEnv_sameAlias hnodup hperm htopological (Nat.le_succ _) name
          exact (hfirst.trans (roundsEnv_perm hnodup hdecls' _ name)).trans hsecond.symm }

theorem topLevel_empty : ({} : TypeEnv).TopLevel where
  noImplTarget := rfl
  noImplSelf := rfl
  genericAliases := by simp
  genericParams := rfl
  aliases := by simp

/-- References that all lead from one name to another have no cycle. -/
theorem not_circular_of_names {references : TypeAliasNode → TypeAliasNode → Prop}
    {source target : Bytes} (hne : target ≠ source)
    (hnames : ∀ decl decl', references decl decl' →
      decl.name.text = source ∧ decl'.name.text = target) : ¬ Circular references := by
  rintro ⟨decl, hcycle⟩
  obtain ⟨next, hfirst, -⟩ := TransGen.head'_iff.mp hcycle
  obtain ⟨last, -, hlast⟩ := TransGen.tail'_iff.mp hcycle
  exact hne ((hnames _ _ hlast).2.symm.trans (hnames _ _ hfirst).1)

/-- `type A = B[i64]; type B[T] = [T];` -/
def forwardReference : List TypeAliasNode :=
  [⟨tokenFromCString "A", [],
      .named 1 (tokenFromCString "B") [.named 1 (tokenFromCString "i64") []]⟩,
    ⟨tokenFromCString "B", [tokenFromCString "T"],
      .list 2 (.named 2 (tokenFromCString "T") [])⟩]

theorem dependsOn_forwardReference (h : DependsOn forwardReference decl decl') :
    decl.name.text = ascii "A" ∧ decl'.name.text = ascii "B" := by
  obtain ⟨hdecl, hdecl', name, hname, htext⟩ := h
  have hnumber : ∀ d ∈ forwardReference, ascii "i64" ≠ d.name.text := by decide
  have hparam : ∀ d ∈ forwardReference, ascii "T" ≠ d.name.text := by decide
  rcases List.mem_cons.mp hdecl with rfl | hdecl
  · rcases List.mem_cons.mp hname with rfl | hname
    · exact absurd htext (hnumber decl' hdecl')
    · obtain rfl := List.mem_singleton.mp hname
      exact ⟨rfl, htext.symm⟩
  · obtain rfl := List.mem_singleton.mp hdecl
    obtain rfl := List.mem_singleton.mp hname
    exact absurd htext (hparam decl' hdecl')

/-- The second alias is filled in where the first uses it. -/
theorem aliasesResolved_iff_forward :
    ∃ s, typchkResolveAliases forwardReference 3 {} = some s ∧
      AliasesResolved {} forwardReference s ∧
      typchkTypeEnvLookupAlias s.payload.env (ascii "A") = .list (.number .i64) := by
  have hwritten : ∀ decl ∈ forwardReference, LengthsWritten decl.target := by
    simp [forwardReference, LengthsWritten, AllLengthsWritten]
  have hacyclic : ¬ Circular (DependsOn forwardReference) :=
    not_circular_of_names (by decide) fun _ _ h => dependsOn_forwardReference h
  obtain ⟨s, hrun, hiff⟩ :=
    aliasesResolved_iff {} forwardReference topLevel_empty hwritten (by decide)
  have hresolved := hiff.mpr fun hcycle => absurd hcycle hacyclic
  have hexpanded := hresolved.expanded fun hcycle => hacyclic hcycle.dependsOn
  refine ⟨s, hrun 3 (by decide), hresolved, ?_⟩
  exact hexpanded.standsFor _ List.mem_cons_self (.list (.number .i64)) rfl

/-- `type A[T] = T; type T = A[i64];`, in which `A` refers to nothing. -/
def parameterNamedLikeAlias : List TypeAliasNode :=
  [⟨tokenFromCString "A", [tokenFromCString "T"], .named 1 (tokenFromCString "T") []⟩,
    ⟨tokenFromCString "T", [], .named 2 (tokenFromCString "A")
      [.named 2 (tokenFromCString "i64") []]⟩]

theorem refersTo_parameterNamedLikeAlias (h : RefersTo parameterNamedLikeAlias decl decl') :
    decl.name.text = ascii "T" ∧ decl'.name.text = ascii "A" := by
  obtain ⟨hdecl, hdecl', name, hname, htext, hparam⟩ := h
  rcases List.mem_cons.mp hdecl with rfl | hdecl
  · -- the only name is the parameter
    obtain rfl := List.mem_singleton.mp hname
    exact absurd rfl (hparam _ List.mem_cons_self)
  · obtain rfl := List.mem_singleton.mp hdecl
    refine ⟨rfl, ?_⟩
    rcases List.mem_cons.mp hname with rfl | hname
    · -- no alias is named like the number type
      have hnone : ∀ d ∈ parameterNamedLikeAlias, ascii "i64" ≠ d.name.text := by decide
      exact absurd htext (hnone decl' hdecl')
    · obtain rfl := List.mem_singleton.mp hname
      exact htext.symm

/-- No alias refers to itself, and a circularity is reported. -/
theorem false_circularity :
    ∃ s, (∀ fuel > 2, typchkResolveAliases parameterNamedLikeAlias fuel {} = some s) ∧
      (circularityErrors _ s).map TypeError.message = [ascii "Type alias 'A' is circular."] ∧
      ¬ Circular (RefersTo parameterNamedLikeAlias) ∧
      ¬ AliasesResolved {} parameterNamedLikeAlias s := by
  obtain ⟨s, hrun⟩ : ∃ s, typchkResolveAliases parameterNamedLikeAlias 3 {} = some s := ⟨_, rfl⟩
  have hreported : (circularityErrors _ s).map TypeError.message =
      [ascii "Type alias 'A' is circular."] := by
    cases hrun
    rfl
  have hacyclic : ¬ Circular (RefersTo parameterNamedLikeAlias) :=
    not_circular_of_names (by decide) fun _ _ h => refersTo_parameterNamedLikeAlias h
  refine ⟨s, fun fuel hfuel => ?_, hreported, hacyclic, fun hresolved => ?_⟩
  · rw [typchkResolveAliases_eq] at hrun ⊢
    exact DepthFirst.visitAll_of_le hfuel hrun
  · apply hacyclic
    apply hresolved.circular.mp
    intro hnone
    rw [hnone] at hreported
    cases hreported

end KirbyLang
