import KirbyLang.Lib.Chains
import KirbyLang.TypeResolution

/-!
# Supertraits

The traits that the checker knows (`typecheck.c`), each with at most one supertrait. They are named
by their links, so a program can declare them in any order, and in a circle.

* `registerTrait`, `resolveSupertrait`: a declaration becomes a trait, then gets its supertrait;
* `typchkTraitSupertraitChainCycles`: the walk along the supertraits of a trait;
* `supertraitCycles_iff`: it ends, and finds a cycle exactly where the supertraits never end.
-/

namespace KirbyLang

open Chains

/-- What the type of a trait says about its supertrait. -/
structure TraitType where
  name : Bytes
  supertraitName : Option Bytes := none
  isBuiltin : Bool := false
  deriving DecidableEq, Repr

/-- A trait declaration, as far as its supertrait goes. -/
structure TraitNode where
  name : Token
  supertrait : Option Token := none

/-- The latest trait of a name. -/
def typchkTypeEnvLookupTrait (traits : List TraitType) (name : Bytes) : Option TraitType :=
  traits.find? fun traitType => traitType.name == name

/-- `typchkTypeEnvDefineBuiltinTraits` -/
def builtinTraits : List TraitType :=
  [{ name := ascii "Default", isBuiltin := true },
    { name := ascii "Ord", supertraitName := some (ascii "Eq"), isBuiltin := true },
    { name := ascii "Eq", isBuiltin := true },
    { name := ascii "Display", isBuiltin := true }]

/-- A declared trait is registered, unless its name is taken. -/
def registerTrait (traits : List TraitType) (node : TraitNode) :
    List TraitType × Option TypeError :=
  match typchkTypeEnvLookupTrait traits node.name.text with
  | some existing =>
    if existing.isBuiltin then
      (traits, some ⟨node.name, quoted node.name ++
        ascii " is a builtin trait and can't be redeclared."⟩)
    else
      (traits, some ⟨node.name, quoted node.name ++ ascii " is already declared as a trait."⟩)
  | none => ({ name := node.name.text } :: traits, none)

/-- The traits of a program, with the declarations that got one. -/
def registerTraits (traits : List TraitType) :
    List TraitNode → List TraitType × List TraitNode × List TypeError
  | [] => (traits, [], [])
  | node :: program =>
    match registerTrait traits node with
    | (traits, none) =>
      let (traits, registered, errors) := registerTraits traits program
      (traits, node :: registered, errors)
    | (traits, some error) =>
      let (traits, registered, errors) := registerTraits traits program
      (traits, registered, error :: errors)

/-- `typeTraitSetSupertrait` on the latest trait of a name. -/
def typeTraitSetSupertrait (name supertraitName : Bytes) : List TraitType → List TraitType
  | [] => []
  | traitType :: traits =>
    if traitType.name == name then
      { traitType with supertraitName := some supertraitName } :: traits
    else traitType :: typeTraitSetSupertrait name supertraitName traits

/-- The supertrait in `typchkResolveTraitMethods`. -/
def resolveSupertrait (traits : List TraitType) (node : TraitNode) :
    List TraitType × Option TypeError :=
  match typchkTypeEnvLookupTrait traits node.name.text, node.supertrait with
  | some _, some supertrait =>
    match typchkTypeEnvLookupTrait traits supertrait.text with
    | none => (traits, some ⟨supertrait, ascii "Unknown trait " ++ quoted supertrait ++ ascii "."⟩)
    | some supertraitType =>
      (typeTraitSetSupertrait node.name.text supertraitType.name traits, none)
  | _, _ => (traits, none)

def resolveSupertraits (traits : List TraitType) : List TraitNode → List TraitType × List TypeError
  | [] => (traits, [])
  | node :: nodes =>
    let (traits, error) := resolveSupertrait traits node
    let (traits, errors) := resolveSupertraits traits nodes
    (traits, error.toList ++ errors)

/-- The loop of `typchkTraitSupertraitChainCycles`, with the steps that are left. -/
def supertraitWalk (traits : List TraitType) (startName : Bytes) : ℕ → Bytes → Bool
  | 0, _ => true
  | steps + 1, current =>
    match typchkTypeEnvLookupTrait traits current with
    | none => false
    | some currentTrait =>
      match currentTrait.supertraitName with
      | none => false
      | some next => if next == startName then true else supertraitWalk traits startName steps next

/-- Walks the supertrait chain to identify circular references. -/
def typchkTraitSupertraitChainCycles (traits : List TraitType) (startName : Bytes) : Bool :=
  supertraitWalk traits startName (traits.length + 1) startName

def circularSupertrait (name : Token) : TypeError :=
  ⟨name, ascii "Trait " ++ quoted name ++ ascii " has a circular supertrait chain."⟩

def typchkCheckTraitSupertraitCycle (traits : List TraitType) (node : TraitNode) :
    Option TypeError :=
  match node.supertrait, typchkTypeEnvLookupTrait traits node.name.text with
  | some _, some traitType =>
    if traitType.supertraitName.isSome && typchkTraitSupertraitChainCycles traits traitType.name then
      some (circularSupertrait node.name)
    else none
  | _, _ => none

/-! ### The links -/

/-- The supertrait of a trait, by their names. -/
def supertraitOf (traits : List TraitType) (name : Bytes) : Option Bytes :=
  (typchkTypeEnvLookupTrait traits name).bind TraitType.supertraitName

variable {traits : List TraitType} {name startName : Bytes}

/-- Names with a supertrait are names of traits. -/
theorem mem_names_of_supertraitOf (h : (supertraitOf traits name).isSome) :
    name ∈ (traits.map TraitType.name).toFinset := by
  unfold supertraitOf typchkTypeEnvLookupTrait at h
  cases hfind : traits.find? fun traitType => traitType.name == name with
  | none =>
    rw [hfind] at h
    cases h
  | some traitType =>
    have hname : traitType.name = name := by simpa using List.find?_some hfind
    rw [List.mem_toFinset, List.mem_map]
    exact ⟨traitType, List.mem_of_find?_eq_some hfind, hname⟩

/-- One step of the walk follows a link. -/
theorem supertraitWalk_succ (steps : ℕ) :
    supertraitWalk traits startName (steps + 1) name =
      match supertraitOf traits name with
      | none => false
      | some next => if next == startName then true else supertraitWalk traits startName steps next := by
  conv => lhs; unfold supertraitWalk
  unfold supertraitOf
  cases typchkTypeEnvLookupTrait traits name <;> rfl

/-- The walk says no only where the chain ends. -/
theorem supertraitWalk_of_endless (h : Endless (supertraitOf traits) name) (steps : ℕ) :
    supertraitWalk traits startName steps name = true := by
  induction steps generalizing name with
  | zero => rfl
  | succ steps ih =>
    rw [supertraitWalk_succ]
    cases hnext : supertraitOf traits name with
    | none => exact absurd h (not_endless_of_next hnext)
    | some next =>
      have hrest := ih ((endless_of_next hnext).mp h)
      simp [hrest]

/-- The walk says yes where it came back to its start, or took all its steps. -/
theorem follow_of_supertraitWalk {steps : ℕ}
    (h : supertraitWalk traits startName steps name = true) :
    (∃ n, 0 < n ∧ follow (supertraitOf traits) n name = some startName) ∨
      (follow (supertraitOf traits) steps name).isSome := by
  induction steps generalizing name with
  | zero => exact .inr rfl
  | succ steps ih =>
    rw [supertraitWalk_succ] at h
    cases hnext : supertraitOf traits name with
    | none =>
      rw [hnext] at h
      cases h
    | some next =>
      rw [hnext] at h
      by_cases hstart : next = startName
      · refine .inl ⟨1, Nat.one_pos, ?_⟩
        rw [follow_succ, hnext, hstart]
        rfl
      · rcases ih (by simpa [hstart] using h) with ⟨n, -, hn⟩ | hall
        · refine .inl ⟨n + 1, Nat.succ_pos n, ?_⟩
          rw [follow_succ, hnext]
          exact hn
        · refine .inr ?_
          rw [follow_succ, hnext]
          exact hall

/-- One step more than there are traits is enough to tell, whatever the shape of the chain. -/
theorem supertraitChainCycles_iff_endless (traits : List TraitType) (name : Bytes) :
    typchkTraitSupertraitChainCycles traits name = true ↔ Endless (supertraitOf traits) name := by
  constructor
  · intro h
    rcases follow_of_supertraitWalk h with ⟨n, hn, hback⟩ | hall
    · exact endless_of_cycle hn hback
    · have hcard : (traits.map TraitType.name).toFinset.card < traits.length + 1 := by
        have hle := List.toFinset_card_le (traits.map TraitType.name)
        rw [List.length_map] at hle
        omega
      exact endless_of_follow (fun a ha => mem_names_of_supertraitOf ha) hcard hall
  · intro h
    exact supertraitWalk_of_endless h _

/-- What is reported at a declaration: nothing but a chain of supertraits that never ends. -/
theorem typchkCheckTraitSupertraitCycle_iff (traits : List TraitType) (node : TraitNode)
    (error : TypeError) :
    typchkCheckTraitSupertraitCycle traits node = some error ↔
      node.supertrait.isSome ∧ Endless (supertraitOf traits) node.name.text ∧
        error = circularSupertrait node.name := by
  rw [← supertraitChainCycles_iff_endless]
  unfold typchkCheckTraitSupertraitCycle
  cases node.supertrait with
  | none => simp
  | some supertrait =>
    cases hfind : typchkTypeEnvLookupTrait traits node.name.text with
    | none =>
      have hends : typchkTraitSupertraitChainCycles traits node.name.text = false := by
        unfold typchkTraitSupertraitChainCycles supertraitWalk
        rw [hfind]
      simp [hends]
    | some traitType =>
      have hname : traitType.name = node.name.text := by simpa using List.find?_some hfind
      cases hlink : traitType.supertraitName with
      | none =>
        have hends : typchkTraitSupertraitChainCycles traits node.name.text = false := by
          unfold typchkTraitSupertraitChainCycles supertraitWalk
          rw [hfind]
          simp only [hlink]
        simp [hlink, hends]
      | some next =>
        cases hcycles : typchkTraitSupertraitChainCycles traits node.name.text with
        | false => simp [hlink, hname, hcycles]
        | true =>
          simp only [hlink, hname, hcycles, Option.isSome_some, Bool.and_self, if_true, true_and,
            Option.some.injEq]
          exact eq_comm

/-- Over any registered traits, the walk along the supertraits of a trait finds a cycle exactly
where they never end, and a declaration with a supertrait is reported for that and nothing else. -/
theorem supertraitCycles_iff (traits : List TraitType) :
    (∀ name, typchkTraitSupertraitChainCycles traits name = true ↔
      ∀ n, (follow (supertraitOf traits) n name).isSome) ∧
    ∀ (node : TraitNode) (error : TypeError),
      typchkCheckTraitSupertraitCycle traits node = some error ↔
        node.supertrait.isSome ∧ (∀ n, (follow (supertraitOf traits) n node.name.text).isSome) ∧
          error = circularSupertrait node.name :=
  ⟨supertraitChainCycles_iff_endless traits, typchkCheckTraitSupertraitCycle_iff traits⟩

/-! ### The traits of a program -/

/-- The trait declarations of a program, registered and resolved over the traits of the session,
with the errors: a trait may follow in the program on one whose supertrait it is. -/
def typchkCheckTraits (traits : List TraitType) (program : List TraitNode) :
    List TraitType × List TypeError :=
  let (traits, registered, duplicates) := registerTraits traits program
  let (traits, unknown) := resolveSupertraits traits registered
  (traits, duplicates ++ unknown ++ program.filterMap (typchkCheckTraitSupertraitCycle traits))

/-- A program with a trait whose supertraits never end does not pass. -/
theorem circularSupertrait_mem_errors {program : List TraitNode} {node : TraitNode}
    (hnode : node ∈ program) (hsuper : node.supertrait.isSome)
    (h : Endless (supertraitOf (typchkCheckTraits traits program).1) node.name.text) :
    circularSupertrait node.name ∈ (typchkCheckTraits traits program).2 := by
  have hreported := (typchkCheckTraitSupertraitCycle_iff _ node _).mpr ⟨hsuper, h, rfl⟩
  apply List.mem_append_right
  exact List.mem_filterMap.mpr ⟨node, hnode, hreported⟩

/-- `trait A: B {} trait B: C {} trait C: B {}`: the circle does not pass through `A`. -/
example : ((typchkCheckTraits builtinTraits
    [⟨tokenFromCString "A", some (tokenFromCString "B")⟩,
      ⟨tokenFromCString "B", some (tokenFromCString "C")⟩,
      ⟨tokenFromCString "C", some (tokenFromCString "B")⟩]).2.map fun error => error.token) =
    [tokenFromCString "A", tokenFromCString "B", tokenFromCString "C"] := by decide +kernel

end KirbyLang
