import KirbyLang.AssignmentFlow

/-!
# When the definite assignment analysis is wrong about a variable

The analysis keeps names in one list and knows no scopes. Here its walk is set beside two others:
what is in scope at each place, and the ways that lead there.

* `daaSetContains_iff_waits`: a name is in the set exactly if it waits on a way to the place;
* `no_false_alarm_iff`: when no read of a variable that has a value is reported.
-/

namespace KirbyLang

open ForwardWalks

/-! ### Names in scope -/

inductive NameKind
  | parameter
  | variable_ (initialized : Bool)
  /-- A function or a struct. -/
  | other
  deriving DecidableEq, Repr

structure ScopedName where
  name : Token
  kind : NameKind
  deriving DecidableEq, Repr

/-- The names in scope, innermost first. -/
abbrev NameScope := List ScopedName

/-- What a name refers to. -/
def NameScope.resolve (scope : NameScope) (name : Token) : Option NameKind :=
  (scope.find? fun entry => tokensEqual name entry.name).map ScopedName.kind

def scopeDomain : Domain DaaAction NameScope where
  act
    | .declare name initialized, scope => ⟨name, .variable_ initialized⟩ :: scope
    | .declareOther name, scope => ⟨name, .other⟩ :: scope
    | .read _, scope | .assign _, scope => scope
  join thenScope _ := thenScope
  leave outer _ := outer

/-! ### Ways -/

inductive WayEvent
  /-- A variable was declared without an initializer. -/
  | declared (name : Token)
  | assigned (name : Token)
  /-- An `if` was left, neither branch of which exits. -/
  | joined
  deriving DecidableEq, Repr

/-- What happened on a way through the code, earliest first. -/
abbrev Way := List WayEvent

def wayDomain : Domain DaaAction (List Way) where
  act
    | .declare name false, ways => ways.map (· ++ [.declared name])
    | .assign name, ways => ways.map (· ++ [.assigned name])
    | .read _, ways | .declare _ true, ways | .declareOther _, ways => ways
  join thenWays elseWays := (thenWays ++ elseWays).map (· ++ [.joined])
  leave _ inner := inner

def waitsStep (name : Token) (count : ℕ) : WayEvent → ℕ
  | .declared declared => if tokensEqual declared name then count + 1 else count
  | .assigned assigned => if tokensEqual assigned name then count - 1 else count
  | .joined => min count 1

/-- How many declarations of a name wait for a value on a way, whichever variables the declarations
and the assignments are about. -/
def waits (name : Token) (way : Way) : ℕ := way.foldl (waitsStep name) 0

theorem waits_append (name : Token) (way : Way) (event : WayEvent) :
    waits name (way ++ [event]) = waitsStep name (waits name way) event := by
  unfold waits
  rw [List.foldl_append]
  rfl

/-! ### Names in the set -/

/-- What an `if` leaves, neither branch of which exits. -/
theorem occurrences_join (thenDaa elseDaa : DaaSet) (name : Token) :
    occurrences (daaDomain.join thenDaa elseDaa) name =
      min (max (occurrences thenDaa name) (occurrences elseDaa name)) 1 := by
  have hjoin : daaDomain.join thenDaa elseDaa =
      daaSetUnionInto (daaSetUnionInto [] thenDaa) elseDaa := rfl
  have hempty : occurrences [] name = 0 := rfl
  rw [hjoin, occurrences_union, occurrences_union, hempty, if_neg (lt_irrefl 0)]
  split <;> omega

/-! ### The three walks side by side -/

def viewDomain : Domain DaaAction (DaaSet × NameScope × List Way) :=
  daaDomain.prod (scopeDomain.prod wayDomain)

/-- A read, with what is known before it. -/
structure Read where
  name : Token
  daa : DaaSet
  scope : NameScope
  ways : List Way

namespace Read

/-- The analysis reports the read. -/
def isReported (read : Read) : Bool := daaSetContains read.daa read.name

/-- The name refers to a parameter, or to a variable that was declared with an initializer. -/
def ofInitialized (read : Read) : Bool :=
  match read.scope.resolve read.name with
  | some .parameter | some (.variable_ true) => true
  | _ => false

/-- No declaration of the name without an initializer waits on a way to the read. -/
def NothingWaits (read : Read) : Prop := ∀ way ∈ read.ways, waits read.name way = 0

def ofSeen : DaaAction × DaaSet × NameScope × List Way → Option Read
  | (.read name, daa, scope, ways) => some ⟨name, daa, scope, ways⟩
  | _ => none

end Read

/-- The reads that a walk passes, from a place with these names in scope. -/
def readsOf (flow : Flow DaaAction) (scope : NameScope) : List Read :=
  (flow.run viewDomain ([], scope, [[]])).seen.filterMap Read.ofSeen

/-- A name occurs as often as it waits on the way on which it waits most. -/
structure Matches (view : DaaSet × NameScope × List Way) : Prop where
  le : ∀ name, ∀ way ∈ view.2.2, waits name way ≤ occurrences view.1 name
  most : ∀ name, ∃ way ∈ view.2.2, waits name way = occurrences view.1 name

theorem waitsStep_mono (name : Token) (event : WayEvent) {count count' : ℕ} (h : count ≤ count') :
    waitsStep name count event ≤ waitsStep name count' event := by
  unfold waitsStep
  cases event with
  | declared declared => dsimp only; split <;> omega
  | assigned assigned => dsimp only; split <;> omega
  | joined => dsimp only; omega

/-- An event that changes what occurs as it changes what waits. -/
theorem Matches.event {daa daa' : DaaSet} {scope scope' : NameScope} {ways : List Way}
    (event : WayEvent) (h : Matches (daa, scope, ways))
    (hstep : ∀ name, occurrences daa' name = waitsStep name (occurrences daa name) event) :
    Matches (daa', scope', ways.map (· ++ [event])) := by
  constructor
  · intro name way hway
    obtain ⟨before, hbefore, rfl⟩ := List.mem_map.mp hway
    rw [waits_append, hstep]
    exact waitsStep_mono name event (h.le name before hbefore)
  · intro name
    obtain ⟨way, hway, heq⟩ := h.most name
    refine ⟨way ++ [event], List.mem_map.mpr ⟨way, hway, rfl⟩, ?_⟩
    rw [waits_append, hstep, heq]

theorem viewDomain_keeps : viewDomain.Keeps Matches := by
  constructor
  · rintro action ⟨daa, scope, ways⟩ h
    cases action with
    | read name => exact h
    | assign name => exact h.event (.assigned name) fun n => occurrences_remove daa name n
    | declare name initialized =>
      cases initialized with
      | true => exact ⟨h.le, h.most⟩
      | false => exact h.event (.declared name) fun n => occurrences_add daa name n
    | declareOther name => exact ⟨h.le, h.most⟩
  · rintro ⟨daa, scope, ways⟩ ⟨daa', scope', ways'⟩ h h'
    constructor
    · intro name way hway
      obtain ⟨before, hbefore, rfl⟩ := List.mem_map.mp hway
      have hcount : occurrences (daaDomain.join daa daa') name =
          min (max (occurrences daa name) (occurrences daa' name)) 1 := occurrences_join daa daa' name
      have hstep : waits name (before ++ [.joined]) = min (waits name before) 1 := waits_append _ _ _
      show waits name (before ++ [.joined]) ≤ occurrences (daaDomain.join daa daa') name
      rcases List.mem_append.mp hbefore with hthen | helse
      · have hle := h.le name before hthen
        dsimp only at hle
        omega
      · have hle := h'.le name before helse
        dsimp only at hle
        omega
    · intro name
      have hcount : occurrences (daaDomain.join daa daa') name =
          min (max (occurrences daa name) (occurrences daa' name)) 1 := occurrences_join daa daa' name
      obtain ⟨way, hway, heq⟩ := h.most name
      obtain ⟨way', hway', heq'⟩ := h'.most name
      dsimp only at heq heq'
      rcases le_total (occurrences daa' name) (occurrences daa name) with hle | hle
      · refine ⟨way ++ [.joined], List.mem_map.mpr ⟨way, List.mem_append_left _ hway, rfl⟩, ?_⟩
        have hstep : waits name (way ++ [.joined]) = min (waits name way) 1 := waits_append _ _ _
        exact hstep.trans (by rw [heq]; exact (hcount.trans (by rw [max_eq_left hle])).symm)
      · refine ⟨way' ++ [.joined], List.mem_map.mpr ⟨way', List.mem_append_right _ hway', rfl⟩, ?_⟩
        have hstep : waits name (way' ++ [.joined]) = min (waits name way') 1 := waits_append _ _ _
        exact hstep.trans (by rw [heq']; exact (hcount.trans (by rw [max_eq_right hle])).symm)
  · rintro ⟨daa, scope, ways⟩ ⟨daa', scope', ways'⟩ h h'
    exact ⟨h'.le, h'.most⟩

/-- A name is in the set exactly if it waits for a value on a way to the place. -/
theorem Matches.daaSetContains_iff {view : DaaSet × NameScope × List Way} (h : Matches view)
    (name : Token) :
    daaSetContains view.1 name = true ↔ ∃ way ∈ view.2.2, 0 < waits name way := by
  rw [daaSetContains_iff_occurrences]
  constructor
  · intro hpos
    obtain ⟨way, hway, heq⟩ := h.most name
    exact ⟨way, hway, heq ▸ hpos⟩
  · rintro ⟨way, hway, hpos⟩
    exact hpos.trans_le (h.le name way hway)

theorem matches_start (scope : NameScope) : Matches ([], scope, [[]]) := by
  constructor
  · intro name way hway
    rw [List.mem_singleton.mp hway]
    rfl
  · intro name
    exact ⟨[], List.mem_singleton.mpr rfl, rfl⟩

/-- A read is reported exactly if its name waits on a way to it. -/
theorem isReported_iff {flow : Flow DaaAction} {scope : NameScope} {read : Read}
    (hread : read ∈ readsOf flow scope) : read.isReported = false ↔ read.NothingWaits := by
  obtain ⟨⟨action, daa, inScope, ways⟩, hseen, hof⟩ := List.mem_filterMap.mp hread
  have hmatches := (Flow.run_invariant viewDomain_keeps flow (matches_start scope)).2 _ hseen
  cases action with
  | read name =>
    cases hof
    have hcontains := hmatches.daaSetContains_iff name
    unfold Read.isReported Read.NothingWaits
    rw [← Bool.not_eq_true, hcontains]
    simp only [not_exists, not_and, Nat.not_lt, Nat.le_zero]
  | _ => cases hof

/-- The reports of the analysis are those of the reads it passes. -/
theorem reports_eq (flow : Flow DaaAction) (scope : NameScope) :
    reportsOf (flow.run daaDomain []).seen =
      ((readsOf flow scope).filter Read.isReported).map fun read =>
        (read.name, notAssignedMessage read.name) := by
  have hrun := Flow.run_prod_fst daaDomain (scopeDomain.prod wayDomain) flow ([], scope, [[]])
  dsimp only at hrun
  rw [hrun]
  unfold readsOf reportsOf viewDomain Passage.map
  generalize (flow.run (daaDomain.prod (scopeDomain.prod wayDomain)) ([], scope, [[]])).seen = seen
  induction seen with
  | nil => rfl
  | cons x seen ih =>
    obtain ⟨action, daa, inScope, ways⟩ := x
    cases action with
    | read name =>
      have hreport : reportOf (.read name, daa) =
          if daaSetContains daa name then some (name, notAssignedMessage name) else none := rfl
      have hread : Read.ofSeen (.read name, daa, inScope, ways) =
          some ⟨name, daa, inScope, ways⟩ := rfl
      rw [List.map_cons, List.filterMap_cons, List.filterMap_cons, hread, hreport]
      by_cases hin : daaSetContains daa name = true
      · have hreported : Read.isReported ⟨name, daa, inScope, ways⟩ = true := hin
        rw [if_pos hin]
        dsimp only
        rw [List.filter_cons_of_pos hreported, List.map_cons]
        exact congrArg _ ih
      · have hreported : ¬ Read.isReported ⟨name, daa, inScope, ways⟩ = true := hin
        rw [if_neg hin]
        dsimp only
        rw [List.filter_cons_of_neg hreported]
        exact ih
    | _ => exact ih

/-! ### Programs -/

/-- The parameters of a function, innermost last. -/
def paramScope (params : List Token) : NameScope :=
  params.reverse.map fun param => ⟨param, .parameter⟩

/-- What the analysis is run on: the top level, and the block body of each declared function and
method. -/
inductive CheckedBody (program : List AstNode) : Flow DaaAction → List Token → DaaM Unit → Prop
  | topLevel : CheckedBody program (programFlow program) [] (daaCheckProgram program)
  | function {top : AstNode} {line : ℤ} {fn : FunctionInfo} {stmts : List AstNode}
      {value : Option AstNode} (htop : top ∈ program)
      (hin : (AstNode.function line fn stmts value none).In top) (hdeclared : fn.isLambda = false) :
      CheckedBody program (fnFlow stmts value) fn.params (daaCheckFn stmts value none)

theorem CheckedBody.follows {program : List AstNode} {flow : Flow DaaAction} {params : List Token}
    {check : DaaM Unit} (h : CheckedBody program flow params check) : FollowsExpr check flow := by
  cases h with
  | topLevel => exact daaCheckProgram_follows program
  | function => exact daaCheckFn_follows _ _

/-- In a body of a program, inside whatever scopes, the analysis reports exactly the reads that
stand reported, and no read of a parameter or of a variable with an initializer is among them
exactly if at none of these reads a declaration of the name without initializer still waits, on a
way that leads there. -/
theorem no_false_alarm_iff {program : List AstNode} {flow : Flow DaaAction} {params : List Token}
    {check : DaaM Unit} (hbody : CheckedBody program flow params check) (outer : NameScope) :
    (check.run {}).2.errors =
        ((readsOf flow (paramScope params ++ outer)).filter Read.isReported).map
          (fun read => (read.name, notAssignedMessage read.name)) ∧
      ((∀ read ∈ readsOf flow (paramScope params ++ outer), read.ofInitialized = true →
          read.isReported = false) ↔
        ∀ read ∈ readsOf flow (paramScope params ++ outer), read.ofInitialized = true →
          read.NothingWaits) := by
  constructor
  · rw [(hbody.follows {}).2, ← reports_eq]
    rfl
  · apply forall₂_congr
    intro read hread
    rw [isReported_iff hread]

def nameX : Token := ⟨.identifier, ascii "x", 1⟩

def typeF64Node : TypeNode := .named 1 ⟨.identifier, ascii "f64", 1⟩ []

/-- `{ var x: f64; } return x;` -/
def shadowedBody : List AstNode :=
  [.block 1 [.varDecl 1 ⟨nameX, some typeF64Node, 1, true, false⟩ none] none 1,
    .return_ 1 (some (.variable_ 1 nameX))]

/-- `fun f(x: f64): f64 { … }` -/
def shadowedInfo : FunctionInfo :=
  ⟨⟨.identifier, ascii "f", 1⟩, [nameX], [some typeF64Node], some typeF64Node, 1, false, false,
    false, false, false, []⟩

theorem checkedBody_shadowed :
    CheckedBody [.function 1 shadowedInfo shadowedBody none none] (fnFlow shadowedBody none) [nameX]
      (daaCheckFn shadowedBody none none) :=
  .function (List.mem_singleton.mpr rfl) .here rfl

/-- The parameter is reported. -/
theorem false_alarm :
    ¬ ∀ program flow params check outer, CheckedBody program flow params check →
      ∀ read ∈ readsOf flow (paramScope params ++ outer), read.ofInitialized = true →
        read.isReported = false := by
  intro h
  have hreads : (⟨nameX, [nameX], [⟨nameX, .parameter⟩], [[.declared nameX]]⟩ : Read) ∈
      readsOf (fnFlow shadowedBody none) (paramScope [nameX] ++ []) := List.mem_singleton.mpr rfl
  exact absurd (h _ _ _ _ [] checkedBody_shadowed _ hreads rfl) (by decide)

/-- In that function, the read of the parameter is reported, and the block's variable waits. -/
theorem no_false_alarm_iff_shadowed :
    (∀ read ∈ readsOf (fnFlow shadowedBody none) (paramScope [nameX] ++ []),
        read.ofInitialized = true → read.isReported = false) ↔
      ∀ read ∈ readsOf (fnFlow shadowedBody none) (paramScope [nameX] ++ []),
        read.ofInitialized = true → read.NothingWaits :=
  (no_false_alarm_iff checkedBody_shadowed []).2

end KirbyLang
