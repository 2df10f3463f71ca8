import KirbyLang.LiteralKinds

/-!
# Literal retyping

What `typchkApplyExpectedNumberType` does to the number literals of a value:

* `LiteralArithmetic`, `PlainIntegers` and `Fits` say what the trees of literals are, which have
  only plain integers, and which can be of a kind as a whole;
* `Retyped` is the tree with its plain integers made literals of the kind, of the written value;
* `AtSources` changes the trees a value comes from and nothing else;
* `apply_retypes` is the result: each tree that fits is retyped, no other tree changes, and the
  answer is true exactly when every tree of plain integers fitted.
-/

namespace KirbyLang

namespace NumberKind

/-- The number a payload of the kind stands for. -/
def valueOf (kind : NumberKind) (p : NumberPayload) : Option ℚ :=
  if kind.info.isFloat then binary64Value p
  else if kind.info.isSigned then some p.i64
  else some p.u64

/-- The smallest integer that a literal of the kind is written exactly as. -/
def leastLiteral (kind : NumberKind) : ℤ :=
  if kind.info.isFloat then -typchkLargestExactInteger kind else kind.min

theorem leastLiteral_nonpos (kind : NumberKind) : kind.leastLiteral ≤ 0 := by
  cases kind <;> decide

theorem largestExact_nonneg (kind : NumberKind) : 0 ≤ typchkLargestExactInteger kind := by
  cases kind <;> decide

end NumberKind

/-- A written integer between the least and the largest that the kind holds exactly. -/
def NumberLiteral.WrittenFits (n : NumberLiteral) (kind : NumberKind) (written : ℤ) : Prop :=
  n.literalValueFits = true ∧ kind.leastLiteral ≤ written ∧
    written ≤ typchkLargestExactInteger kind

namespace AstNode

/-- A tree of number literals, brackets, `-` and arithmetic. -/
def LiteralArithmetic : AstNode → Prop
  | .literal _ (.number _) => True
  | .grouping _ inner => inner.LiteralArithmetic
  | .unary _ op operand => op.type = .minus ∧ operand.LiteralArithmetic
  | .binary _ op left right _ =>
    typchkIsArithmeticOperator op.type = true ∧ left.LiteralArithmetic ∧ right.LiteralArithmetic
  | _ => False

/-- A tree of plain integers. -/
def PlainIntegers : AstNode → Prop
  | .literal _ (.number n) => n.literalIsPlainInteger = true
  | .grouping _ inner => inner.PlainIntegers
  | .unary _ op operand => op.type = .minus ∧ operand.PlainIntegers
  | .binary _ op left right _ =>
    typchkIsArithmeticOperator op.type = true ∧ left.PlainIntegers ∧ right.PlainIntegers
  | _ => False

/-- A tree whose leaves all fit the kind: a plain integer, or the negative of one, that the kind
holds exactly, or a literal of the kind already; and an unsigned kind has no `-`. -/
def Fits (kind : NumberKind) : AstNode → Prop
  | .literal _ (.number n) =>
    if n.literalIsPlainInteger then n.WrittenFits kind n.literalValue.toNat else n.kind = kind
  | .grouping _ inner => inner.Fits kind
  | .unary _ op operand =>
    op.type = .minus ∧ kind.info.isSigned = true ∧
      match operand.plainInteger? with
      | some n => n.WrittenFits kind (-n.literalValue.toNat)
      | none => operand.Fits kind
  | .binary _ op left right _ =>
    typchkIsArithmeticOperator op.type = true ∧ left.Fits kind ∧ right.Fits kind
  | _ => False

/-- The tree with each plain integer made a literal of the kind with the written value. -/
inductive Retyped (kind : NumberKind) : AstNode → AstNode → Prop
  | plain {line : ℤ} {n m : NumberLiteral} (hplain : n.literalIsPlainInteger = true)
      (hkind : m.kind = kind) (hdone : m.literalIsPlainInteger = false)
      (hvalue : kind.valueOf m.payload = some (n.literalValue.toNat : ℚ)) :
      Retyped kind (.literal line (.number n)) (.literal line (.number m))
  | negated {line : ℤ} {op : Token} {operand : AstNode} {n m : NumberLiteral}
      (hplain : operand.plainInteger? = some n) (hkind : m.kind = kind)
      (hdone : m.literalIsPlainInteger = false)
      (hvalue : kind.valueOf m.payload = some (-(n.literalValue.toNat : ℚ))) :
      Retyped kind (.unary line op operand) (.literal line (.number m))
  | own {line : ℤ} {n : NumberLiteral} (hplain : n.literalIsPlainInteger = false) :
      Retyped kind (.literal line (.number n)) (.literal line (.number n))
  | grouping {line : ℤ} {inner inner' : AstNode} (h : Retyped kind inner inner') :
      Retyped kind (.grouping line inner) (.grouping line inner')
  | minus {line : ℤ} {op : Token} {operand operand' : AstNode}
      (hplain : operand.plainInteger? = none) (h : Retyped kind operand operand') :
      Retyped kind (.unary line op operand) (.unary line op operand')
  | binary {line : ℤ} {op : Token} {left left' right right' : AstNode} {isStringConcat : Bool}
      (hleft : Retyped kind left left') (hright : Retyped kind right right') :
      Retyped kind (.binary line op left right isStringConcat)
        (.binary line op left' right' isStringConcat)

/-- The places just inside a value that it comes from. -/
def sourceParts : AstNode → List AstNode
  | .grouping _ inner => [inner]
  | .if_ _ _ thenBranch elseBranch => thenBranch :: elseBranch.toList
  | .block _ _ value _ => value.toList
  | _ => []

/-- The trees of literals that a value comes from. -/
inductive LiteralSource : AstNode → AstNode → Prop
  | here {tree : AstNode} (h : tree.LiteralArithmetic) : LiteralSource tree tree
  | inside {tree part node : AstNode} (hnode : ¬node.LiteralArithmetic)
      (hpart : part ∈ node.sourceParts) (h : LiteralSource tree part) : LiteralSource tree node

/-- `R` relates each tree of literals that a value comes from to the one in its place, and
everything else is the same. -/
inductive AtSources (R : AstNode → AstNode → Prop) : AstNode → AstNode → Prop
  | tree {tree tree' : AstNode} (h : tree.LiteralArithmetic) (hR : R tree tree') :
      AtSources R tree tree'
  | grouping {line : ℤ} {inner inner' : AstNode} (hnode : ¬inner.LiteralArithmetic)
      (h : AtSources R inner inner') : AtSources R (.grouping line inner) (.grouping line inner')
  | ifThen {line : ℤ} {condition thenBranch thenBranch' : AstNode}
      (h : AtSources R thenBranch thenBranch') :
      AtSources R (.if_ line condition thenBranch none) (.if_ line condition thenBranch' none)
  | ifElse {line : ℤ} {condition thenBranch thenBranch' elseBranch elseBranch' : AstNode}
      (hthen : AtSources R thenBranch thenBranch') (helse : AtSources R elseBranch elseBranch') :
      AtSources R (.if_ line condition thenBranch (some elseBranch))
        (.if_ line condition thenBranch' (some elseBranch'))
  | block {line : ℤ} {stmts : List AstNode} {value value' : AstNode} {endLine : ℤ}
      (h : AtSources R value value') :
      AtSources R (.block line stmts (some value) endLine)
        (.block line stmts (some value') endLine)
  | nowhere {node : AstNode} (hnode : ¬node.LiteralArithmetic) (hparts : node.sourceParts = []) :
      AtSources R node node

/-! ### Trees of literals -/

theorem exists_of_plainInteger? {node : AstNode} {n : NumberLiteral}
    (h : node.plainInteger? = some n) :
    (∃ line, node = .literal line (.number n)) ∧ n.literalIsPlainInteger = true := by
  obtain ⟨hnumber, hplain⟩ := Option.filter_eq_some_iff.mp h
  refine ⟨?_, hplain⟩
  unfold number? at hnumber
  split at hnumber
  · cases hnumber
    exact ⟨_, rfl⟩
  · cases hnumber

theorem Fits.literalArithmetic {kind : NumberKind} {node : AstNode} (h : node.Fits kind) :
    node.LiteralArithmetic := by
  fun_induction Fits kind node with
  | case1 => trivial
  | case2 => trivial
  | case3 line inner ih => exact ih h
  | case4 line op operand ih =>
    obtain ⟨hop, -, hfits⟩ := h
    refine ⟨hop, ?_⟩
    cases hn : operand.plainInteger? with
    | some n =>
      obtain ⟨⟨line', rfl⟩, -⟩ := exists_of_plainInteger? hn
      trivial
    | none =>
      rw [hn] at hfits
      exact ih hfits
  | case5 line op left right isStringConcat ihleft ihright =>
    exact ⟨h.1, ihleft h.2.1, ihright h.2.2⟩
  | case6 => exact h.elim

theorem PlainIntegers.literalArithmetic {node : AstNode} (h : node.PlainIntegers) :
    node.LiteralArithmetic := by
  fun_induction PlainIntegers node with
  | case1 => trivial
  | case2 line inner ih => exact ih h
  | case3 line op operand ih => exact ⟨h.1, ih h.2⟩
  | case4 line op left right isStringConcat ihleft ihright =>
    exact ⟨h.1, ihleft h.2.1, ihright h.2.2⟩
  | case5 => exact h.elim

/-- Where the walk of literal arithmetic knows no case, there is none. -/
theorem not_literalArithmetic {node : AstNode}
    (hliteral : ∀ line n, node = literal line (.number n) → False)
    (hgrouping : ∀ line inner, node = grouping line inner → False)
    (hunary : ∀ line op operand, node = unary line op operand → False)
    (hbinary : ∀ line op left right isStringConcat,
      node = binary line op left right isStringConcat → False) : ¬node.LiteralArithmetic := by
  intro h
  unfold LiteralArithmetic at h
  split at h
  · exact hliteral _ _ rfl
  · exact hgrouping _ _ rfl
  · exact hunary _ _ _ rfl
  · exact hbinary _ _ _ _ _ rfl
  · exact h

/-! ### The walks of a tree -/

theorem plainIntegerFits_iff {literal : AstNode} {n : NumberLiteral} (kind : NumberKind)
    (h : literal.plainInteger? = some n) :
    typchkPlainIntegerFits literal kind = true ↔ n.WrittenFits kind n.literalValue.toNat := by
  have hleast := kind.leastLiteral_nonpos
  simp only [typchkPlainIntegerFits, h, NumberLiteral.WrittenFits, Bool.and_eq_true,
    decide_eq_true_eq]
  constructor
  · rintro ⟨hfits, hle⟩
    exact ⟨hfits, by omega, hle⟩
  · rintro ⟨hfits, -, hle⟩
    exact ⟨hfits, hle⟩

theorem negatedPlainIntegerFits_iff {literal : AstNode} {n : NumberLiteral} (kind : NumberKind)
    (h : literal.plainInteger? = some n) :
    typchkNegatedPlainIntegerFits literal kind = true ↔
      kind.info.isSigned = true ∧ n.WrittenFits kind (-n.literalValue.toNat) := by
  have hlargest := kind.largestExact_nonneg
  have hmin : (if kind.info.isFloat then typchkLargestExactInteger kind else -kind.min) =
      -kind.leastLiteral := by
    unfold NumberKind.leastLiteral
    split <;> simp
  simp only [typchkNegatedPlainIntegerFits, h, NumberLiteral.WrittenFits, Bool.and_eq_true,
    decide_eq_true_eq, hmin]
  constructor
  · rintro ⟨⟨hsigned, hfits⟩, hle⟩
    exact ⟨hsigned, hfits, by omega, by omega⟩
  · rintro ⟨hsigned, hfits, hle, -⟩
    exact ⟨⟨hsigned, hfits⟩, by omega⟩

theorem plainInteger?_eq_none {node : AstNode} (h : ¬typchkIsPlainIntegerLiteral node = true) :
    node.plainInteger? = none := by
  simpa [typchkIsPlainIntegerLiteral] using h

/-- The first walk tests whether a tree fits. -/
theorem literalArithmeticFits_iff (kind : NumberKind) (node : AstNode) :
    typchkLiteralArithmeticFits node kind = true ↔ node.Fits kind := by
  unfold typchkLiteralArithmeticFits
  generalize () = context
  fun_induction typchkVisitLiteralArithmetic typchkLiteralLeafFits kind node context with
  | case1 line n context =>
    simp only [typchkLiteralLeafFits, leafFits, Fits]
    cases hplain : n.literalIsPlainInteger with
    | false => simp
    | true =>
      have hleaf : (literal line (.number n)).plainInteger? = some n := by
        simp [plainInteger?, number?, hplain]
      simpa using plainIntegerFits_iff kind hleaf
  | case2 line inner context walk ih => exact ih
  | case3 line op operand context hop => simp [Fits, hop]
  | case4 line op operand context hop hplain =>
    obtain ⟨n, hn⟩ := Option.isSome_iff_exists.mp hplain
    have hop : op.type = .minus := not_ne_iff.mp hop
    simpa [typchkLiteralLeafFits, leafFits, Fits, hn, hop] using negatedPlainIntegerFits_iff kind hn
  | case5 line op operand context hop hplain hsigned walk ih =>
    have hop : op.type = .minus := not_ne_iff.mp hop
    simpa [Fits, hop, hsigned, plainInteger?_eq_none hplain] using ih
  | case6 line op operand context hop hplain hsigned => simp [Fits, hsigned]
  | case7 line op left right isStringConcat context hop first hgoes second ihleft ihright =>
    have hleft : left.Fits kind := ihleft.mp hgoes
    simpa [Fits, hop, hleft] using ihright
  | case8 line op left right isStringConcat context hop first hstops ihleft =>
    have hleft : ¬left.Fits kind := fun h => hstops (ihleft.mpr h)
    simpa [Fits, hop, hleft] using hstops
  | case9 line op left right isStringConcat context hop => simp [Fits, hop]
  | case10 node context hliteral hgrouping hunary hbinary =>
    have hnone := not_literalArithmetic hliteral hgrouping hunary hbinary
    exact ⟨nofun, fun h => absurd h.literalArithmetic hnone⟩

/-- The walk over the leaves of `typchkIsPlainIntegerArithmetic`, for a kind with `-`. -/
theorem isPlainIntegerArithmetic_iff (node : AstNode) :
    typchkIsPlainIntegerArithmetic node = true ↔ node.PlainIntegers := by
  unfold typchkIsPlainIntegerArithmetic
  generalize () = context
  fun_induction typchkVisitLiteralArithmetic typchkLiteralLeafIsPlainInteger .i64 node context with
  | case1 line n context =>
    simp [typchkLiteralLeafIsPlainInteger, typchkIsPlainIntegerLiteral, plainInteger?, number?,
      PlainIntegers]
  | case2 line inner context walk ih => exact ih
  | case3 line op operand context hop => simp [PlainIntegers, hop]
  | case4 line op operand context hop hplain =>
    obtain ⟨n, hn⟩ := Option.isSome_iff_exists.mp hplain
    obtain ⟨⟨line', rfl⟩, hinteger⟩ := exists_of_plainInteger? hn
    have hop : op.type = .minus := not_ne_iff.mp hop
    simp [typchkLiteralLeafIsPlainInteger, PlainIntegers, hinteger, hop]
  | case5 line op operand context hop hplain hsigned walk ih =>
    have hop : op.type = .minus := not_ne_iff.mp hop
    simpa [PlainIntegers, hop] using ih
  | case6 line op operand context hop hplain hsigned => exact absurd rfl hsigned
  | case7 line op left right isStringConcat context hop first hgoes second ihleft ihright =>
    have hleft : left.PlainIntegers := ihleft.mp hgoes
    simpa [PlainIntegers, hop, hleft] using ihright
  | case8 line op left right isStringConcat context hop first hstops ihleft =>
    have hleft : ¬left.PlainIntegers := fun h => hstops (ihleft.mpr h)
    simpa [PlainIntegers, hop, hleft] using hstops
  | case9 line op left right isStringConcat context hop => simp [PlainIntegers, hop]
  | case10 node context hliteral hgrouping hunary hbinary =>
    have hnone := not_literalArithmetic hliteral hgrouping hunary hbinary
    exact ⟨nofun, fun h => absurd h.literalArithmetic hnone⟩

/-! ### The change of a tree -/

theorem largestExact_le (kind : NumberKind) (hfloat : kind.info.isFloat = true) :
    typchkLargestExactInteger kind ≤ 2 ^ 53 := by
  cases kind <;> first | decide | cases hfloat

theorem largestExact_le_of_signed (kind : NumberKind) (hfloat : kind.info.isFloat = false)
    (hsigned : kind.info.isSigned = true) : typchkLargestExactInteger kind ≤ 2 ^ 63 - 1 := by
  cases kind <;> first | decide | exact absurd hfloat (by decide) | exact absurd hsigned (by decide)

theorem neg_two_pow_le_leastLiteral (kind : NumberKind) : -2 ^ 63 ≤ kind.leastLiteral := by
  cases kind <;> decide

/-- A plain integer that fits becomes a literal with the written value. -/
theorem valueOf_setPlainIntegerKind {kind : NumberKind} {n : NumberLiteral}
    (h : n.WrittenFits kind n.literalValue.toNat) :
    kind.valueOf (typchkSetPlainIntegerKind n kind).payload =
      some (n.literalValue.toNat : ℚ) := by
  obtain ⟨-, -, hle⟩ := h
  unfold NumberKind.valueOf typchkSetPlainIntegerKind
  cases hfloat : kind.info.isFloat with
  | true =>
    have hbound := largestExact_le kind hfloat
    exact binary64Value_toFloat (by omega)
  | false =>
    cases hsigned : kind.info.isSigned with
    | true =>
      have hbound := largestExact_le_of_signed kind hfloat hsigned
      have hvalue : NumberPayload.i64 n.literalValue = n.literalValue.toNat :=
        BitVec.toInt_eq_toNat_of_lt (by change 2 * n.literalValue.toNat < 2 ^ 64; omega)
      simp [hvalue]
    | false => rfl

/-- And so does the negative of one. -/
theorem valueOf_foldNegatedPlainInteger {kind : NumberKind} {n : NumberLiteral}
    (hsigned : kind.info.isSigned = true) (h : n.WrittenFits kind (-n.literalValue.toNat)) :
    kind.valueOf (typchkFoldNegatedPlainInteger n kind).payload =
      some (-(n.literalValue.toNat : ℚ)) := by
  obtain ⟨-, hle, -⟩ := h
  unfold NumberKind.valueOf typchkFoldNegatedPlainInteger
  cases hfloat : kind.info.isFloat with
  | true =>
    have hbound := largestExact_le kind hfloat
    have hleast : kind.leastLiteral = -typchkLargestExactInteger kind := if_pos hfloat
    exact binary64Value_neg_toFloat (by omega)
  | false =>
    have hbound := neg_two_pow_le_leastLiteral kind
    have hnat : (0 - n.literalValue).toBitVec.toNat = (2 ^ 64 - n.literalValue.toNat) % 2 ^ 64 := by
      change (0 - n.literalValue).toNat = _
      rw [UInt64.toNat_sub, UInt64.toNat_zero, Nat.add_zero]
    have hvalue : NumberPayload.i64 (0 - n.literalValue) = -n.literalValue.toNat := by
      have hlt := n.literalValue.toNat_lt
      unfold NumberPayload.i64
      rw [BitVec.toInt_eq_toNat_cond, hnat]
      split <;> omega
    rw [if_neg (by simp), if_pos hsigned, if_neg (by simp), hvalue]
    simp

/-- The second walk gives each plain integer of a tree that fits the kind. -/
theorem retyped_of_fits {kind : NumberKind} {node : AstNode} (h : node.Fits kind) :
    (typchkVisitLiteralArithmetic typchkSetLiteralLeafKind kind node ()).goesOn = true ∧
      Retyped kind node (typchkVisitLiteralArithmetic typchkSetLiteralLeafKind kind node ()).node := by
  generalize () = context
  fun_induction typchkVisitLiteralArithmetic typchkSetLiteralLeafKind kind node context with
  | case1 line n context =>
    simp only [Fits] at h
    cases hplain : n.literalIsPlainInteger with
    | false => simpa [typchkSetLiteralLeafKind, hplain] using Retyped.own hplain
    | true =>
      rw [if_pos hplain] at h
      have hretyped : Retyped kind (literal line (.number n))
          (literal line (.number (typchkSetPlainIntegerKind n kind))) :=
        .plain hplain rfl rfl (valueOf_setPlainIntegerKind h)
      simpa [typchkSetLiteralLeafKind, hplain] using hretyped
  | case2 line inner context walk ih =>
    obtain ⟨hgoes, hretyped⟩ := ih h
    exact ⟨hgoes, hretyped.grouping⟩
  | case3 line op operand context hop => exact absurd h.1 hop
  | case4 line op operand context hop hplain =>
    obtain ⟨n, hn⟩ := Option.isSome_iff_exists.mp hplain
    obtain ⟨-, hsigned, hfits⟩ := h
    rw [hn] at hfits
    have hretyped : Retyped kind (unary line op operand)
        (literal line (.number (typchkFoldNegatedPlainInteger n kind))) :=
      .negated hn rfl rfl (valueOf_foldNegatedPlainInteger hsigned hfits)
    simpa [typchkSetLiteralLeafKind, hn] using hretyped
  | case5 line op operand context hop hplain hsigned walk ih =>
    obtain ⟨-, -, hfits⟩ := h
    rw [plainInteger?_eq_none hplain] at hfits
    obtain ⟨hgoes, hretyped⟩ := ih hfits
    exact ⟨hgoes, hretyped.minus (plainInteger?_eq_none hplain)⟩
  | case6 line op operand context hop hplain hsigned => exact absurd h.2.1 hsigned
  | case7 line op left right isStringConcat context hop first hgoes second ihleft ihright =>
    obtain ⟨-, hleft, hright⟩ := h
    exact ⟨(ihright hright).1, .binary (ihleft hleft).2 (ihright hright).2⟩
  | case8 line op left right isStringConcat context hop first hstops ihleft =>
    exact absurd (ihleft h.2.1).1 hstops
  | case9 line op left right isStringConcat context hop => exact absurd h.1 hop
  | case10 node context hliteral hgrouping hunary hbinary =>
    exact absurd h.literalArithmetic (not_literalArithmetic hliteral hgrouping hunary hbinary)

theorem Retyped.literalArithmetic {kind : NumberKind} {node node' : AstNode}
    (h : Retyped kind node node') (hnode : node.LiteralArithmetic) : node'.LiteralArithmetic := by
  induction h with
  | plain => trivial
  | negated => trivial
  | own => trivial
  | grouping h ih => exact ih hnode
  | minus hplain h ih => exact ⟨hnode.1, ih hnode.2⟩
  | binary hleft hright ihleft ihright => exact ⟨hnode.1, ihleft hnode.2.1, ihright hnode.2.2⟩

/-- No plain integer is left in a tree that was retyped. -/
theorem Retyped.not_plainIntegers {kind : NumberKind} {node node' : AstNode}
    (h : Retyped kind node node') : ¬node'.PlainIntegers := by
  induction h with
  | plain hplain hkind hdone hvalue => simp [PlainIntegers, hdone]
  | negated hplain hkind hdone hvalue => simp [PlainIntegers, hdone]
  | own hplain => simp [PlainIntegers, hplain]
  | grouping h ih => exact ih
  | minus hplain h ih => exact fun hnode => ih hnode.2
  | binary hleft hright ihleft ihright => exact fun hnode => ihleft hnode.2.1

/-! ### The walks over the sources -/

/-- A tree of literals that is not handled as a whole is not handled in parts: inside brackets
there is the same tree. -/
theorem visitValueSources_eq_of_none {visit : ValueSourceVisitor} {kind : NumberKind}
    (hvisit : ∀ line inner, visit (.grouping line inner) kind = none → visit inner kind = none)
    {node : AstNode} (htree : node.LiteralArithmetic) (hnone : visit node kind = none) :
    typchkVisitValueSources visit kind node = ⟨false, node, []⟩ := by
  fun_induction typchkVisitValueSources visit kind node with
  | case1 node value errors hsome => rw [hnone] at hsome; cases hsome
  | case2 line inner walk h ih =>
    have hinner : walk = ⟨false, inner, []⟩ := ih htree (hvisit line inner hnone)
    rw [hinner]
  | case3 => exact htree.elim
  | case4 => exact htree.elim
  | case5 => exact htree.elim
  | case6 => rfl

theorem setLiteralArithmeticKind_eq_none {kind : NumberKind} {node : AstNode} :
    typchkSetLiteralArithmeticKind node kind = none ↔ ¬node.Fits kind := by
  simp [typchkSetLiteralArithmeticKind, ← literalArithmeticFits_iff]

theorem reportPlainIntegerArithmetic_eq_none {kind : NumberKind} {node : AstNode} :
    typchkReportPlainIntegerArithmetic node kind = none ↔ ¬node.PlainIntegers := by
  simp [typchkReportPlainIntegerArithmetic, ← isPlainIntegerArithmetic_iff]

/-- A tree of literals that fits the kind is retyped as a whole, any other stays as it is. -/
def SetOrKept (kind : NumberKind) (tree tree' : AstNode) : Prop :=
  tree.Fits kind ∧ Retyped kind tree tree' ∨ ¬tree.Fits kind ∧ tree' = tree

/-- Where the walk over the sources knows no case, there is no part to go into. -/
theorem sourceParts_eq_nil {node : AstNode}
    (hgrouping : ∀ line inner, node = grouping line inner → False)
    (hthen : ∀ line condition thenBranch, node = if_ line condition thenBranch none → False)
    (helse : ∀ line condition thenBranch elseBranch,
      node = if_ line condition thenBranch (some elseBranch) → False)
    (hblock : ∀ line stmts value endLine, node = block line stmts (some value) endLine → False) :
    node.sourceParts = [] := by
  unfold sourceParts
  split
  · exact (hgrouping _ _ rfl).elim
  · rename_i elseBranch
    cases elseBranch with
    | none => exact (hthen _ _ _ rfl).elim
    | some elseBranch => exact (helse _ _ _ _ rfl).elim
  · rename_i value endLine
    cases value with
    | none => rfl
    | some value => exact (hblock _ _ _ _ rfl).elim
  · rfl

theorem setLiteralArithmeticKind_grouping {kind : NumberKind} (line : ℤ) (inner : AstNode)
    (h : typchkSetLiteralArithmeticKind (.grouping line inner) kind = none) :
    typchkSetLiteralArithmeticKind inner kind = none := by
  rw [setLiteralArithmeticKind_eq_none] at h ⊢
  exact h

theorem reportPlainIntegerArithmetic_grouping {kind : NumberKind} (line : ℤ) (inner : AstNode)
    (h : typchkReportPlainIntegerArithmetic (.grouping line inner) kind = none) :
    typchkReportPlainIntegerArithmetic inner kind = none := by
  rw [reportPlainIntegerArithmetic_eq_none] at h ⊢
  exact h

/-- The first walk changes the trees that fit, and nothing else. -/
theorem setLiteralArithmeticKind_atSources (kind : NumberKind) (node : AstNode) :
    AtSources (SetOrKept kind) node
      (typchkVisitValueSources typchkSetLiteralArithmeticKind kind node).value := by
  fun_induction typchkVisitValueSources typchkSetLiteralArithmeticKind kind node with
  | case1 node value errors hsome =>
    unfold typchkSetLiteralArithmeticKind at hsome
    split at hsome
    · rename_i hfits
      have hfits := (literalArithmeticFits_iff kind node).mp hfits
      cases hsome
      exact .tree hfits.literalArithmetic (.inl ⟨hfits, (retyped_of_fits hfits).2⟩)
    · cases hsome
  | case2 line inner walk hnone ih =>
    by_cases htree : inner.LiteralArithmetic
    · have hinner : walk = ⟨false, inner, []⟩ :=
        visitValueSources_eq_of_none setLiteralArithmeticKind_grouping htree
          (setLiteralArithmeticKind_grouping line inner hnone)
      rw [hinner]
      exact .tree htree (.inr ⟨setLiteralArithmeticKind_eq_none.mp hnone, rfl⟩)
    · exact .grouping htree ih
  | case3 line condition thenBranch walk hnone ih => exact .ifThen ih
  | case4 line condition thenBranch elseBranch first second hnone ihthen ihelse =>
    exact .ifElse ihthen ihelse
  | case5 line stmts value endLine walk hnone ih => exact .block ih
  | case6 node hgrouping hthen helse hblock hnone =>
    by_cases htree : node.LiteralArithmetic
    · exact .tree htree (.inr ⟨setLiteralArithmeticKind_eq_none.mp hnone, rfl⟩)
    · exact .nowhere htree (sourceParts_eq_nil hgrouping hthen helse hblock)

/-- What is no tree of literals is none after its sources changed. -/
theorem AtSources.not_literalArithmetic {R : AstNode → AstNode → Prop} {node node' : AstNode}
    (h : AtSources R node node') (hnode : ¬node.LiteralArithmetic) : ¬node'.LiteralArithmetic := by
  induction h with
  | tree htree hR => exact absurd htree hnode
  | grouping hinner h ih => exact ih hinner
  | ifThen h ih => exact id
  | ifElse hthen helse ihthen ihelse => exact id
  | block h ih => exact id
  | nowhere hnode hparts => exact hnode

/-- The second walk changes nothing, and reports something whenever it handles something. -/
theorem reportPlainIntegerArithmetic_value (kind : NumberKind) (node : AstNode) :
    (typchkVisitValueSources typchkReportPlainIntegerArithmetic kind node).value = node ∧
      ((typchkVisitValueSources typchkReportPlainIntegerArithmetic kind node).handled = true ↔
        (typchkVisitValueSources typchkReportPlainIntegerArithmetic kind node).errors ≠ []) := by
  fun_induction typchkVisitValueSources typchkReportPlainIntegerArithmetic kind node with
  | case1 node value errors hsome =>
    unfold typchkReportPlainIntegerArithmetic at hsome
    split at hsome
    · cases hsome
      simp
    · cases hsome
  | case2 line inner walk hnone ih => exact ⟨congrArg _ ih.1, ih.2⟩
  | case3 line condition thenBranch walk hnone ih =>
    exact ⟨congrArg (if_ line condition · none) ih.1, ih.2⟩
  | case4 line condition thenBranch elseBranch first second hnone ihthen ihelse =>
    refine ⟨congrArg₂ (fun t e => if_ line condition t (some e)) ihthen.1 ihelse.1, ?_⟩
    change (first.handled || second.handled) = true ↔ first.errors ++ second.errors ≠ []
    rw [Bool.or_eq_true, ihthen.2, ihelse.2, ← not_and_or]
    exact not_congr List.append_eq_nil_iff.symm
  | case5 line stmts value endLine walk hnone ih =>
    exact ⟨congrArg (fun v => block line stmts (some v) endLine) ih.1, ih.2⟩
  | case6 node hgrouping hthen helse hblock hnone => exact ⟨rfl, by simp⟩

/-- A tree of literals is the only one it comes from. -/
theorem literalSource_tree {tree node : AstNode} (hnode : node.LiteralArithmetic) :
    LiteralSource tree node ↔ tree = node := by
  constructor
  · intro h
    cases h with
    | here => rfl
    | inside hnot => exact absurd hnode hnot
  · rintro rfl
    exact .here hnode

theorem literalSource_parts {tree node : AstNode} (hnode : ¬node.LiteralArithmetic) :
    LiteralSource tree node ↔ ∃ part ∈ node.sourceParts, LiteralSource tree part := by
  constructor
  · intro h
    cases h with
    | here htree => exact absurd htree hnode
    | inside hnot hpart h => exact ⟨_, hpart, h⟩
  · rintro ⟨part, hpart, h⟩
    exact .inside hnode hpart h

/-- Some tree of plain integers that the value comes from does not fit the kind. -/
def HasMisfit (kind : NumberKind) (node : AstNode) : Prop :=
  ∃ tree, LiteralSource tree node ∧ tree.PlainIntegers ∧ ¬tree.Fits kind

theorem hasMisfit_tree {kind : NumberKind} {node : AstNode} (hnode : node.LiteralArithmetic) :
    node.HasMisfit kind ↔ node.PlainIntegers ∧ ¬node.Fits kind := by
  simp [HasMisfit, literalSource_tree hnode]

theorem hasMisfit_parts {kind : NumberKind} {node : AstNode} (hnode : ¬node.LiteralArithmetic) :
    node.HasMisfit kind ↔ ∃ part ∈ node.sourceParts, part.HasMisfit kind := by
  simp only [HasMisfit, literalSource_parts hnode]
  grind

/-- What is no tree of literals is not reported itself. -/
theorem reportPlainIntegerArithmetic_of_not {kind : NumberKind} {node : AstNode}
    (hnode : ¬node.LiteralArithmetic) : typchkReportPlainIntegerArithmetic node kind = none :=
  reportPlainIntegerArithmetic_eq_none.mpr fun h => hnode h.literalArithmetic

/-- After the first walk the second reports exactly the trees of plain integers that do not
fit. -/
theorem reportPlainIntegerArithmetic_handled {kind : NumberKind} {node node' : AstNode}
    (h : AtSources (SetOrKept kind) node node') :
    (typchkVisitValueSources typchkReportPlainIntegerArithmetic kind node').handled = true ↔
      node.HasMisfit kind := by
  induction h with
  | tree htree hR =>
    rw [hasMisfit_tree htree]
    obtain ⟨hfits, hretyped⟩ | ⟨hfits, rfl⟩ := hR
    · rw [visitValueSources_eq_of_none reportPlainIntegerArithmetic_grouping
        (hretyped.literalArithmetic htree)
        (reportPlainIntegerArithmetic_eq_none.mpr hretyped.not_plainIntegers)]
      simp [hfits]
    · rename_i tree
      by_cases hplain : tree.PlainIntegers
      · unfold typchkVisitValueSources typchkReportPlainIntegerArithmetic
        rw [if_pos ((isPlainIntegerArithmetic_iff _).mpr hplain)]
        simp [hplain, hfits]
      · rw [visitValueSources_eq_of_none reportPlainIntegerArithmetic_grouping htree
          (reportPlainIntegerArithmetic_eq_none.mpr hplain)]
        simp [hplain]
  | @grouping line inner inner' hinner h ih =>
    have hinner' : ¬(grouping line inner').LiteralArithmetic := h.not_literalArithmetic hinner
    have hnode : ¬(grouping line inner).LiteralArithmetic := hinner
    unfold typchkVisitValueSources
    rw [reportPlainIntegerArithmetic_of_not hinner', hasMisfit_parts hnode]
    simpa [sourceParts] using ih
  | @ifThen line condition thenBranch thenBranch' h ih =>
    have hnode : ¬(if_ line condition thenBranch none).LiteralArithmetic := id
    unfold typchkVisitValueSources
    rw [reportPlainIntegerArithmetic_of_not id, hasMisfit_parts hnode]
    simpa [sourceParts] using ih
  | @ifElse line condition thenBranch thenBranch' elseBranch elseBranch' hthen helse ihthen ihelse =>
    have hnode : ¬(if_ line condition thenBranch (some elseBranch)).LiteralArithmetic := id
    unfold typchkVisitValueSources
    rw [reportPlainIntegerArithmetic_of_not id, hasMisfit_parts hnode]
    simp [sourceParts, ihthen, ihelse]
  | @block line stmts value value' endLine h ih =>
    have hnode : ¬(block line stmts (some value) endLine).LiteralArithmetic := id
    unfold typchkVisitValueSources
    rw [reportPlainIntegerArithmetic_of_not id, hasMisfit_parts hnode]
    simpa [sourceParts] using ih
  | @nowhere node hnode hparts =>
    rw [hasMisfit_parts hnode, hparts]
    fun_cases typchkVisitValueSources typchkReportPlainIntegerArithmetic kind node with
    | case1 =>
      rename_i hsome
      rw [reportPlainIntegerArithmetic_of_not hnode] at hsome
      cases hsome
    | case2 => simp [sourceParts] at hparts
    | case3 => simp [sourceParts] at hparts
    | case4 => simp [sourceParts] at hparts
    | case5 => simp [sourceParts] at hparts
    | case6 => simp

end AstNode

/-- **Literal retyping.** With a number kind expected, every tree of literals that the value comes
from is retyped if it fits the kind and is left as it is otherwise, nothing else changes, and the
answer is true exactly when no tree of plain integers was left; then, and only then, nothing is
reported. -/
theorem apply_retypes (node : AstNode) (kind : NumberKind) :
    ∃ node' errors, typchkApplyExpectedNumberType (some node) (.number kind) =
        (decide (errors = []), some node', errors) ∧
      AstNode.AtSources (AstNode.SetOrKept kind) node node' ∧
      (errors = [] ↔ ∀ tree, AstNode.LiteralSource tree node → tree.PlainIntegers →
        tree.Fits kind) := by
  have hset := AstNode.setLiteralArithmeticKind_atSources kind node
  generalize hwalk : (typchkVisitValueSources typchkSetLiteralArithmeticKind kind node).value =
    node' at hset
  obtain ⟨hvalue, herrors⟩ := AstNode.reportPlainIntegerArithmetic_value kind node'
  have hhandled := AstNode.reportPlainIntegerArithmetic_handled hset
  generalize hreport : typchkVisitValueSources typchkReportPlainIntegerArithmetic kind node' =
    report at hvalue herrors hhandled
  refine ⟨node', report.errors, ?_, hset, ?_⟩
  · have hanswer : (!report.handled) = decide (report.errors = []) := by
      cases hr : report.handled <;> simp_all
    simp only [typchkApplyExpectedNumberType, hwalk, hreport, hvalue, hanswer]
  · rw [← not_iff_not, ← ne_eq, ← herrors, hhandled]
    simp [AstNode.HasMisfit]

/-! ### Integers the limits leave out -/

/-- A value of the kind stands for the integer. -/
def NumberKind.HasValue (kind : NumberKind) (value : ℤ) : Prop :=
  ∃ p : NumberPayload, kind.Canonical p ∧ roundFloat kind p.f64 = p.f64 ∧
    kind.valueOf p = some (value : ℚ)

/-- As `Fits`, with every integer that the kind has a value for, and with `-` over a literal of an
unsigned kind. -/
def AstNode.FitsRepresentable (kind : NumberKind) : AstNode → Prop
  | .literal _ (.number n) =>
    if n.literalIsPlainInteger then n.literalValueFits = true ∧ kind.HasValue n.literalValue.toNat
    else n.kind = kind
  | .grouping _ inner => inner.FitsRepresentable kind
  | .unary _ op operand =>
    op.type = .minus ∧
      match operand.number? with
      | some n =>
        if n.literalIsPlainInteger then
          n.literalValueFits = true ∧ kind.HasValue (-n.literalValue.toNat)
        else n.kind = kind
      | none => kind.info.isSigned = true ∧ operand.FitsRepresentable kind
  | .binary _ op left right _ =>
    typchkIsArithmeticOperator op.type = true ∧ left.FitsRepresentable kind ∧
      right.FitsRepresentable kind
  | _ => False

/-- A tree of literals with a value of the kind for each leaf is retyped. -/
def RetypesRepresentable (kind : NumberKind) (node : AstNode) : Prop :=
  node.LiteralArithmetic → node.FitsRepresentable kind →
    ∃ node', (typchkApplyExpectedNumberType (some node) (.number kind)).2.1 = some node' ∧
      AstNode.Retyped kind node node'

/-- A plain integer as the parser makes it. -/
def plainLiteral (value : UInt64) : AstNode :=
  .literal 1 (.number ⟨.i64, value, true, value, true⟩)

/-- `-0` as a `u8`. -/
def minusZero : AstNode := .unary 1 ⟨.minus, ascii "-", 1⟩ (plainLiteral 0)

/-- `9007199254740994`, which is `2 ^ 53 + 2`. -/
def aboveExact : AstNode := plainLiteral 9007199254740994

/-- `1 + -5u8`. -/
def minusSuffixed : AstNode :=
  .binary 1 ⟨.plus, ascii "+", 1⟩ (plainLiteral 1)
    (.unary 1 ⟨.minus, ascii "-", 1⟩ (.literal 1 (.number ⟨.u8, 5, false, 0, false⟩))) false

/-- An unsigned kind takes no `-` at all, and a float kind no integer above the largest of those it
holds without a gap, although it has values for some. -/
theorem not_retypesRepresentable : ¬RetypesRepresentable .u8 minusZero ∧
    ¬RetypesRepresentable .f64 aboveExact ∧ ¬RetypesRepresentable .u8 minusSuffixed := by
  refine ⟨fun h => ?_, fun h => ?_, fun h => ?_⟩
  · have hfits : minusZero.FitsRepresentable .u8 := ⟨rfl, rfl, 0, by decide, by decide, rfl⟩
    obtain ⟨node', hnode', hretyped⟩ := h ⟨rfl, trivial⟩ hfits
    have hkept : node' = minusZero := (Option.some.inj hnode').symm
    subst hkept
    exact hretyped.not_plainIntegers ⟨rfl, rfl⟩
  · have hfits : aboveExact.FitsRepresentable .f64 :=
      ⟨rfl, 0x4340000000000001, by decide, by decide +kernel, by decide +kernel⟩
    obtain ⟨node', hnode', hretyped⟩ := h trivial hfits
    have hkept : node' = aboveExact := (Option.some.inj hnode').symm
    subst hkept
    exact hretyped.not_plainIntegers rfl
  · have hfits : minusSuffixed.FitsRepresentable .u8 :=
      ⟨rfl, ⟨rfl, 1, by decide, by decide, rfl⟩, rfl, rfl⟩
    obtain ⟨node', hnode', hretyped⟩ := h ⟨rfl, trivial, rfl, trivial⟩ hfits
    have hkept : node' = minusSuffixed := (Option.some.inj hnode').symm
    subst hkept
    cases hretyped with
    | binary hleft hright => exact hleft.not_plainIntegers rfl

end KirbyLang
