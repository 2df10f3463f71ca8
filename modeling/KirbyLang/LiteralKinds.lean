import KirbyLang.Ast
import KirbyLang.Lib.ExactDoubles
import KirbyLang.NumberOps
import KirbyLang.Types

/-!
# The number kinds of literals

How the type checker gives the number literals of a value the number type expected of it
(`typchkApplyExpectedNumberType` and what it calls). The C functions change nodes in place; here
each gives back the node that stands in place of the one it was given:

* `typchkVisitLiteralArithmetic` is the walk of literal arithmetic, over one of the leaf visitors
  of the source, with the visitor's context passed along;
* `typchkVisitValueSources` walks the places a value comes from. A visitor that does not handle a
  value has changed and reported nothing, so it answers `none`.
-/

namespace KirbyLang

/-- The largest integer a literal can be while still being exact in the kind. -/
def typchkLargestExactInteger (kind : NumberKind) : ℤ :=
  if kind = .f32 then 2 ^ 24 else if kind = .f64 then 2 ^ 53 else kind.max

/-- The number of a number literal. -/
def AstNode.number? : AstNode → Option NumberLiteral
  | .literal _ (.number n) => some n
  | _ => none

/-- The number of a literal that is a plain, unsuffixed integer. -/
def AstNode.plainInteger? (node : AstNode) : Option NumberLiteral :=
  node.number?.filter NumberLiteral.literalIsPlainInteger

def typchkIsPlainIntegerLiteral (node : AstNode) : Bool := node.plainInteger?.isSome

/-- Whether a plain integer literal, such as `65`, can be written exactly in `kind`. -/
def typchkPlainIntegerFits (literal : AstNode) (kind : NumberKind) : Bool :=
  match literal.plainInteger? with
  | none => false
  | some n =>
    n.literalValueFits && decide ((n.literalValue.toNat : ℤ) ≤ typchkLargestExactInteger kind)

/-- Whether `-literal` can be written exactly in `kind`, which includes the smallest value of a
signed kind. -/
def typchkNegatedPlainIntegerFits (literal : AstNode) (kind : NumberKind) : Bool :=
  match literal.plainInteger? with
  | none => false
  | some n =>
    let largest := if kind.info.isFloat then typchkLargestExactInteger kind else -kind.min
    kind.info.isSigned && n.literalValueFits && decide ((n.literalValue.toNat : ℤ) ≤ largest)

/-- Rewrites a plain integer literal as a literal of `kind`. -/
def typchkSetPlainIntegerKind (n : NumberLiteral) (kind : NumberKind) : NumberLiteral :=
  { n with
    kind
    literalIsPlainInteger := false
    payload := if kind.info.isFloat then .ofF64 n.literalValue.toFloat else n.literalValue }

/-- Rewrites `-literal` as one negative literal of `kind`. In C the literal takes the place of the
unary node in its union; nothing reads the two fields that are for plain integers after that. -/
def typchkFoldNegatedPlainInteger (n : NumberLiteral) (kind : NumberKind) : NumberLiteral :=
  { kind
    payload := if kind.info.isFloat then .ofF64 (-n.literalValue.toFloat) else 0 - n.literalValue }

def typchkIsArithmeticOperator : TokenType → Bool
  | .plus | .minus | .star | .slash | .modulo => true
  | _ => false

/-! ### Literal arithmetic -/

/-- What a walk of literal arithmetic leaves: whether it came to its end, the node, and the
visitor's context. -/
structure LiteralVisit (σ : Type) where
  goesOn : Bool
  node : AstNode
  context : σ

/-- Called on each leaf of literal arithmetic: a number literal or `-literal`. -/
abbrev LiteralLeafVisitor (σ : Type) := AstNode → NumberKind → σ → LiteralVisit σ

/-- Walks a value made only of number literals, brackets, `-` and arithmetic. -/
def typchkVisitLiteralArithmetic {σ : Type} (visit : LiteralLeafVisitor σ) (kind : NumberKind) :
    AstNode → σ → LiteralVisit σ
  | .literal line (.number n), context => visit (.literal line (.number n)) kind context
  | .grouping line inner, context =>
    let walk := typchkVisitLiteralArithmetic visit kind inner context
    { walk with node := .grouping line walk.node }
  | .unary line op operand, context =>
    if op.type ≠ .minus then ⟨false, .unary line op operand, context⟩
    else if typchkIsPlainIntegerLiteral operand then visit (.unary line op operand) kind context
    -- an unsigned kind has no `-` over more than a literal
    else if kind.info.isSigned then
      let walk := typchkVisitLiteralArithmetic visit kind operand context
      { walk with node := .unary line op walk.node }
    else ⟨false, .unary line op operand, context⟩
  | .binary line op left right isStringConcat, context =>
    if typchkIsArithmeticOperator op.type then
      let first := typchkVisitLiteralArithmetic visit kind left context
      if first.goesOn then
        let second := typchkVisitLiteralArithmetic visit kind right first.context
        { second with node := .binary line op first.node second.node isStringConcat }
      else { first with node := .binary line op first.node right isStringConcat }
    else ⟨false, .binary line op left right isStringConcat, context⟩
  | node, context => ⟨false, node, context⟩

/-- A leaf fits if it can be written exactly in `kind` or already is `kind`. -/
def leafFits (leaf : AstNode) (kind : NumberKind) : Bool :=
  match leaf with
  | .unary _ _ operand => typchkNegatedPlainIntegerFits operand kind
  | .literal _ (.number n) =>
    if n.literalIsPlainInteger then typchkPlainIntegerFits leaf kind else decide (n.kind = kind)
  | _ => false

def typchkLiteralLeafFits : LiteralLeafVisitor Unit :=
  fun leaf kind _ => ⟨leafFits leaf kind, leaf, ()⟩

def typchkSetLiteralLeafKind : LiteralLeafVisitor Unit := fun leaf kind _ =>
  match leaf with
  | .unary line op operand =>
    match operand.plainInteger? with
    | some n => ⟨true, .literal line (.number (typchkFoldNegatedPlainInteger n kind)), ()⟩
    | none => ⟨true, .unary line op operand, ()⟩
  | .literal line (.number n) =>
    if n.literalIsPlainInteger then
      ⟨true, .literal line (.number (typchkSetPlainIntegerKind n kind)), ()⟩
    else ⟨true, leaf, ()⟩
  | _ => ⟨true, leaf, ()⟩

def typchkLiteralLeafIsPlainInteger : LiteralLeafVisitor Unit := fun leaf _ _ =>
  match leaf with
  | .unary .. => ⟨true, leaf, ()⟩
  | _ => ⟨typchkIsPlainIntegerLiteral leaf, leaf, ()⟩

/-- Whether every number in literal arithmetic can be of `kind`. The leaves are left as they
are. -/
def typchkLiteralArithmeticFits (node : AstNode) (kind : NumberKind) : Bool :=
  (typchkVisitLiteralArithmetic typchkLiteralLeafFits kind node ()).goesOn

/-- Whether a value is literal arithmetic made only of plain integers. -/
def typchkIsPlainIntegerArithmetic (node : AstNode) : Bool :=
  (typchkVisitLiteralArithmetic typchkLiteralLeafIsPlainInteger .i64 node ()).goesOn

/-- Records the first leaf that doesn't fit `kind` in its context. -/
def typchkFindMisfitLeaf : LiteralLeafVisitor (Option AstNode) := fun leaf kind misfit =>
  if leafFits leaf kind then ⟨true, leaf, misfit⟩ else ⟨false, leaf, some leaf⟩

/-! ### Reports -/

structure TypchkError where
  line : ℤ
  message : String
  deriving DecidableEq, Repr

/-- Why plain integer arithmetic can't be `kind`, naming the literal and what `kind` holds. -/
def typchkReportLiteralMisfit (node : AstNode) (kind : NumberKind) : TypchkError :=
  match (typchkVisitLiteralArithmetic typchkFindMisfitLeaf kind node none).context with
  | none => ⟨node.line, kind.info.name ++ " can't be negative."⟩
  | some leaf =>
    let (sign, literal) := match leaf with
      | .unary _ _ operand => ("-", operand)
      | _ => ("", leaf)
    match literal.number? with
    | none => ⟨leaf.line, ""⟩
    | some n =>
      if !n.literalValueFits then
        ⟨leaf.line, "Integer literal is too large for any number type."⟩
      else
        let value := sign ++ toString n.literalValue.toNat ++ " "
        if kind.info.isFloat then
          let largest := toString (typchkLargestExactInteger kind)
          ⟨leaf.line, "Integer literal " ++ value ++ "can't be stored exactly in " ++
            kind.info.name ++ ", which holds whole numbers from -" ++ largest ++ " to " ++
            largest ++ " exactly."⟩
        else
          ⟨leaf.line, "Integer literal " ++ value ++ "doesn't fit in " ++ kind.info.name ++
            ", which holds " ++ toString kind.min ++ " to " ++ toString kind.max ++ "."⟩

/-! ### Where a value comes from -/

/-- What a walk of the places a value comes from leaves: whether any was handled, the value, and
what was reported. -/
structure SourceVisit where
  handled : Bool
  value : AstNode
  errors : List TypchkError := []

/-- Called on a value, or a value it comes from. -/
abbrev ValueSourceVisitor := AstNode → NumberKind → Option (AstNode × List TypchkError)

/-- Walks the places a value comes from: the value itself, or the value inside brackets, both
if/else branches and a block's last value. -/
def typchkVisitValueSources (visit : ValueSourceVisitor) (kind : NumberKind) (node : AstNode) :
    SourceVisit :=
  match visit node kind with
  | some (value, errors) => ⟨true, value, errors⟩
  | none =>
    match node with
    | .grouping line inner =>
      let walk := typchkVisitValueSources visit kind inner
      { walk with value := .grouping line walk.value }
    | .if_ line condition thenBranch none =>
      let walk := typchkVisitValueSources visit kind thenBranch
      { walk with value := .if_ line condition walk.value none }
    | .if_ line condition thenBranch (some elseBranch) =>
      let first := typchkVisitValueSources visit kind thenBranch
      let second := typchkVisitValueSources visit kind elseBranch
      ⟨first.handled || second.handled, .if_ line condition first.value (some second.value),
        first.errors ++ second.errors⟩
    | .block line stmts (some value) endLine =>
      let walk := typchkVisitValueSources visit kind value
      { walk with value := .block line stmts (some walk.value) endLine }
    | node => ⟨false, node, []⟩

def typchkSetLiteralArithmeticKind : ValueSourceVisitor := fun value kind =>
  if typchkLiteralArithmeticFits value kind then
    some ((typchkVisitLiteralArithmetic typchkSetLiteralLeafKind kind value ()).node, [])
  else none

/-- Plain integer arithmetic that is still plain didn't fit the expected kind. -/
def typchkReportPlainIntegerArithmetic : ValueSourceVisitor := fun value kind =>
  if typchkIsPlainIntegerArithmetic value then
    some (value, [typchkReportLiteralMisfit value kind])
  else none

/-- Gives the number literals in a value the number type expected of the value. The first part is
false after reporting. -/
def typchkApplyExpectedNumberType (node : Option AstNode) (expected : Ty) :
    Bool × Option AstNode × List TypchkError :=
  match node, expected with
  | some node, .number kind =>
    let set := typchkVisitValueSources typchkSetLiteralArithmeticKind kind node
    let report := typchkVisitValueSources typchkReportPlainIntegerArithmetic kind set.value
    (!report.handled, some report.value, report.errors)
  | node, _ => (true, node, [])

end KirbyLang
