import Mathlib.Data.List.Forall2
import KirbyLang.ParserKnot

/-!
# Precedence climbing

An expression that is printed with parentheses only where the table of precedences requires them is
parsed back to the tree it was printed from, up to grouping nodes.

* `Tree`, `AstNode.tree`: trees without groupings and lines, and the tree of a node;
* `Prints`: the tokens that a tree is printed as where a level of precedence is asked for;
* `ReadsLeft`: a printed tree is read as the left part of what the loop of `parse_precedence` reads;
* `printed_parses`, `not_printed_parses_call`: the round trip, and a call with 256 arguments.

Left parts are why a tree is not read by a loop of its own: the loop that has read it goes on with
the operator that follows. What follows must not bind tighter than the right edge of the tree.
-/

namespace KirbyLang

/-- The operators that group to the right. -/
inductive Logical
  | and_ | or_ | nullish
  deriving DecidableEq, Repr

/-- An expression without groupings and lines. -/
inductive Tree
  | literal (value : LiteralNode)
  | name (name : Token)
  | unary (op : Token) (operand : Tree)
  | binary (op : Token) (left right : Tree)
  | logical (op : Logical) (left right : Tree)
  | call (callee : Tree) (args : List Tree)
  | index (object index : Tree)
  | member (object : Tree) (name : Token)

mutual

/-- The tree of a node, up to grouping nodes. -/
def AstNode.tree : AstNode → Option Tree
  | .literal _ value => some (.literal value)
  | .grouping _ inner => inner.tree
  | .variable_ _ name => some (.name name)
  | .unary _ op operand => return .unary op (← operand.tree)
  | .binary _ op left right _ => return .binary op (← left.tree) (← right.tree)
  | .and_ _ left right => return .logical .and_ (← left.tree) (← right.tree)
  | .or_ _ left right => return .logical .or_ (← left.tree) (← right.tree)
  | .nullish _ left right => return .logical .nullish (← left.tree) (← right.tree)
  | .call _ callee _ args _ => return .call (← callee.tree) (← AstNode.trees args)
  | .indexGet _ object index _ => return .index (← object.tree) (← index.tree)
  | .get _ object name => return .member (← object.tree) name
  | _ => none

def AstNode.trees : List AstNode → Option (List Tree)
  | [] => some []
  | node :: nodes => return (← node.tree) :: (← AstNode.trees nodes)

end

section Trees

variable {a b : AstNode} {tree tree' : Tree}

theorem AstNode.tree_unary (line : ℤ) (op : Token) (h : a.tree = some tree) :
    (AstNode.unary line op a).tree = some (.unary op tree) := by
  change (do return Tree.unary op (← a.tree)) = _
  rw [h]
  rfl

theorem AstNode.tree_binary (line : ℤ) (op : Token) (isStringConcat : Bool)
    (h : a.tree = some tree) (h' : b.tree = some tree') :
    (AstNode.binary line op a b isStringConcat).tree = some (.binary op tree tree') := by
  change (do return Tree.binary op (← a.tree) (← b.tree)) = _
  rw [h, h']
  rfl

theorem AstNode.tree_get (line : ℤ) (name : Token) (h : a.tree = some tree) :
    (AstNode.get line a name).tree = some (.member tree name) := by
  change (do return Tree.member (← a.tree) name) = _
  rw [h]
  rfl

theorem AstNode.tree_indexGet (line : ℤ) (bracket : Token) (h : a.tree = some tree)
    (h' : b.tree = some tree') :
    (AstNode.indexGet line a b bracket).tree = some (.index tree tree') := by
  change (do return Tree.index (← a.tree) (← b.tree)) = _
  rw [h, h']
  rfl

theorem AstNode.tree_call (line : ℤ) (paren : Token) (argUsesDisplay : Bool)
    {args : List AstNode} {trees : List Tree} (h : a.tree = some tree)
    (h' : AstNode.trees args = some trees) :
    (AstNode.call line a paren args argUsesDisplay).tree = some (.call tree trees) := by
  change (do return Tree.call (← a.tree) (← AstNode.trees args)) = _
  rw [h, h']
  rfl

theorem AstNode.trees_eq {nodes : List AstNode} {trees : List Tree}
    (h : List.Forall₂ (fun node tree => node.tree = some tree) nodes trees) :
    AstNode.trees nodes = some trees := by
  induction h with
  | nil => rfl
  | @cons node tree nodes trees same _ ih =>
    change (do return (← node.tree) :: (← AstNode.trees nodes)) = _
    rw [same, ih]
    rfl

end Trees

def Logical.type : Logical → TokenType
  | .and_ => .and_
  | .or_ => .or_
  | .nullish => .questionQuestion

def Logical.precedence : Logical → Parsing.Precedence
  | .and_ => .and_
  | .or_ => .or_
  | .nullish => .or_

def Logical.infixFn : Logical → Parsing.InfixFn
  | .and_ => .and_
  | .or_ => .or_
  | .nullish => .nullish

def Logical.node : Logical → ℤ → AstNode → AstNode → AstNode
  | .and_ => .and_
  | .or_ => .or_
  | .nullish => .nullish

theorem Logical.tree_node (op : Logical) (line : ℤ) {a b : AstNode} {tree tree' : Tree}
    (h : a.tree = some tree) (h' : b.tree = some tree') :
    (op.node line a b).tree = some (.logical op tree tree') := by
  cases op <;>
  · change (do return Tree.logical _ (← a.tree) (← b.tree)) = _
    rw [h, h']
    rfl

namespace Parsing

open Consuming

variable (libc : Libc)

/-! ### Printing -/

mutual

/-- Whether every call has at most 255 arguments. -/
def argsFit : Tree → Prop
  | .literal _ | .name _ => True
  | .unary _ a | .member a _ => argsFit a
  | .binary _ a b | .logical _ a b | .index a b => argsFit a ∧ argsFit b
  | .call callee args => argsFit callee ∧ args.length ≤ 255 ∧ allArgsFit args

def allArgsFit : List Tree → Prop
  | [] => True
  | tree :: trees => argsFit tree ∧ allArgsFit trees

end

/-- The level of precedence at which a tree stands without parentheses. -/
def treePrecedence : Tree → Precedence
  | .literal _ | .name _ => .primary
  | .unary .. => .unary
  | .binary op .. => (rules op.type).precedence
  | .logical op .. => op.precedence
  | .call .. | .index .. | .member .. => .call

/-- What the level of an operator behind a tree must be below, for the operator not to go on inside
the tree. -/
def rightEdge : Tree → ℕ
  | .unary .. => Precedence.unary.toNat
  | .binary op .. => (rules op.type).precedence.toNat + 1
  | .logical op .. => op.precedence.toNat
  | _ => Precedence.primary.toNat + 1

/-- The functions that read a literal from its token. -/
def literalFns : List PrefixFn := [.string, .number, .interpString, .literal]

/-- Only the record grows. -/
def Silent (p q : Parser) : Prop := q = { p with log := q.log }

/-- A literal is read from the token, without an error. -/
def Spells (token : SourceToken) (value : LiteralNode) : Prop :=
  ∃ prefixFn ∈ literalFns, (rules token.type).prefixRule = some prefixFn ∧
    ∀ (calls : Recursion) (canAssign : Bool) (p : Parser), p.previous = token →
      ∃ q, runPrefix libc calls canAssign prefixFn p = some (.literal token.line value, q) ∧
        Silent p q

mutual

/-- The tokens of a tree where a level of precedence is asked for. -/
inductive Prints : Precedence → Tree → List SourceToken → Prop
  | bare {level : Precedence} {tree : Tree} {tokens : List SourceToken}
      (binds : level.toNat ≤ (treePrecedence tree).toNat) (writes : Writes tree tokens) :
      Prints level tree tokens
  | parens {level : Precedence} {tree : Tree} {tokens : List SourceToken}
      {opening closing : SourceToken}
      (loose : (treePrecedence tree).toNat < level.toNat) (writes : Writes tree tokens)
      (isOpen : opening.type = .leftParen) (isClose : closing.type = .rightParen) :
      Prints level tree (opening :: (tokens ++ [closing]))

/-- The tokens of a tree without parentheses around it. `and`, `or` and `??` group to the right, the
other binary operators to the left. -/
inductive Writes : Tree → List SourceToken → Prop
  | literal {token : SourceToken} {value : LiteralNode} (spells : Spells libc token value) :
      Writes (.literal value) [token]
  | unit {opening closing : SourceToken} (isOpen : opening.type = .leftParen)
      (isClose : closing.type = .rightParen) : Writes (.literal .unit) [opening, closing]
  | name {name : SourceToken} (isName : name.type = .identifier) : Writes (.name name.toToken) [name]
  | unary {op : SourceToken} {operand : Tree} {tokens : List SourceToken}
      (isOp : (rules op.type).prefixRule = some .unary) (right : Prints .unary operand tokens) :
      Writes (.unary op.toToken operand) (op :: tokens)
  | binary {op : SourceToken} {a b : Tree} {as bs : List SourceToken}
      (isOp : (rules op.type).infixRule = some .binary)
      (left : Prints (rules op.type).precedence a as)
      (right : Prints (rules op.type).precedence.next b bs) :
      Writes (.binary op.toToken a b) (as ++ op :: bs)
  | logical {op : SourceToken} {kind : Logical} {a b : Tree} {as bs : List SourceToken}
      (isOp : op.type = kind.type) (left : Prints kind.precedence.next a as)
      (right : Prints kind.precedence b bs) : Writes (.logical kind a b) (as ++ op :: bs)
  | call {opening closing : SourceToken} {callee : Tree} {args : List Tree}
      {tokens argTokens : List SourceToken} (left : Prints .call callee tokens)
      (isOpen : opening.type = .leftParen) (inside : PrintsArgs args argTokens)
      (isClose : closing.type = .rightParen) :
      Writes (.call callee args) (tokens ++ opening :: (argTokens ++ [closing]))
  | index {opening closing : SourceToken} {object index : Tree}
      {tokens indexTokens : List SourceToken} (left : Prints .call object tokens)
      (isOpen : opening.type = .leftBracket) (inside : Prints .assignment index indexTokens)
      (isClose : closing.type = .rightBracket) :
      Writes (.index object index) (tokens ++ opening :: (indexTokens ++ [closing]))
  | member {point name : SourceToken} {object : Tree} {tokens : List SourceToken}
      (left : Prints .call object tokens) (isPoint : point.type = .dot)
      (isName : name.type = .identifier) :
      Writes (.member object name.toToken) (tokens ++ [point, name])

/-- The tokens of arguments. -/
inductive PrintsArgs : List Tree → List SourceToken → Prop
  | none : PrintsArgs [] []
  | last {tree : Tree} {tokens : List SourceToken} (prints : Prints .assignment tree tokens) :
      PrintsArgs [tree] tokens
  | more {tree tree' : Tree} {trees : List Tree} {comma : SourceToken}
      {tokens rest : List SourceToken} (prints : Prints .assignment tree tokens)
      (isComma : comma.type = .comma) (others : PrintsArgs (tree' :: trees) rest) :
      PrintsArgs (tree :: tree' :: trees) (tokens ++ comma :: rest)

end

/-! ### What is ahead -/

/-- The next tokens of the parser. The end comes again and again. -/
def Ahead (tokens : List SourceToken) (p : Parser) : Prop :=
  tokens <+: p.current :: (p.tokens ++ [p.eof])

/-- No error is reported, and tokens are only taken. -/
structure Quiet (p q : Parser) : Prop where
  errors : q.errors = p.errors
  hadError : q.hadError = p.hadError
  left : q.left ≤ p.left

variable {libc}

theorem Quiet.refl (p : Parser) : Quiet p p := ⟨rfl, rfl, le_rfl⟩

theorem Quiet.trans {p q r : Parser} (h : Quiet p q) (h' : Quiet q r) : Quiet p r :=
  ⟨h'.errors.trans h.errors, h'.hadError.trans h.hadError, h'.left.trans h.left⟩

theorem Silent.quiet {p q : Parser} (h : Silent p q) : Quiet p q := by
  rw [h]
  exact ⟨rfl, rfl, le_rfl⟩

theorem Silent.ahead {p q : Parser} (h : Silent p q) {tokens : List SourceToken}
    (ahead : Ahead tokens p) : Ahead tokens q := by
  rw [h]
  exact ahead

theorem silent_emit (p : Parser) (event : Event) : Silent p (p.emit event) := rfl

theorem Ahead.current {token : SourceToken} {tokens : List SourceToken} {p : Parser}
    (ahead : Ahead (token :: tokens) p) : p.current = token :=
  (List.cons_prefix_cons.mp ahead).1.symm

/-- The parser goes on to a token without an error. -/
theorem Ahead.advance {token next : SourceToken} {tokens : List SourceToken} {p : Parser}
    (ahead : Ahead (token :: next :: tokens) p) (noError : next.type ≠ .error) :
    Ahead (next :: tokens) p.advance ∧ Quiet p p.advance := by
  have left := p.left_advance_le
  have rest : next :: tokens <+: p.tokens ++ [p.eof] := (List.cons_prefix_cons.mp ahead).2
  rcases tokens_eq : p.tokens with - | ⟨following, others⟩
  · rw [tokens_eq] at rest
    have eq : p.advance = { p with tokens := [], previous := p.current, current := p.eof } := by
      rw [Parser.advance, tokens_eq, Parser.skipErrors]
    rw [eq] at left ⊢
    exact ⟨rest.trans ⟨[p.eof], rfl⟩, rfl, rfl, left⟩
  · rw [tokens_eq, List.cons_append] at rest
    obtain ⟨rfl, further⟩ := List.cons_prefix_cons.mp rest
    have eq : p.advance = { p with tokens := others, previous := p.current, current := next } := by
      rw [Parser.advance, tokens_eq, Parser.skipErrors]
      exact if_neg noError
    rw [eq] at left ⊢
    exact ⟨List.cons_prefix_cons.mpr ⟨rfl, further⟩, rfl, rfl, left⟩

/-! ### First tokens -/

/-- A token that an expression starts with is neither the end nor an error, closes nothing and parts
nothing. -/
theorem opens_of_prefixRule {type : TokenType} (h : (rules type).prefixRule.isSome = true) :
    type ≠ .eof ∧ type ≠ .error ∧ type ≠ .rightParen := by
  cases type <;> simp [rules] at h ⊢

/-- An operator is neither the end nor an error, and not `=`. -/
theorem follows_of_infix {type : TokenType} {infixFn : InfixFn}
    (h : (rules type).infixRule = some infixFn) : type ≠ .error ∧ type ≠ .eof ∧ type ≠ .equal := by
  cases type <;> simp [rules] at h ⊢

/-- The tokens start with one that an expression starts with. -/
def Starts (tokens : List SourceToken) : Prop :=
  ∃ token rest, tokens = token :: rest ∧ (rules token.type).prefixRule.isSome = true

theorem Starts.append {tokens : List SourceToken} (h : Starts tokens) (more : List SourceToken) :
    Starts (tokens ++ more) := by
  obtain ⟨token, rest, rfl, starts⟩ := h
  exact ⟨token, rest ++ more, rfl, starts⟩

theorem starts_paren {opening : SourceToken} (isOpen : opening.type = .leftParen)
    (rest : List SourceToken) : Starts (opening :: rest) :=
  ⟨opening, rest, rfl, by rw [isOpen]; rfl⟩

theorem Writes.starts {tree : Tree} {tokens : List SourceToken} (h : Writes libc tree tokens) :
    Starts tokens := by
  induction len : tokens.length using Nat.strongRecOn generalizing tree tokens with
  | ind k ih =>
    have left : ∀ {level : Precedence} {tree : Tree} {as : List SourceToken} (bs : List SourceToken),
        Prints libc level tree as → as.length < k → Starts (as ++ bs) := by
      intro level tree as bs prints less
      cases prints with
      | bare _ writes => exact (ih as.length less writes rfl).append bs
      | parens _ _ isOpen _ => exact starts_paren isOpen _
    cases h with
    | literal spells =>
      obtain ⟨prefixFn, -, rule, -⟩ := spells
      exact ⟨_, [], rfl, by rw [rule]; rfl⟩
    | unit isOpen isClose => exact starts_paren isOpen _
    | name isName => exact ⟨_, [], rfl, by rw [isName]; rfl⟩
    | unary isOp right => exact ⟨_, _, rfl, by rw [isOp]; rfl⟩
    | binary isOp l r => exact left _ l (by simp at len; omega)
    | logical isOp l r => exact left _ l (by simp at len; omega)
    | call l isOpen inside isClose => exact left _ l (by simp at len; omega)
    | index l isOpen inside isClose => exact left _ l (by simp at len; omega)
    | member l isPoint isName => exact left _ l (by simp at len; omega)

/-- The parser goes on to the first token of an expression. -/
theorem Ahead.advance_starts {token : SourceToken} {tokens rest : List SourceToken} {p : Parser}
    (ahead : Ahead (token :: (tokens ++ rest)) p) (starts : Starts tokens) :
    Ahead (tokens ++ rest) p.advance ∧ Quiet p p.advance ∧
      p.advance.current.type ≠ .eof ∧ p.advance.current.type ≠ .rightParen := by
  obtain ⟨first, others, rfl, opens⟩ := starts
  obtain ⟨notEnd, noError, notClosing⟩ := opens_of_prefixRule opens
  obtain ⟨ahead', quiet⟩ :=
    Ahead.advance (show Ahead (token :: first :: (others ++ rest)) p from ahead) noError
  exact ⟨ahead', quiet, ahead'.current ▸ notEnd, ahead'.current ▸ notClosing⟩

theorem Prints.starts {level : Precedence} {tree : Tree} {tokens : List SourceToken}
    (h : Prints libc level tree tokens) : Starts tokens := by
  cases h with
  | bare _ writes => exact writes.starts
  | parens _ _ isOpen _ => exact starts_paren isOpen _

theorem PrintsArgs.starts {tree : Tree} {trees : List Tree} {tokens : List SourceToken}
    (h : PrintsArgs libc (tree :: trees) tokens) : Starts tokens := by
  cases h with
  | last prints => exact prints.starts
  | more prints _ _ => exact prints.starts.append _

/-! ### Left parts -/

/-- A token that is no error, and to which nothing is assigned. -/
def Follows (next : SourceToken) : Prop := next.type ≠ .error ∧ next.type ≠ .equal

/-- The tokens are read as a left part: with the prefix function of the first one, and then by the
loop, which goes on behind them with a node that meets the condition. -/
def ReadsLeft (libc : Libc) (level : Precedence) (is : AstNode → Prop) (tokens : List SourceToken)
    (next : SourceToken) : Prop :=
  ∀ depth p rest canAssign, Ahead (tokens ++ next :: rest) p → 4 * p.left ≤ depth →
    ∃ prefixFn first p', (rules p.current.type).prefixRule = some prefixFn ∧
      runPrefix libc (parser libc depth) canAssign prefixFn p.advance = some (first, p') ∧
      ∃ node q, climbLoop (parser libc depth) level canAssign (some first) p' =
          climbLoop (parser libc depth) level canAssign (some node) q ∧
        is node ∧ Quiet p q ∧ q.left < p.left ∧ Ahead (next :: rest) q

/-- The tokens are parsed at a level of precedence as a node that meets the condition. -/
def ParsesAt (libc : Libc) (level : Precedence) (is : AstNode → Prop) (tokens : List SourceToken)
    (next : SourceToken) : Prop :=
  ∀ depth p rest, Ahead (tokens ++ next :: rest) p → 4 * p.left + 1 ≤ depth →
    ∃ node q, (parser libc depth).parsePrecedence level p = some (some node, q) ∧
      is node ∧ Quiet p q ∧ Ahead (next :: rest) q

variable {is is' : AstNode → Prop}

theorem ReadsLeft.imp {level : Precedence} {tokens : List SourceToken} {next : SourceToken}
    (h : ReadsLeft libc level is tokens next) (weaker : ∀ node, is node → is' node) :
    ReadsLeft libc level is' tokens next := by
  intro depth p rest canAssign ahead enough
  obtain ⟨prefixFn, first, p', rule, starts, node, q, loop, same, others⟩ :=
    h depth p rest canAssign ahead enough
  exact ⟨prefixFn, first, p', rule, starts, node, q, loop, weaker node same, others⟩

/-- What has been read as a left part is parsed when the loop does not go on with what follows. -/
theorem ReadsLeft.parses {level : Precedence} {tokens : List SourceToken}
    {next : SourceToken} (h : ReadsLeft libc level is tokens next) (follows : Follows next)
    (stops : (rules next.type).precedence.toNat < level.toNat) :
    ParsesAt libc level is tokens next := by
  intro depth p rest ahead enough
  obtain ⟨depth, rfl⟩ := Nat.exists_eq_succ_of_ne_zero (show depth ≠ 0 by omega)
  obtain ⟨prefixFn, first, p', rule, starts, node, q, loop, same, quiet, -, ahead'⟩ :=
    h depth p rest (canAssignAt level) ahead (by omega)
  have current := ahead'.current
  have ends : climbLoop (parser libc depth) level (canAssignAt level) (some node) q =
      some (some node, q) := by
    refine branch_neg ?_
    simp only [goesOn, current, decide_eq_true_eq, not_le]
    exact stops
  have notAssigned : ¬(canAssignAt level && q.current.type == .equal) = true := by
    rw [current]
    simp [follows.2]
  refine ⟨node, q, ?_, same, quiet, ahead'⟩
  have start : (parser libc (depth + 1)).parsePrecedence level p =
      climbFrom libc (parser libc depth) level prefixFn p.advance := by
    show climb libc (parser libc depth) level p.advance = _
    rw [climb, Discipline.bind_eq (show previous p.advance = some (p.advance.previous, _) from rfl),
      Parser.previous_advance, rule]
  rw [start, climbFrom, Discipline.bind_eq starts, Discipline.bind_eq (loop.trans ends),
    Discipline.bind_eq (branch_neg notAssigned)]
  rfl

/-- What the prefix function of the first token reads. -/
theorem reads_prefix {level : Precedence} {token next : SourceToken}
    {tokens : List SourceToken} {prefixFn : PrefixFn}
    (rule : (rules token.type).prefixRule = some prefixFn)
    (run : ∀ depth p rest canAssign, Ahead (token :: (tokens ++ next :: rest)) p →
      4 * (p.advance.left + 1) ≤ depth → ∃ node q,
        runPrefix libc (parser libc depth) canAssign prefixFn p.advance = some (node, q) ∧
          is node ∧ Quiet p q ∧ q.left ≤ p.advance.left ∧ Ahead (next :: rest) q) :
    ReadsLeft libc level is (token :: tokens) next := by
  intro depth p rest canAssign ahead enough
  have current : p.current = token := ahead.current
  have notEnd : p.current.type ≠ .eof := by
    rw [current]
    exact (opens_of_prefixRule (by rw [rule]; rfl)).1
  have less := Parser.left_advance_lt notEnd
  obtain ⟨node, q, eq, same, quiet, le, ahead'⟩ := run depth p rest canAssign ahead (by omega)
  exact ⟨prefixFn, node, q, by rw [current, rule], eq, node, q, rfl, same, quiet, le.trans_lt less,
    ahead'⟩

theorem reads_literal {level : Precedence} {token next : SourceToken} {value : LiteralNode}
    (spells : Spells libc token value) (follows : Follows next) :
    ReadsLeft libc level (· = .literal token.line value) [token] next := by
  obtain ⟨prefixFn, -, rule, reads⟩ := spells
  refine reads_prefix rule fun depth p rest canAssign ahead _ => ?_
  obtain ⟨ahead', quiet⟩ := Ahead.advance ahead follows.1
  obtain ⟨q, eq, silent⟩ := reads (parser libc depth) canAssign p.advance
    (by rw [Parser.previous_advance, ahead.current])
  exact ⟨_, q, eq, rfl, quiet.trans silent.quiet, silent.quiet.left, silent.ahead ahead'⟩

theorem reads_unit {level : Precedence} {opening closing next : SourceToken}
    (isOpen : opening.type = .leftParen) (isClose : closing.type = .rightParen)
    (follows : Follows next) :
    ReadsLeft libc level (· = .literal opening.line .unit) [opening, closing] next := by
  refine reads_prefix (show (rules opening.type).prefixRule = some .grouping by rw [isOpen]; rfl)
    fun depth p rest canAssign ahead _ => ?_
  obtain ⟨ahead₁, quiet₁⟩ := Ahead.advance ahead (by rw [isClose]; decide)
  obtain ⟨ahead₂, quiet₂⟩ := Ahead.advance ahead₁ follows.1
  refine ⟨.literal opening.line .unit, p.advance.advance, ?_, rfl, quiet₁.trans quiet₂,
    quiet₂.left, ahead₂⟩
  have previous_eq : previous p.advance = some (opening, p.advance) := by
    rw [previous, Parser.previous_advance, ahead.current]
  show grouping (parser libc depth) p.advance = _
  rw [grouping, Discipline.bind_eq previous_eq, ifMatch_pos (by rw [ahead₁.current, isClose])]
  rfl

theorem reads_name {level : Precedence} {name next : SourceToken} (isName : name.type = .identifier)
    (follows : Follows next) :
    ReadsLeft libc level (· = .variable_ name.line name.toToken) [name] next := by
  refine reads_prefix (show (rules name.type).prefixRule = some .variable_ by rw [isName]; rfl)
    fun depth p rest canAssign ahead _ => ?_
  obtain ⟨ahead', quiet⟩ := Ahead.advance ahead follows.1
  have previous_eq : previous p.advance = some (name, p.advance) := by
    rw [previous, Parser.previous_advance, ahead.current]
  refine ⟨.variable_ name.line name.toToken, p.advance, ?_, rfl, quiet, le_rfl, ahead'⟩
  show variable_ (parser libc depth) canAssign p.advance = _
  rw [variable_, Discipline.bind_eq previous_eq]
  exact branch_neg (by rw [ahead'.current]; simp [follows.2])

/-- What the loop reads behind a left part. -/
theorem ReadsLeft.infix_ {level : Precedence} {as tokens : List SourceToken}
    {op next : SourceToken} (left : ReadsLeft libc level is as op) (notNone : level ≠ .none)
    (on : level.toNat ≤ (rules op.type).precedence.toNat)
    (round : ∀ depth q rest canAssign node, Ahead (op :: (tokens ++ next :: rest)) q →
      4 * (q.left + 1) ≤ depth → is node → ∃ node' r,
        infixRound (parser libc depth) canAssign (some node) q = some ((some node', false), r) ∧
          is' node' ∧ Quiet q r ∧ Ahead (next :: rest) r) :
    ReadsLeft libc level is' (as ++ op :: tokens) next := by
  intro depth p rest canAssign ahead enough
  rw [List.append_assoc] at ahead
  obtain ⟨prefixFn, first, p', rule, starts, node, q, loop, same, quiet, less, ahead'⟩ :=
    left depth p (tokens ++ next :: rest) canAssign ahead enough
  obtain ⟨node', r, run, same', quiet', ahead''⟩ :=
    round depth q rest canAssign node ahead' (by omega) same
  have below := (parser_suffices (trivialLaw libc) depth).below
    (show 4 * (q.left + 1) ≤ depth by omega)
  have holds : goesOn level q = true := by
    simpa [goesOn, ahead'.current] using on
  have step : ∃ event, climbLoop (parser libc depth) level canAssign (some node) q =
      climbLoop (parser libc depth) level canAssign (some node') (r.emit event) :=
    Law.whileLoop_step (fun _ _ => rfl)
      (below.infixRound_takes (trivialLaw libc) notNone canAssign) trivial (Nat.lt_succ_self _)
      holds run
  obtain ⟨event, step⟩ := step
  refine ⟨prefixFn, first, p', rule, starts, node', r.emit event, loop.trans step, same', ?_, ?_, ?_⟩
  · exact (quiet.trans quiet').trans (silent_emit r event).quiet
  · exact quiet'.left.trans_lt less
  · exact (silent_emit r event).ahead ahead''

/-- `binary`, `and_`, `or_` and `nullish_`, given the node that they make. -/
theorem operator_reads {level right : Precedence} {result : AstNode → Prop}
    {as bs : List SourceToken} {op next : SourceToken} {infixFn : InfixFn}
    (node : SourceToken → AstNode → AstNode → AstNode)
    (left : ReadsLeft libc level is as op) (parses : ParsesAt libc right is' bs next)
    (starts : Starts bs) (notNone : level ≠ .none)
    (on : level.toNat ≤ (rules op.type).precedence.toNat)
    (isOp : (rules op.type).infixRule = some infixFn) (notEnd : op.type ≠ .eof)
    (same : ∀ token l r, is l → is' r → result (node token l r))
    (run : ∀ (calls : Recursion) (canAssign : Bool) (p q : Parser) (l r : AstNode), p.previous = op →
      calls.parsePrecedence right p = some (some r, q) →
        ∃ token, runInfix calls (some l) canAssign infixFn p = some (some (node token l r), q)) :
    ReadsLeft libc level result (as ++ op :: bs) next := by
  refine left.infix_ notNone on fun depth q rest canAssign l ahead enough tree_l => ?_
  have current := ahead.current
  obtain ⟨ahead₁, quiet₁, -, -⟩ := ahead.advance_starts starts
  have less : q.advance.left < q.left := Parser.left_advance_lt (by rwa [current])
  obtain ⟨r, q', parsed, tree_r, quiet₂, ahead₂⟩ := parses depth q.advance rest ahead₁ (by omega)
  obtain ⟨token, eq⟩ := run (parser libc depth) canAssign q.advance q' l r
    (by rw [Parser.previous_advance, current]) parsed
  exact ⟨node token l r, q', Below.infixRound_eq (by rw [current]; exact isOp) eq,
    same token l r tree_l tree_r, quiet₁.trans quiet₂, ahead₂⟩

/-- An argument is parsed and put behind the others. -/
theorem argument_reads {tokens : List SourceToken} {next : SourceToken}
    (parses : ParsesAt libc .assignment is tokens next) {args : List AstNode}
    (room : args.length < 255) {depth : ℕ} {p : Parser} {rest : List SourceToken}
    (ahead : Ahead (tokens ++ next :: rest) p) (enough : 4 * p.left + 1 ≤ depth) :
    ∃ node q, argument (parser libc depth) args p = some (args ++ [node], q) ∧
      is node ∧ Quiet p q ∧ Ahead (next :: rest) q := by
  obtain ⟨node, q, run, same, quiet, ahead'⟩ := parses depth p rest ahead enough
  have fits : when (255 ≤ args.length) (errorAtCurrent "Can't have more than 255 arguments.") p =
      some ((), p) := by
    rw [when, decide_eq_false (by omega)]
    rfl
  have read : (do
      when (255 ≤ args.length) (errorAtCurrent "Can't have more than 255 arguments.")
      expression (parser libc depth)) p = some (some node, q) :=
    (Discipline.bind_eq fits).trans run
  have put : readItem .args args.length (do
      when (255 ≤ args.length) (errorAtCurrent "Can't have more than 255 arguments.")
      expression (parser libc depth)) p = some (some node, q.emit (.write .args args.length)) := by
    rw [readItem, Discipline.bind_eq read]
    rfl
  refine ⟨node, q.emit (.write .args args.length), ?_, same,
    ⟨quiet.errors, quiet.hadError, quiet.left⟩, (silent_emit q _).ahead ahead'⟩
  rw [argument, Discipline.bind_eq put]
  rfl

/-! ### Operators and brackets -/

theorem closes {closing : SourceToken} (isClose : closing.type = .rightParen) : Follows closing :=
  ⟨by rw [isClose]; decide, by rw [isClose]; decide⟩

/-- The tokens are parsed up to every token that ends an expression. -/
structure Reads (libc : Libc) (is : AstNode → Prop) (tokens : List SourceToken) : Prop where
  starts : Starts tokens
  parses : ∀ next, Follows next → (rules next.type).precedence = .none →
    ParsesAt libc .assignment is tokens next

/-- In parentheses an expression is read by the prefix function. -/
theorem reads_parens {level : Precedence} {tokens : List SourceToken}
    {opening closing next : SourceToken} (inside : Reads libc is tokens)
    (isOpen : opening.type = .leftParen) (isClose : closing.type = .rightParen)
    (follows : Follows next) :
    ReadsLeft libc level (fun node => ∃ inner, is inner ∧ node = .grouping opening.line inner)
      (opening :: (tokens ++ [closing])) next := by
  refine reads_prefix (show (rules opening.type).prefixRule = some .grouping by rw [isOpen]; rfl)
    fun depth p rest canAssign ahead enough => ?_
  rw [List.append_assoc] at ahead
  obtain ⟨ahead₁, quiet₁, -, notClosing⟩ := ahead.advance_starts inside.starts
  obtain ⟨node, q, run, same, quiet₂, ahead₂⟩ :=
    inside.parses closing (closes isClose) (by rw [isClose]; rfl) depth p.advance (next :: rest)
      ahead₁ (by omega)
  obtain ⟨ahead₃, quiet₃⟩ := ahead₂.advance follows.1
  have previous_eq : previous p.advance = some (opening, p.advance) := by
    rw [previous, Parser.previous_advance, ahead.current]
  refine ⟨.grouping opening.line node, q.advance, ?_, ⟨node, same, rfl⟩,
    quiet₁.trans (quiet₂.trans quiet₃), quiet₃.left.trans quiet₂.left, ahead₃⟩
  show grouping (parser libc depth) p.advance = _
  rw [grouping, Discipline.bind_eq previous_eq, ifMatch_neg notClosing,
    Discipline.bind_eq (show expression (parser libc depth) p.advance = _ from run),
    Discipline.bind_eq (ifCheck_pos
      (show q.current.type = .rightParen by rw [ahead₂.current, isClose]))]
  rfl

theorem reads_unary {level : Precedence} {op next : SourceToken} {tokens : List SourceToken}
    (isOp : (rules op.type).prefixRule = some .unary) (parses : ParsesAt libc .unary is tokens next)
    (starts : Starts tokens) :
    ReadsLeft libc level (fun node => ∃ a, is a ∧ node = .unary op.line op.toToken a)
      (op :: tokens) next := by
  refine reads_prefix isOp fun depth p rest canAssign ahead enough => ?_
  obtain ⟨ahead₁, quiet₁, -, -⟩ := ahead.advance_starts starts
  obtain ⟨node, q, run, same, quiet₂, ahead₂⟩ := parses depth p.advance rest ahead₁ (by omega)
  have previous_eq : previous p.advance = some (op, p.advance) := by
    rw [previous, Parser.previous_advance, ahead.current]
  refine ⟨.unary op.line op.toToken node, q, ?_, ⟨node, same, rfl⟩, quiet₁.trans quiet₂,
    quiet₂.left, ahead₂⟩
  show Parsing.unary (parser libc depth) p.advance = _
  rw [Parsing.unary, Discipline.bind_eq previous_eq, Discipline.bind_eq run]
  rfl

theorem reads_binary {level : Precedence} {op next : SourceToken} {as bs : List SourceToken}
    (isOp : (rules op.type).infixRule = some .binary) (left : ReadsLeft libc level is as op)
    (right : ParsesAt libc (rules op.type).precedence.next is' bs next) (starts : Starts bs)
    (notNone : level ≠ .none) (binds : level.toNat ≤ (rules op.type).precedence.toNat) :
    ReadsLeft libc level
      (fun node => ∃ a b, is a ∧ is' b ∧ node = .binary op.line op.toToken a b false)
      (as ++ op :: bs) next := by
  obtain ⟨-, notEnd, -⟩ := follows_of_infix isOp
  refine operator_reads (fun _ l r => .binary op.line op.toToken l r false) left right starts
    notNone binds isOp notEnd (fun _ l r is_l is_r => ⟨l, r, is_l, is_r, rfl⟩)
    fun calls canAssign p q l r previous_eq run => ⟨op, ?_⟩
  subst previous_eq
  have eq : Parsing.binary calls (some l) p =
      some (.binary p.previous.line p.previous.toToken l r false, q) := by
    rw [Parsing.binary, Discipline.bind_eq (show previous p = some (p.previous, p) from rfl),
      Discipline.bind_eq run]
    rfl
  exact Discipline.bind_eq eq

/-- The tokens of arguments, one condition for each of them. -/
inductive ReadsArgs (libc : Libc) : List (AstNode → Prop) → List SourceToken → Prop
  | none : ReadsArgs libc [] []
  | last {is : AstNode → Prop} {tokens : List SourceToken} (reads : Reads libc is tokens) :
      ReadsArgs libc [is] tokens
  | more {is is' : AstNode → Prop} {others : List (AstNode → Prop)} {comma : SourceToken}
      {tokens rest : List SourceToken} (reads : Reads libc is tokens)
      (isComma : comma.type = .comma) (further : ReadsArgs libc (is' :: others) rest) :
      ReadsArgs libc (is :: is' :: others) (tokens ++ comma :: rest)

theorem ReadsArgs.starts {tokens : List SourceToken} {others : List (AstNode → Prop)}
    (h : ReadsArgs libc (is :: others) tokens) : Starts tokens := by
  cases h with
  | last reads => exact reads.starts
  | more reads _ _ => exact reads.starts.append _

/-- What the conditions hold of. -/
def Meet (conditions : List (AstNode → Prop)) (nodes : List AstNode) : Prop :=
  List.Forall₂ (fun node is => is node) nodes conditions

/-- The arguments of a call are read up to the closing parenthesis. -/
theorem ReadsArgs.loop {conditions : List (AstNode → Prop)} {tokens : List SourceToken}
    (reads : ReadsArgs libc conditions tokens) (some_ : conditions ≠ []) {closing : SourceToken}
    (isClose : closing.type = .rightParen) {depth : ℕ} {p : Parser} {rest : List SourceToken}
    {args : List AstNode} (room : args.length + conditions.length ≤ 255)
    (ahead : Ahead (tokens ++ closing :: rest) p) (enough : 4 * (p.left + 1) ≤ depth) :
    ∃ nodes q, commaLoop .arguments (argument (parser libc depth)) args p = some (args ++ nodes, q) ∧
      Meet conditions nodes ∧ Quiet p q ∧ Ahead (closing :: rest) q := by
  have items : ∀ args, (trivialLaw libc).Returns .start .any (p.left + 1)
      (argument (parser libc depth) args) :=
    ((parser_suffices (trivialLaw libc) depth).below enough).readsItem_argument.returns
      fun _ _ => trivial
  induction reads generalizing p args with
  | none => exact absurd rfl some_
  | last reads =>
    have roomFor : args.length < 255 := by simp at room; omega
    obtain ⟨node, q, run, same, quiet, ahead'⟩ :=
      argument_reads (reads.parses closing (closes isClose) (by rw [isClose]; rfl)) roomFor ahead
        (show 4 * p.left + 1 ≤ depth by omega)
    obtain ⟨event, last⟩ : ∃ event, commaLoop .arguments (argument (parser libc depth)) args p =
        some (args ++ [node], q.emit event) :=
      Law.commaLoop_last items trivial (Nat.lt_succ_self _) run
        (by rw [ahead'.current, isClose]; decide)
    exact ⟨[node], q.emit event, last, .cons same .nil, quiet.trans (silent_emit q event).quiet,
      (silent_emit q event).ahead ahead'⟩
  | @more is is' others comma as bs reads isComma further ih =>
    rw [List.append_assoc, List.cons_append] at ahead
    simp only [List.length_cons] at room
    have parts : Follows comma := ⟨by rw [isComma]; decide, by rw [isComma]; decide⟩
    have roomFor : args.length < 255 := by omega
    obtain ⟨node, q, run, same, quiet, ahead₁⟩ :=
      argument_reads (reads.parses comma parts (by rw [isComma]; rfl)) roomFor ahead
        (show 4 * p.left + 1 ≤ depth by omega)
    obtain ⟨event, step⟩ : ∃ event, commaLoop .arguments (argument (parser libc depth)) args p =
        commaLoop .arguments (argument (parser libc depth)) (args ++ [node])
          (q.advance.emit event) :=
      Law.commaLoop_step items trivial (Nat.lt_succ_self _) run (by rw [ahead₁.current, isComma])
    obtain ⟨ahead₂, quiet₂, -, -⟩ := ahead₁.advance_starts further.starts
    have fewerLeft : (q.advance.emit event).left ≤ p.left := quiet₂.left.trans quiet.left
    have room' : (args ++ [node]).length + (is' :: others).length ≤ 255 := by simp; omega
    obtain ⟨nodes, r, loop, sames, quiet₃, ahead₃⟩ :=
      ih (by simp) room' ((silent_emit q.advance event).ahead ahead₂) (by omega)
        (fun args => (items args).mono (by omega))
    refine ⟨node :: nodes, r, ?_, .cons same sames,
      (quiet.trans quiet₂).trans ((silent_emit q.advance event).quiet.trans quiet₃), ahead₃⟩
    rw [step, loop, List.append_assoc]
    rfl

theorem reads_call {level : Precedence} {opening closing next : SourceToken}
    {conditions : List (AstNode → Prop)} {tokens argTokens : List SourceToken}
    (left : ReadsLeft libc level is tokens opening) (isOpen : opening.type = .leftParen)
    (inside : ReadsArgs libc conditions argTokens) (few : conditions.length ≤ 255)
    (isClose : closing.type = .rightParen) (notNone : level ≠ .none)
    (binds : level.toNat ≤ Precedence.call.toNat) (follows : Follows next) :
    ReadsLeft libc level (fun node => ∃ callee args, is callee ∧ Meet conditions args ∧
        node = .call opening.line callee closing.toToken args false)
      (tokens ++ opening :: (argTokens ++ [closing])) next := by
  have rule : rules opening.type = ⟨some .grouping, some .call, .call⟩ := by rw [isOpen]; rfl
  refine left.infix_ notNone (by rwa [rule]) fun depth q rest canAssign node ahead enough same => ?_
  rw [List.append_assoc] at ahead
  have isOpening := ahead.current
  have less : q.advance.left < q.left :=
    Parser.left_advance_lt (by rw [isOpening, isOpen]; decide)
  have read : ∃ nodes q', ifCheck .rightParen (pure [])
        (itemLoop .args .arguments (argument (parser libc depth))) q.advance = some (nodes, q') ∧
      Meet conditions nodes ∧ Quiet q q' ∧ Ahead (closing :: next :: rest) q' := by
    rcases conditions with - | ⟨first, others⟩
    · cases inside
      obtain ⟨ahead₁, quiet₁⟩ := Ahead.advance ahead (by rw [isClose]; decide)
      exact ⟨[], q.advance, ifCheck_pos (by rw [ahead₁.current, isClose]), .nil, quiet₁, ahead₁⟩
    · obtain ⟨ahead₁, quiet₁, -, notClosing⟩ := ahead.advance_starts inside.starts
      obtain ⟨nodes, q', loop, sames, quiet₂, ahead₂⟩ :=
        inside.loop (by simp) isClose
          (show ([] : List AstNode).length + (first :: others).length ≤ 255 by simpa using few)
          ahead₁ (show 4 * (q.advance.left + 1) ≤ depth by omega)
      refine ⟨nodes, q'.emit (.list .args nodes.length), (ifCheck_neg notClosing).trans ?_, sames,
        (quiet₁.trans quiet₂).trans (silent_emit q' _).quiet, (silent_emit q' _).ahead ahead₂⟩
      rw [itemLoop, Discipline.bind_eq loop]
      rfl
  obtain ⟨nodes, q', run, sames, quiet, ahead'⟩ := read
  obtain ⟨ahead'', quiet'⟩ := ahead'.advance follows.1
  have eq : Parsing.call (parser libc depth) (some node) q.advance =
      some (.call opening.line node closing.toToken nodes false, q'.advance) := by
    have previous_eq : previous q.advance = some (opening, q.advance) := by
      rw [previous, Parser.previous_advance, isOpening]
    rw [Parsing.call, Discipline.bind_eq previous_eq, Discipline.bind_eq run,
      Discipline.bind_eq (show current q' = some (closing, q') by rw [current, ahead'.current]),
      Discipline.bind_eq (ifCheck_pos
        (show q'.current.type = .rightParen by rw [ahead'.current, isClose]))]
    rfl
  exact ⟨_, q'.advance,
    Below.infixRound_eq
      (show (rules q.current.type).infixRule = some .call by rw [isOpening, rule])
      (Discipline.bind_eq eq),
    ⟨node, nodes, same, sames, rfl⟩, quiet.trans quiet', ahead''⟩

/-! ### The round trip -/

/-- The binary operators that group to the left. -/
theorem binary_precedence {type : TokenType} (h : (rules type).infixRule = some .binary) :
    Precedence.equality.toNat ≤ (rules type).precedence.toNat ∧
      (rules type).precedence.next.toNat = (rules type).precedence.toNat + 1 ∧
      (rules type).precedence.toNat < Precedence.unary.toNat := by
  cases type <;> simp [rules, Precedence.toNat, Precedence.next] at h ⊢

theorem Writes.precedence_pos {tree : Tree} {tokens : List SourceToken} (h : Writes libc tree tokens) :
    Precedence.assignment.toNat ≤ (treePrecedence tree).toNat := by
  cases h with
  | binary isOp => exact le_trans (by decide) (binary_precedence isOp).1
  | @logical _ kind =>
    cases kind <;> simp [treePrecedence, Logical.precedence, Precedence.toNat]
  | _ => simp [treePrecedence, Precedence.toNat]

/-- Trees with fewer tokens are read as left parts. -/
def RoundTrips (libc : Libc) (size : ℕ) : Prop :=
  ∀ {tree : Tree} {tokens : List SourceToken}, Writes libc tree tokens → tokens.length < size →
    argsFit tree → ∀ {level : Precedence} {next : SourceToken}, level ≠ .none →
    level.toNat ≤ (treePrecedence tree).toNat → Follows next →
    (rules next.type).precedence.toNat < rightEdge tree →
    ReadsLeft libc level (·.tree = some tree) tokens next

theorem lt_rightEdge {tree : Tree} {level n : ℕ} (binds : level ≤ (treePrecedence tree).toNat)
    (less : n < level) : n < rightEdge tree := by
  cases tree <;> simp only [treePrecedence, rightEdge, Precedence.toNat] at binds ⊢ <;> omega

/-- What stands before a postfix operator or a binary operator that groups to the left. -/
theorem lt_rightEdge_left {tree : Tree} {n : ℕ} (binds : n ≤ (treePrecedence tree).toNat)
    (aboveAnd : Precedence.and_.toNat < n) (notUnary : n ≠ Precedence.unary.toNat) :
    n < rightEdge tree := by
  cases tree with
  | logical op a b =>
    have : op.precedence.toNat ≤ Precedence.and_.toNat := by cases op <;> decide
    simp only [treePrecedence] at binds
    omega
  | _ =>
    simp only [treePrecedence, rightEdge, Precedence.toNat] at binds notUnary ⊢
    omega

section RoundTrip

variable {size : ℕ} (ih : RoundTrips libc size)

include ih

/-- A tree with fewer tokens is read as an expression. -/
theorem RoundTrips.reads {tree : Tree} {tokens : List SourceToken}
    (writes : Writes libc tree tokens) (fewer : tokens.length < size) (fit : argsFit tree) :
    Reads libc (·.tree = some tree) tokens where
  starts := writes.starts
  parses := fun next follows ends => by
    have stops : (rules next.type).precedence.toNat < Precedence.assignment.toNat := by
      rw [ends]
      decide
    exact ReadsLeft.parses (ih writes fewer fit (by decide) writes.precedence_pos follows
      (lt_rightEdge writes.precedence_pos stops)) follows stops

/-- A printed tree is read as a left part when the operator behind it does not go on inside it. -/
theorem RoundTrips.left {level level' : Precedence} {tree : Tree} {tokens : List SourceToken}
    (prints : Prints libc level' tree tokens) (fewer : tokens.length < size) (fit : argsFit tree)
    (notNone : level ≠ .none) (le : level.toNat ≤ level'.toNat) {next : SourceToken}
    (follows : Follows next)
    (edge : level'.toNat ≤ (treePrecedence tree).toNat →
      (rules next.type).precedence.toNat < rightEdge tree) :
    ReadsLeft libc level (·.tree = some tree) tokens next := by
  cases prints with
  | bare binds writes => exact ih writes fewer fit notNone (le.trans binds) follows (edge binds)
  | parens _ writes isOpen isClose =>
    have inside := ih.reads writes (by simp at fewer; omega) fit
    exact (reads_parens inside isOpen isClose follows).imp fun node ⟨_, same, eq⟩ => eq ▸ same

/-- A printed tree is parsed at its level when what follows binds looser. -/
theorem RoundTrips.parsesAt {level : Precedence} {tree : Tree} {tokens : List SourceToken}
    (prints : Prints libc level tree tokens) (fewer : tokens.length < size) (fit : argsFit tree)
    (notNone : level ≠ .none) {next : SourceToken} (follows : Follows next)
    (stops : (rules next.type).precedence.toNat < level.toNat) :
    ParsesAt libc level (·.tree = some tree) tokens next :=
  (ih.left prints fewer fit notNone le_rfl follows fun binds => lt_rightEdge binds stops).parses
    follows stops

/-- An expression, printed with parentheses or without. -/
theorem RoundTrips.reads_prints {tree : Tree} {tokens : List SourceToken}
    (prints : Prints libc .assignment tree tokens) (fewer : tokens.length < size)
    (fit : argsFit tree) : Reads libc (·.tree = some tree) tokens where
  starts := prints.starts
  parses := fun _ follows ends =>
    ih.parsesAt prints fewer fit (by decide) follows (by rw [ends]; decide)

theorem RoundTrips.args {trees : List Tree} {tokens : List SourceToken}
    (prints : PrintsArgs libc trees tokens) (fewer : tokens.length < size)
    (fit : allArgsFit trees) :
    ReadsArgs libc (trees.map fun tree node => node.tree = some tree) tokens := by
  induction trees generalizing tokens with
  | nil =>
    cases prints
    exact .none
  | cons tree trees ihTrees =>
    cases prints with
    | last prints => exact .last (RoundTrips.reads_prints ih prints fewer fit.1)
    | more prints isComma others =>
      simp only [List.length_append, List.length_cons] at fewer
      exact .more (RoundTrips.reads_prints ih prints (by omega) fit.1) isComma
        (ihTrees others (by omega) fit.2)

/-! ### One constructor more -/

theorem RoundTrips.unary {level : Precedence} {op next : SourceToken} {operand : Tree}
    {tokens : List SourceToken} (isOp : (rules op.type).prefixRule = some .unary)
    (prints : Prints libc .unary operand tokens) (fewer : tokens.length < size)
    (fit : argsFit operand) (follows : Follows next)
    (edge : (rules next.type).precedence.toNat < Precedence.unary.toNat) :
    ReadsLeft libc level (·.tree = some (.unary op.toToken operand)) (op :: tokens) next :=
  (reads_unary isOp (RoundTrips.parsesAt ih prints fewer fit (by decide) follows edge)
    prints.starts).imp fun node ⟨_, same, eq⟩ => eq ▸ AstNode.tree_unary _ _ same

theorem RoundTrips.binary {level : Precedence} {op next : SourceToken} {a b : Tree}
    {as bs : List SourceToken} (isOp : (rules op.type).infixRule = some .binary)
    (left : Prints libc (rules op.type).precedence a as)
    (right : Prints libc (rules op.type).precedence.next b bs) (fewer : as.length + bs.length < size)
    (fit : argsFit a ∧ argsFit b) (notNone : level ≠ .none)
    (binds : level.toNat ≤ (rules op.type).precedence.toNat) (follows : Follows next)
    (edge : (rules next.type).precedence.toNat < (rules op.type).precedence.toNat + 1) :
    ReadsLeft libc level (·.tree = some (.binary op.toToken a b)) (as ++ op :: bs) next := by
  obtain ⟨aboveAnd, next_eq, belowUnary⟩ := binary_precedence isOp
  obtain ⟨notError, notEnd, notEqual⟩ := follows_of_infix isOp
  have leftReads : ReadsLeft libc level (·.tree = some a) as op :=
    RoundTrips.left ih left (by omega) fit.1 notNone binds ⟨notError, notEqual⟩
      fun binds' => lt_rightEdge_left binds' (lt_of_lt_of_le (by decide) aboveAnd) belowUnary.ne
  have rightParses : ParsesAt libc (rules op.type).precedence.next (·.tree = some b) bs next :=
    RoundTrips.parsesAt ih right (by omega) fit.2 (Precedence.next_ne_none _) follows
      (by rw [next_eq]; exact edge)
  exact (reads_binary isOp leftReads rightParses right.starts notNone binds).imp
    fun node ⟨_, _, same, same', eq⟩ => eq ▸ AstNode.tree_binary _ _ _ same same'

theorem RoundTrips.logical {level : Precedence} {op next : SourceToken} {kind : Logical} {a b : Tree}
    {as bs : List SourceToken} (isOp : op.type = kind.type)
    (left : Prints libc kind.precedence.next a as) (right : Prints libc kind.precedence b bs)
    (fewer : as.length + bs.length < size) (fit : argsFit a ∧ argsFit b) (notNone : level ≠ .none)
    (binds : level.toNat ≤ kind.precedence.toNat) (follows : Follows next)
    (edge : (rules next.type).precedence.toNat < kind.precedence.toNat) :
    ReadsLeft libc level (·.tree = some (.logical kind a b)) (as ++ op :: bs) next := by
  have rule : rules op.type = ⟨none, some kind.infixFn, kind.precedence⟩ := by
    rw [isOp]
    cases kind <;> rfl
  have next_eq : kind.precedence.next.toNat = kind.precedence.toNat + 1 := by cases kind <;> rfl
  have rule' : (rules op.type).infixRule = some kind.infixFn := by rw [rule]
  have precedence_eq : (rules op.type).precedence = kind.precedence := by rw [rule]
  obtain ⟨notError, notEnd, notEqual⟩ := follows_of_infix rule'
  have leftReads : ReadsLeft libc level (·.tree = some a) as op :=
    RoundTrips.left ih left (by omega) fit.1 notNone (by omega) ⟨notError, notEqual⟩
      fun binds' => lt_rightEdge binds' (by rw [precedence_eq]; omega)
  have rightParses : ParsesAt libc kind.precedence (·.tree = some b) bs next :=
    RoundTrips.parsesAt ih right (by omega) fit.2 (by cases kind <;> decide) follows edge
  refine operator_reads (fun token l r => kind.node token.line l r) leftReads
    rightParses right.starts notNone (by rwa [precedence_eq]) rule' notEnd
    (fun token l r => kind.tree_node token.line)
    fun calls canAssign p q l r previous_eq run => ⟨q.previous, ?_⟩
  · have eq : ∀ node : ℤ → AstNode → AstNode → AstNode, (do
        let right ← calls.parsePrecedence kind.precedence
        return node (← previous).line (nodeOf (some l)) (nodeOf right) : Parse AstNode) p =
          some (node q.previous.line l r, q) := fun node => by
      rw [Discipline.bind_eq run]
      rfl
    cases kind with
    | and_ => exact Discipline.bind_eq (eq .and_)
    | or_ => exact Discipline.bind_eq (eq .or_)
    | nullish => exact Discipline.bind_eq (eq .nullish)

/-- A pair of brackets behind what they are applied to. -/
theorem RoundTrips.callee {level : Precedence} {callee : Tree} {tokens : List SourceToken}
    {op : SourceToken} {infixFn : InfixFn} (isOp : (rules op.type).infixRule = some infixFn)
    (isPostfix : (rules op.type).precedence = .call)
    (prints : Prints libc .call callee tokens) (fewer : tokens.length < size) (fit : argsFit callee)
    (notNone : level ≠ .none) (binds : level.toNat ≤ Precedence.call.toNat) :
    ReadsLeft libc level (·.tree = some callee) tokens op := by
  obtain ⟨notError, -, notEqual⟩ := follows_of_infix isOp
  refine RoundTrips.left ih prints fewer fit notNone binds ⟨notError, notEqual⟩ fun binds' => ?_
  rw [isPostfix]
  exact lt_rightEdge_left binds' (by decide) (by decide)

theorem RoundTrips.index {level : Precedence} {opening closing next : SourceToken}
    {object index : Tree} {tokens indexTokens : List SourceToken}
    (left : Prints libc .call object tokens) (isOpen : opening.type = .leftBracket)
    (inside : Prints libc .assignment index indexTokens) (isClose : closing.type = .rightBracket)
    (fewer : tokens.length + indexTokens.length < size) (fit : argsFit object ∧ argsFit index)
    (notNone : level ≠ .none) (binds : level.toNat ≤ Precedence.call.toNat) (follows : Follows next) :
    ReadsLeft libc level (·.tree = some (.index object index))
      (tokens ++ opening :: (indexTokens ++ [closing])) next := by
  have rule : rules opening.type = ⟨some .arrayLiteral, some .index, .call⟩ := by rw [isOpen]; rfl
  have inner : ParsesAt libc .assignment (·.tree = some index) indexTokens closing :=
    (RoundTrips.reads_prints ih inside (by omega) fit.2).parses closing
      ⟨by rw [isClose]; decide, by rw [isClose]; decide⟩ (by rw [isClose]; rfl)
  refine (RoundTrips.callee ih (by rw [rule]) (by rw [rule]) left (by omega) fit.1 notNone
    binds).infix_ notNone (by rwa [rule]) fun depth q rest canAssign node ahead enough same => ?_
  rw [List.append_assoc] at ahead
  obtain ⟨ahead₁, quiet₁, -, -⟩ := ahead.advance_starts inside.starts
  have less : q.advance.left < q.left :=
    Parser.left_advance_lt (by rw [ahead.current, isOpen]; decide)
  obtain ⟨at_, q', run, same', quiet₂, ahead₂⟩ :=
    inner depth q.advance (next :: rest) ahead₁ (by omega)
  obtain ⟨ahead₃, quiet₃⟩ := ahead₂.advance follows.1
  let result : AstNode := .indexGet q.advance.previous.line node at_ q.advance.previous.toToken
  have eq : index_ (parser libc depth) (some node) canAssign q.advance =
      some (result, q'.advance) := by
    rw [index_, Discipline.bind_eq (show previous q.advance = some (q.advance.previous, _) from rfl),
      Discipline.bind_eq (show expression (parser libc depth) q.advance = _ from run),
      Discipline.bind_eq (ifCheck_pos
        (show q'.current.type = .rightBracket by rw [ahead₂.current, isClose]))]
    exact branch_neg (by rw [ahead₃.current]; simp [follows.2])
  exact ⟨result, q'.advance,
    Below.infixRound_eq
      (show (rules q.current.type).infixRule = some .index by rw [ahead.current, rule])
      (Discipline.bind_eq eq),
    AstNode.tree_indexGet _ _ same same', quiet₁.trans (quiet₂.trans quiet₃), ahead₃⟩

theorem RoundTrips.member {level : Precedence} {point name next : SourceToken} {object : Tree}
    {tokens : List SourceToken} (left : Prints libc .call object tokens)
    (isPoint : point.type = .dot) (isName : name.type = .identifier) (fewer : tokens.length < size)
    (fit : argsFit object) (notNone : level ≠ .none) (binds : level.toNat ≤ Precedence.call.toNat)
    (follows : Follows next) :
    ReadsLeft libc level (·.tree = some (.member object name.toToken)) (tokens ++ [point, name])
      next := by
  have rule : rules point.type = ⟨none, some .dot, .call⟩ := by rw [isPoint]; rfl
  refine (RoundTrips.callee ih (by rw [rule]) (by rw [rule]) left fewer fit notNone
    binds).infix_ notNone (by rwa [rule]) fun depth q rest canAssign node ahead enough same => ?_
  obtain ⟨ahead₁, quiet₁⟩ := Ahead.advance ahead (by rw [isName]; decide)
  obtain ⟨ahead₂, quiet₂⟩ := Ahead.advance ahead₁ follows.1
  have previous_eq : previous q.advance.advance = some (name, q.advance.advance) := by
    rw [previous, Parser.previous_advance, ahead₁.current]
  have eq : dot (parser libc depth) (some node) canAssign q.advance =
      some (.get name.line node name.toToken, q.advance.advance) := by
    rw [dot, Discipline.bind_eq (ifCheck_pos
        (show q.advance.current.type = .identifier by rw [ahead₁.current, isName])),
      Discipline.bind_eq previous_eq]
    exact branch_neg (by rw [ahead₂.current]; simp [follows.2])
  exact ⟨.get name.line node name.toToken, q.advance.advance,
    Below.infixRound_eq
      (show (rules q.current.type).infixRule = some .dot by rw [ahead.current, rule])
      (Discipline.bind_eq eq),
    AstNode.tree_get _ _ same, quiet₁.trans quiet₂, ahead₂⟩

theorem RoundTrips.call {level : Precedence} {opening closing next : SourceToken} {callee : Tree}
    {args : List Tree} {tokens argTokens : List SourceToken} (left : Prints libc .call callee tokens)
    (isOpen : opening.type = .leftParen) (inside : PrintsArgs libc args argTokens)
    (isClose : closing.type = .rightParen) (fewer : tokens.length + argTokens.length < size)
    (fit : argsFit callee ∧ args.length ≤ 255 ∧ allArgsFit args) (notNone : level ≠ .none)
    (binds : level.toNat ≤ Precedence.call.toNat) (follows : Follows next) :
    ReadsLeft libc level (·.tree = some (.call callee args))
      (tokens ++ opening :: (argTokens ++ [closing])) next := by
  have rule : rules opening.type = ⟨some .grouping, some .call, .call⟩ := by rw [isOpen]; rfl
  have leftReads : ReadsLeft libc level (·.tree = some callee) tokens opening :=
    RoundTrips.callee ih (by rw [rule]) (by rw [rule]) left (by omega) fit.1 notNone binds
  have insideReads := RoundTrips.args ih inside (by omega) fit.2.2
  refine (reads_call leftReads isOpen insideReads (by simpa using fit.2.1) isClose notNone binds
    follows).imp fun node ⟨_, _, same, sames, eq⟩ => ?_
  rw [eq]
  have sameTrees := (List.forall₂_map_right_iff 
    (R := fun (node : AstNode) (is : AstNode → Prop) => is node)).1 sames
  exact AstNode.tree_call _ _ _ same (AstNode.trees_eq sameTrees)

/-- Trees with one token more. -/
theorem RoundTrips.succ : RoundTrips libc (size + 1) := by
  intro tree tokens writes fewer fit level next notNone binds follows edge
  cases writes with
  | literal spells => exact (reads_literal spells follows).imp fun node eq => eq ▸ rfl
  | unit isOpen isClose => exact (reads_unit isOpen isClose follows).imp fun node eq => eq ▸ rfl
  | name isName => exact (reads_name isName follows).imp fun node eq => eq ▸ rfl
  | unary isOp right => exact RoundTrips.unary ih isOp right (by simpa using fewer) fit follows edge
  | binary isOp left right =>
    exact RoundTrips.binary ih isOp left right (by simp at fewer; omega) fit notNone binds follows edge
  | logical isOp left right =>
    exact RoundTrips.logical ih isOp left right (by simp at fewer; omega) fit notNone binds follows
      edge
  | call left isOpen inside isClose =>
    exact RoundTrips.call ih left isOpen inside isClose (by simp at fewer; omega) fit notNone binds
      follows
  | index left isOpen inside isClose =>
    exact RoundTrips.index ih left isOpen inside isClose (by simp at fewer; omega) fit notNone binds
      follows
  | member left isPoint isName =>
    exact RoundTrips.member ih left isPoint isName (by simp at fewer; omega) fit notNone binds follows

end RoundTrip

/-- Trees of every size are read as left parts. -/
theorem roundTrips (libc : Libc) (size : ℕ) : RoundTrips libc size := by
  induction size with
  | zero =>
    intro tree tokens writes fewer
    omega
  | succ size ih => exact RoundTrips.succ ih

/-- A printed tree is parsed back to itself up to groupings, without an error, when what follows
does not go on an expression and no call in it has more than 255 arguments. -/
theorem printed_parses (libc : Libc) {tree : Tree} {tokens rest : List SourceToken}
    {next : SourceToken} {depth : ℕ} {p : Parser} (prints : Prints libc .assignment tree tokens)
    (fit : argsFit tree) (follows : Follows next) (ends : (rules next.type).precedence = .none)
    (ahead : Ahead (tokens ++ next :: rest) p) (enough : 4 * p.left + 1 ≤ depth) :
    ∃ node q, expression (parser libc depth) p = some (some node, q) ∧ node.tree = some tree ∧
      q.errors = p.errors ∧ q.hadError = p.hadError ∧ Ahead (next :: rest) q := by
  obtain ⟨node, q, run, same, quiet, ahead'⟩ :=
    (RoundTrips.reads_prints (roundTrips libc (tokens.length + 1)) prints (Nat.lt_succ_self _)
      fit).parses next follows ends depth p rest ahead enough
  exact ⟨node, q, run, same, quiet.errors, quiet.hadError, ahead'⟩

/-! ### Samples -/

/-- The parser before the first token of a stream. -/
theorem ahead_initParser {token : SourceToken} {tokens : List SourceToken} {eof : SourceToken}
    (isEof : eof.type = .eof) (noError : token.type ≠ .error) :
    Ahead (token :: (tokens ++ [eof])) (initParser ⟨token :: tokens, eof, isEof⟩) :=
  have start : Ahead (eof :: token :: (tokens ++ [eof]))
      { tokens := token :: tokens, eof, isEof, previous := eof, current := eof } := List.prefix_rfl
  (start.advance noError).1

def word (type : TokenType) (text : String) : SourceToken :=
  ⟨type, ascii text, (ascii text).length, 1⟩

/-- `-a.b and (c or d)`. -/
def sampleTokens : List SourceToken :=
  [word .minus "-", word .identifier "a", word .dot ".", word .identifier "b", word .and_ "and",
    word .leftParen "(", word .identifier "c", word .or_ "or", word .identifier "d",
    word .rightParen ")"]

def sampleTree : Tree :=
  .logical .and_
    (.unary (word .minus "-").toToken
      (.member (.name (word .identifier "a").toToken) (word .identifier "b").toToken))
    (.logical .or_ (.name (word .identifier "c").toToken) (.name (word .identifier "d").toToken))

theorem prints_name (libc : Libc) (level : Precedence) (text : String) :
    Prints libc level (.name (word .identifier text).toToken) [word .identifier text] :=
  .bare (by cases level <;> simp [treePrecedence, Precedence.toNat]) (.name rfl)

/-- The parentheses of the sample are required. -/
theorem prints_sample (libc : Libc) : Prints libc .assignment sampleTree sampleTokens := by
  have member : Writes libc
      (.member (.name (word .identifier "a").toToken) (word .identifier "b").toToken)
      ([word .identifier "a"] ++ [word .dot ".", word .identifier "b"]) :=
    .member (prints_name libc .call "a") rfl rfl
  have disjunction : Writes libc
      (.logical .or_ (.name (word .identifier "c").toToken) (.name (word .identifier "d").toToken))
      ([word .identifier "c"] ++ word .or_ "or" :: [word .identifier "d"]) :=
    .logical rfl (prints_name libc _ "c") (prints_name libc _ "d")
  have looser : (treePrecedence (.logical .or_ (.name (word .identifier "c").toToken)
      (.name (word .identifier "d").toToken))).toNat < Precedence.and_.toNat := by decide
  have inParens := Prints.parens looser disjunction
    (show (word .leftParen "(").type = .leftParen from rfl)
    (show (word .rightParen ")").type = .rightParen from rfl)
  exact .bare (by decide) (.logical (show (word .and_ "and").type = Logical.and_.type from rfl)
    (.bare (by decide) (.unary rfl (.bare (by decide) member))) inParens)

theorem printed_parses_sample : ∃ node q,
    expression (parser plainLibc 41) (initParser ⟨sampleTokens, word .eof "", rfl⟩) =
        some (some node, q) ∧
      node.tree = some sampleTree ∧ q.errors = [] ∧ q.hadError = false ∧
      Ahead [word .eof ""] q := by
  have ahead : Ahead (sampleTokens ++ [word .eof ""])
      (initParser ⟨sampleTokens, word .eof "", rfl⟩) := ahead_initParser rfl (by decide)
  exact printed_parses plainLibc (prints_sample plainLibc) (by simp [sampleTree, argsFit])
    ⟨by decide, by decide⟩ rfl ahead (by decide +kernel)

/-- The tokens of a list of names. -/
def nameTokens (n : ℕ) : List SourceToken :=
  word .identifier "a" :: (List.replicate n [word .comma ",", word .identifier "a"]).flatten

theorem prints_names (libc : Libc) (n : ℕ) :
    PrintsArgs libc (List.replicate (n + 1) (.name (word .identifier "a").toToken))
      (nameTokens n) := by
  induction n with
  | zero => exact .last (prints_name libc .assignment "a")
  | succ n ih => exact .more (prints_name libc .assignment "a") rfl ih

/-- A call with 256 arguments is printed, but not parsed without an error. -/
theorem not_printed_parses_call :
    ¬ ∀ (tree : Tree) (tokens rest : List SourceToken) (next : SourceToken) (depth : ℕ) (p : Parser),
      Prints plainLibc .assignment tree tokens → Follows next →
      (rules next.type).precedence = .none → Ahead (tokens ++ next :: rest) p →
      4 * p.left + 1 ≤ depth →
      ∃ node q, expression (parser plainLibc depth) p = some (some node, q) ∧
        node.tree = some tree ∧ q.hadError = p.hadError := by
  intro parses
  let tokens : List SourceToken :=
    [word .identifier "f"] ++ word .leftParen "(" :: (nameTokens 255 ++ [word .rightParen ")"])
  let p : Parser := initParser ⟨tokens, word .eof "", rfl⟩
  have writes : Writes plainLibc (.call (.name (word .identifier "f").toToken)
      (List.replicate 256 (.name (word .identifier "a").toToken))) tokens :=
    .call (prints_name plainLibc .call "f") rfl (prints_names plainLibc 255) rfl
  have ahead : Ahead (tokens ++ [word .eof ""]) p := ahead_initParser rfl (by decide)
  obtain ⟨node, q, eq, -, hadError⟩ := parses _ tokens [] (word .eof "") (4 * p.left + 1) p
    (.bare (by decide) writes) ⟨by decide, by decide⟩ rfl ahead le_rfl
  have reported : ((expression (parser plainLibc (4 * p.left + 1)) p).map (·.2.hadError)) =
      some true := by
    decide +kernel
  rw [eq] at reported
  have noError : p.hadError = false := by decide +kernel
  simp [hadError, noError] at reported

end Parsing

end KirbyLang
