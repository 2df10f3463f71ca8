import KirbyLang.PrecedenceClimbing

/-!
# What a cast covers

`a op b as T` casts the result of an arithmetic operation. The table of precedences puts `as` at the
level of a term, so that behind a comparison only the right operand is cast.

* `Operand`: names, literals, calls and parenthesized expressions;
* `reads_cast`: a type behind `as` is read by the loop;
* `cast_covers_iff`: the whole operation is cast exactly behind arithmetic operators, and a unary
  expression always;
* `not_cast_covers_comparison`: `a < b as u8`.
-/

namespace KirbyLang.Parsing

open Consuming

variable {libc : Libc}

/-! ### Operands -/


/-- The tokens of an operand. What stands in brackets is any expression. -/
inductive Operand (libc : Libc) : AstNode → List SourceToken → Prop
  | literal {token : SourceToken} {value : LiteralNode} (spells : Spells libc token value) :
      Operand libc (.literal token.line value) [token]
  | unit {opening closing : SourceToken} (isOpen : opening.type = .leftParen)
      (isClose : closing.type = .rightParen) :
      Operand libc (.literal opening.line .unit) [opening, closing]
  | name {name : SourceToken} (isName : name.type = .identifier) :
      Operand libc (.variable_ name.line name.toToken) [name]
  | parens {opening closing : SourceToken} {inner : AstNode} {tokens : List SourceToken}
      (inside : Reads libc (· = inner) tokens) (isOpen : opening.type = .leftParen)
      (isClose : closing.type = .rightParen) :
      Operand libc (.grouping opening.line inner) (opening :: (tokens ++ [closing]))
  | call {opening closing : SourceToken} {callee : AstNode} {args : List AstNode}
      {tokens argTokens : List SourceToken} (left : Operand libc callee tokens)
      (isOpen : opening.type = .leftParen)
      (inside : ReadsArgs libc (args.map fun arg => (· = arg)) argTokens)
      (few : args.length ≤ 255) (isClose : closing.type = .rightParen) :
      Operand libc (.call opening.line callee closing.toToken args false)
        (tokens ++ opening :: (argTokens ++ [closing]))


theorem Operand.starts {node : AstNode} {tokens : List SourceToken}
    (h : Operand libc node tokens) : Starts tokens := by
  induction h with
  | literal spells =>
    obtain ⟨prefixFn, -, rule, -⟩ := spells
    exact ⟨_, [], rfl, by rw [rule]; rfl⟩
  | unit isOpen _ => exact starts_paren isOpen _
  | name isName => exact ⟨_, [], rfl, by rw [isName]; rfl⟩
  | parens _ isOpen _ => exact starts_paren isOpen _
  | call _ _ _ _ _ ih => exact ih.append _

theorem meet_map_eq {args nodes : List AstNode} (h : Meet (args.map fun arg => (· = arg)) nodes) :
    nodes = args := by
  have same := (List.forall₂_map_right_iff
    (R := fun (node : AstNode) (is : AstNode → Prop) => is node)).1 h
  exact List.forall₂_eq_eq_eq.subst (motive := fun R => R nodes args) same

/-- An operand is read as a left part whatever operator or end follows. -/
theorem Operand.reads {node : AstNode} {tokens : List SourceToken} (h : Operand libc node tokens)
    {level : Precedence} (notNone : level ≠ .none) (binds : level.toNat ≤ Precedence.call.toNat)
    {next : SourceToken} (follows : Follows next) :
    ReadsLeft libc level (· = node) tokens next := by
  induction h generalizing next with
  | literal spells => exact reads_literal spells follows
  | unit isOpen isClose => exact reads_unit isOpen isClose follows
  | name isName => exact reads_name isName follows
  | parens inside isOpen isClose =>
    refine (reads_parens inside isOpen isClose follows).imp fun node => ?_
    rintro ⟨_, rfl, eq⟩
    exact eq
  | call left isOpen inside few isClose ih =>
    have opens : Follows _ := ⟨by rw [isOpen]; decide, by rw [isOpen]; decide⟩
    refine (reads_call (ih opens) isOpen inside (by simpa using few) isClose notNone binds
      follows).imp fun node => ?_
    rintro ⟨_, _, rfl, sames, eq⟩
    rw [eq, meet_map_eq sames]

/-! ### Casts -/

/-- The tokens are read as the type up to what follows. -/
structure ReadsType (type : TypeNode) (tokens : List SourceToken) (next : SourceToken) : Prop where
  starts : ∃ token rest, tokens = token :: rest ∧ token.type ≠ .error
  parses : ∀ p rest, Ahead (tokens ++ next :: rest) p → ∃ q, parseType p = some (type, q) ∧
    Quiet p q ∧ Ahead (next :: rest) q

variable {is is' : AstNode → Prop}

/-- A type behind `as` is read by the loop. -/
theorem reads_cast {level : Precedence} {cast next : SourceToken} {type : TypeNode}
    {tokens typeTokens : List SourceToken} (left : ReadsLeft libc level is tokens cast)
    (isCast : cast.type = .as_) (reads : ReadsType type typeTokens next) (notNone : level ≠ .none)
    (binds : level.toNat ≤ Precedence.term.toNat) :
    ReadsLeft libc level
      (fun node => ∃ a, is a ∧ node = .cast cast.line a type cast.toToken .f64)
      (tokens ++ cast :: typeTokens) next := by
  have rule : rules cast.type = ⟨none, some .cast, .term⟩ := by rw [isCast]; rfl
  refine left.infix_ notNone (by rwa [rule]) fun depth q rest canAssign node ahead enough same => ?_
  have isAs := ahead.current
  obtain ⟨first, others, tokens_eq, noError⟩ := reads.starts
  rw [tokens_eq, List.cons_append] at ahead
  obtain ⟨ahead₁, quiet₁⟩ := ahead.advance noError
  rw [← List.cons_append, ← tokens_eq] at ahead₁
  obtain ⟨q', run, quiet₂, ahead₂⟩ := reads.parses q.advance rest ahead₁
  have previous_eq : previous q.advance = some (cast, q.advance) := by
    rw [previous, Parser.previous_advance, isAs]
  have eq : cast_ (some node) q.advance =
      some (.cast cast.line node type cast.toToken .f64, q') := by
    rw [cast_, Discipline.bind_eq previous_eq, Discipline.bind_eq run]
    rfl
  exact ⟨_, q', Below.infixRound_eq (by rw [isAs, rule]) (Discipline.bind_eq eq),
    ⟨node, same, rfl⟩, quiet₁.trans quiet₂, ahead₂⟩

/-- The name of a type is a type, when no arguments follow. -/
theorem reads_namedType {name next : SourceToken} (isName : name.type = .identifier)
    (noError : next.type ≠ .error) (noArguments : next.type ≠ .leftBracket) :
    ReadsType (.named name.line name.toToken []) [name] next where
  starts := ⟨name, [], rfl, by rw [isName]; decide⟩
  parses := fun p rest ahead => by
    have isFirst := ahead.current
    obtain ⟨ahead', quiet⟩ := Ahead.advance ahead noError
    have previous_eq : previous p.advance = some (name, p.advance) := by
      rw [previous, Parser.previous_advance, isFirst]
    have none_eq : ifMatch .leftBracket (do
        let args ← commaLoop .typeArguments (fun types => return types ++ [← typeRounds p.left]) []
        consume .rightBracket "Expect ']' after generic arguments."
        return args) (pure []) p.advance = some ([], p.advance) :=
      ifMatch_neg (by rw [ahead'.current]; exact noArguments)
    refine ⟨p.advance, ?_, quiet, ahead'⟩
    show typeExpression (typeRounds p.left) p = _
    rw [typeExpression, ifMatch_neg (by rw [isFirst, isName]; decide),
      ifMatch_neg (by rw [isFirst, isName]; decide), namedType,
      Discipline.bind_eq (ifCheck_pos (show p.current.type = .identifier by rw [isFirst, isName])),
      Discipline.bind_eq previous_eq, Discipline.bind_eq none_eq]
    rfl

/-! ### What is cast -/

/-- The operators of arithmetic. -/
def arithmetic : List TokenType := [.plus, .minus, .star, .slash, .modulo]

theorem mem_arithmetic_iff {type : TokenType} (h : (rules type).infixRule = some .binary) :
    type ∈ arithmetic ↔ Precedence.term.toNat ≤ (rules type).precedence.toNat := by
  cases type <;> simp [rules, arithmetic, Precedence.toNat] at h ⊢

section

variable {a b : AstNode} {as bs typeTokens : List SourceToken} {op cast next : SourceToken}
  {type : TypeNode}

theorem follows_cast (isCast : cast.type = .as_) : Follows cast :=
  ⟨by rw [isCast]; decide, by rw [isCast]; decide⟩

/-- Behind an arithmetic operation the whole of it is cast. -/
theorem casts_operation (isOp : (rules op.type).infixRule = some .binary)
    (tight : Precedence.term.toNat ≤ (rules op.type).precedence.toNat) (ha : Operand libc a as)
    (hb : Operand libc b bs) (isCast : cast.type = .as_) (reads : ReadsType type typeTokens next) :
    ReadsLeft libc .assignment
      (· = .cast cast.line (.binary op.line op.toToken a b false) type cast.toToken .f64)
      (as ++ op :: (bs ++ cast :: typeTokens)) next := by
  obtain ⟨aboveAnd, next_eq, belowUnary⟩ := binary_precedence isOp
  obtain ⟨notError, -, notEqual⟩ := follows_of_infix isOp
  have unary_le : Precedence.unary.toNat ≤ Precedence.call.toNat := by decide
  have left : ReadsLeft libc .assignment (· = a) as op :=
    ha.reads (by decide) (by decide) ⟨notError, notEqual⟩
  have right : ParsesAt libc (rules op.type).precedence.next (· = b) bs cast :=
    (hb.reads (Precedence.next_ne_none _) (by omega) (follows_cast isCast)).parses
      (follows_cast isCast) (by
        have castLevel : (rules cast.type).precedence = .term := by rw [isCast]; rfl
        rw [castLevel, next_eq]
        omega)
  have operation := reads_binary isOp left right hb.starts (by decide)
    (le_trans (by decide) aboveAnd)
  have whole := reads_cast operation isCast reads (by decide) (by decide)
  rw [List.append_assoc, List.cons_append] at whole
  refine whole.imp fun node => ?_
  rintro ⟨_, ⟨_, _, rfl, rfl, rfl⟩, eq⟩
  exact eq

/-- Behind a comparison only the right operand is cast. -/
theorem casts_operand (isOp : (rules op.type).infixRule = some .binary)
    (loose : (rules op.type).precedence.toNat < Precedence.term.toNat) (ha : Operand libc a as)
    (hb : Operand libc b bs) (isCast : cast.type = .as_) (reads : ReadsType type typeTokens next)
    (follows : Follows next) (ends : (rules next.type).precedence = .none) :
    ReadsLeft libc .assignment
      (· = .binary op.line op.toToken a (.cast cast.line b type cast.toToken .f64) false)
      (as ++ op :: (bs ++ cast :: typeTokens)) next := by
  obtain ⟨aboveAnd, next_eq, belowUnary⟩ := binary_precedence isOp
  obtain ⟨notError, -, notEqual⟩ := follows_of_infix isOp
  have term_le : Precedence.term.toNat ≤ Precedence.call.toNat := by decide
  have left : ReadsLeft libc .assignment (· = a) as op :=
    ha.reads (by decide) (by decide) ⟨notError, notEqual⟩
  have operand := hb.reads (Precedence.next_ne_none (rules op.type).precedence) (by omega)
    (follows_cast isCast)
  have right := (reads_cast operand isCast reads (Precedence.next_ne_none _) (by omega)).parses
    follows (by rw [ends, next_eq]; exact Nat.succ_pos _)
  refine (reads_binary isOp left right (hb.starts.append _) (by decide)
    (le_trans (by decide) aboveAnd)).imp fun node => ?_
  rintro ⟨_, _, rfl, ⟨_, rfl, rfl⟩, eq⟩
  exact eq

/-- A unary expression is cast as a whole. -/
theorem casts_unary (isOp : (rules op.type).prefixRule = some .unary) (ha : Operand libc a as)
    (isCast : cast.type = .as_) (reads : ReadsType type typeTokens next) :
    ReadsLeft libc .assignment
      (· = .cast cast.line (.unary op.line op.toToken a) type cast.toToken .f64)
      (op :: (as ++ cast :: typeTokens)) next := by
  have castLevel : (rules cast.type).precedence = .term := by rw [isCast]; rfl
  have operand : ParsesAt libc .unary (· = a) as cast :=
    (ha.reads (by decide) (by decide) (follows_cast isCast)).parses (follows_cast isCast)
      (by rw [castLevel]; decide)
  refine (reads_cast (reads_unary isOp operand ha.starts) isCast reads (by decide) (by decide)).imp
    fun node => ?_
  rintro ⟨_, ⟨_, rfl, rfl⟩, eq⟩
  exact eq

end

/-- From here an expression is parsed as the node, without an error and up to the rest. -/
def Yields (libc : Libc) (depth : ℕ) (p : Parser) (node : AstNode) (rest : List SourceToken) : Prop :=
  ∃ q, expression (parser libc depth) p = some (some node, q) ∧ Quiet p q ∧ Ahead rest q

theorem ReadsLeft.yields {node : AstNode} {tokens rest : List SourceToken} {next : SourceToken}
    (h : ReadsLeft libc .assignment (· = node) tokens next) (follows : Follows next)
    (ends : (rules next.type).precedence = .none) {depth : ℕ} {p : Parser}
    (ahead : Ahead (tokens ++ next :: rest) p) (enough : 4 * p.left + 1 ≤ depth) :
    Yields libc depth p node (next :: rest) := by
  obtain ⟨_, q, run, rfl, quiet, ahead'⟩ :=
    h.parses follows (by rw [ends]; decide) depth p rest ahead enough
  exact ⟨q, run, quiet, ahead'⟩

/-- `a op b as T` casts `a op b` exactly where the operator is one of arithmetic, and behind a unary
operator the unary expression is cast. -/
theorem cast_covers_iff (libc : Libc) {a : AstNode} {as typeTokens rest : List SourceToken}
    {cast next : SourceToken} {type : TypeNode} {depth : ℕ} {p : Parser} (ha : Operand libc a as)
    (isCast : cast.type = .as_) (reads : ReadsType type typeTokens next) (follows : Follows next)
    (ends : (rules next.type).precedence = .none) (enough : 4 * p.left + 1 ≤ depth) :
    (∀ op b bs, (rules op.type).infixRule = some .binary → Operand libc b bs →
      Ahead (as ++ op :: (bs ++ cast :: typeTokens) ++ next :: rest) p →
      (Yields libc depth p (.cast cast.line (.binary op.line op.toToken a b false) type
          cast.toToken .f64) (next :: rest) ↔ op.type ∈ arithmetic)) ∧
    ∀ op, (rules op.type).prefixRule = some .unary →
      Ahead (op :: (as ++ cast :: typeTokens) ++ next :: rest) p →
      Yields libc depth p (.cast cast.line (.unary op.line op.toToken a) type cast.toToken .f64)
        (next :: rest) := by
  constructor
  · intro op b bs isOp hb ahead
    rw [mem_arithmetic_iff isOp]
    constructor
    · rintro ⟨q, run, -⟩
      by_contra loose
      obtain ⟨q', run', -⟩ := (casts_operand isOp (not_le.mp loose) ha hb isCast reads follows
        ends).yields follows ends ahead enough
      rw [run] at run'
      cases run'
    · intro tight
      exact (casts_operation isOp tight ha hb isCast reads).yields follows ends ahead enough
  · intro op isOp ahead
    exact (casts_unary isOp ha isCast reads).yields follows ends ahead enough

/-! ### Samples -/

def nameNode (text : String) : AstNode :=
  .variable_ 1 (word .identifier text).toToken

theorem operand_name (libc : Libc) (text : String) :
    Operand libc (nameNode text) [word .identifier text] := by
  have isName : (word .identifier text).type = .identifier := rfl
  exact .name isName

/-- `a op b as u8`. -/
def castTokens (op : SourceToken) : List SourceToken :=
  [word .identifier "a"] ++ op :: ([word .identifier "b"] ++
    word .as_ "as" :: [word .identifier "u8"])

theorem reads_u8 : ReadsType (.named 1 (word .identifier "u8").toToken [])
    [word .identifier "u8"] (word .eof "") := by
  have isName : (word .identifier "u8").type = .identifier := rfl
  exact reads_namedType isName (by decide) (by decide)

def castParser (op : SourceToken) : Parser := initParser ⟨castTokens op, word .eof "", rfl⟩

def castNode (expr : AstNode) : AstNode :=
  .cast 1 expr (.named 1 (word .identifier "u8").toToken []) (word .as_ "as").toToken .f64

theorem ahead_castParser (op : SourceToken) :
    Ahead (castTokens op ++ [word .eof ""]) (castParser op) :=
  ahead_initParser rfl (by decide)

theorem cast_covers_sum : Yields plainLibc 21 (castParser (word .plus "+"))
      (castNode (.binary 1 (word .plus "+").toToken (nameNode "a") (nameNode "b") false))
      [word .eof ""] :=
  ((cast_covers_iff plainLibc (operand_name plainLibc "a") rfl reads_u8 ⟨by decide, by decide⟩ rfl
    (by decide)).1 (word .plus "+") (nameNode "b") _ rfl (operand_name plainLibc "b")
    (ahead_castParser _)).mpr (by decide)

/-- `a < b as u8`. -/
theorem not_cast_covers_comparison :
    ¬ ∀ (op : SourceToken) (a b type : List SourceToken) (left right : AstNode) (target : TypeNode)
      (cast next : SourceToken) (rest : List SourceToken) (depth : ℕ) (p : Parser),
      (rules op.type).infixRule = some .binary → Operand plainLibc left a →
      Operand plainLibc right b → cast.type = .as_ → ReadsType target type next → Follows next →
      (rules next.type).precedence = .none → Ahead (a ++ op :: (b ++ cast :: type) ++ next :: rest) p →
      4 * p.left + 1 ≤ depth →
      Yields plainLibc depth p (.cast cast.line (.binary op.line op.toToken left right false) target
        cast.toToken .f64) (next :: rest) := by
  intro covers
  obtain ⟨q, run, -⟩ := covers (word .less "<") _ _ _ _ _ _ (word .as_ "as") (word .eof "") [] 21
    (castParser (word .less "<")) rfl (operand_name plainLibc "a") (operand_name plainLibc "b") rfl
    reads_u8 ⟨by decide, by decide⟩ rfl (ahead_castParser _) (by decide)
  have isOp : (rules (word .less "<").type).infixRule = some .binary := rfl
  have isCast : (word .as_ "as").type = .as_ := rfl
  obtain ⟨q', run', -⟩ := (casts_operand isOp (by decide) (operand_name plainLibc "a")
    (operand_name plainLibc "b") isCast reads_u8 ⟨by decide, by decide⟩ rfl).yields
    ⟨by decide, by decide⟩ rfl (ahead_castParser _) (show _ ≤ 21 by decide)
  rw [run] at run'
  cases run'

end KirbyLang.Parsing
