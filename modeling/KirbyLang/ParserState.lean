import KirbyLang.Lib.Consuming
import KirbyLang.NumberOps
import KirbyLang.ScanRuns

/-!
# The state of the parser

The parser of `parser.c` with its token stream (`token_stream.c`), the operations that move it, the
loops, and the table of precedences. An action returns nothing when the code would not come back
from it.

* `TokenStream`, `Parser`, `Parse`: tokens with their end, the state, the actions;
* `advance`, `ifMatch`, `match_`, `consume`, the errors;
* `runLoop`, `whileLoop`, `commaLoop`, `itemLoop`: the loops, which write down what each round does;
* `rules`: the prefix function, infix function and precedence of each token type.

`Event` is a record of what the code does and does not keep: the writes to its fixed-size buffers,
the lengths of the lists whose items go there, the rounds of its loops and the number literals it
makes.
-/

namespace KirbyLang.Parsing

open Consuming

/-- The tokens of a source before its end, and the end, which is read again and again. -/
structure TokenStream where
  tokens : List SourceToken
  eof : SourceToken
  isEof : eof.type = .eof

/-- What `lex` fills for a source. -/
def lexStream (source : Bytes) : TokenStream where
  tokens := (lex source).dropLast
  eof := (lex source).getLast (by
    obtain ⟨tokens, last, -, -, eq⟩ := lex_scans source
    simp [eq])
  isEof := by
    obtain ⟨tokens, last, -, -, eq⟩ := lex_scans source
    simp [eq, Scanner.makeToken]

/-- The buffers of fixed size. -/
inductive Buffer
  | args | params | paramTypes | genericParams | fields
  deriving DecidableEq, Repr

/-- `AstNode *argBuf[256]` and the like. -/
def Buffer.size : Buffer → ℕ
  | .args | .params | .paramTypes | .genericParams | .fields => 256

/-- The lists whose items are put in buffers while they are read. -/
inductive ItemList
  | args | params | genericParams
  deriving DecidableEq, Repr

/-- The buffers that an item of a list goes to. -/
def ItemList.buffers : ItemList → List Buffer
  | .args => [.args]
  | .params => [.params, .paramTypes]
  | .genericParams => [.genericParams]

/-- The loops of the parser. -/
inductive LoopKind
  | declarations | synchronize | precedence | interpolation | items | arguments | fields | block
  | parameters | genericParams | typeParams | typeArguments | structBody | implBody | traitBody
  deriving DecidableEq, Repr

inductive Event
  | write (buffer : Buffer) (index : ℕ)
  /-- A list has been read, with this many items. -/
  | list (list : ItemList) (length : ℕ)
  /-- A round of a loop: how much was left before and after it, and whether another one follows. -/
  | round (loop : LoopKind) (before after : ℕ) (again : Bool)
  | number (token : SourceToken) (literal : NumberLiteral)
  deriving DecidableEq, Repr

/-- What `parse_error_at` prints. -/
structure ParseError where
  token : SourceToken
  message : Bytes
  deriving DecidableEq, Repr

structure Parser where
  /-- The tokens not read yet, without the end. -/
  tokens : List SourceToken
  eof : SourceToken
  isEof : eof.type = .eof
  previous : SourceToken
  current : SourceToken
  hadError : Bool := false
  panicMode : Bool := false
  /-- How many `{ }` bodies we are inside. -/
  blockDepth : ℤ := 0
  /-- Whether an array type may name its length with a placeholder such as `[T; N]`. -/
  allowLengthPlaceholders : Bool := false
  errors : List ParseError := []
  log : List Event := []

abbrev Parse (α : Type) := StateT Parser Option α

namespace Parser

/-- How many tokens before the end are not behind the parser. -/
def left (p : Parser) : ℕ := p.tokens.length + if p.current.type = .eof then 0 else 1

/-- `parse_error_at`: while panicking, errors are suppressed. -/
def errorAt (p : Parser) (token : SourceToken) (message : Bytes) : Parser :=
  if p.panicMode then p
  else { p with panicMode := true, hadError := true, errors := p.errors ++ [⟨token, message⟩] }

/-- The loop of `advance`: error tokens are reported and skipped. -/
def skipErrors : List SourceToken → Parser → Parser
  | [], p => { p with tokens := [], current := p.eof }
  | token :: rest, p =>
    let p := { p with tokens := rest, current := token }
    if token.type = .error then skipErrors rest (p.errorAt token token.start) else p

def advance (p : Parser) : Parser := skipErrors p.tokens { p with previous := p.current }

/-- `tsPeek`: the token after the current one. -/
def peek (p : Parser) : SourceToken := p.tokens.headD p.eof

def emit (p : Parser) (event : Event) : Parser := { p with log := event :: p.log }

end Parser

def advance : Parse Unit := modify Parser.advance

def previous : Parse SourceToken := fun p => some (p.previous, p)

def current : Parse SourceToken := fun p => some (p.current, p)

def emit (event : Event) : Parse Unit := modify (Parser.emit · event)

/-- `if (condition) yes else no`. -/
def branch {α : Type} (condition : Parser → Bool) (yes no : Parse α) : Parse α := fun p =>
  if condition p then yes p else no p

/-- A branch on whether the current token has this type. -/
def ifCheck {α : Type} (type : TokenType) (yes no : Parse α) : Parse α :=
  branch (·.current.type == type) yes no

/-- A branch on whether the current token has this type; if it has, it is passed. -/
def ifMatch {α : Type} (type : TokenType) (yes no : Parse α) : Parse α :=
  ifCheck type (do advance; yes) no

section Branches

variable {α : Type} {condition : Parser → Bool} {type : TokenType} {yes no : Parse α} {p : Parser}

theorem branch_pos (h : condition p = true) : branch condition yes no p = yes p := if_pos h

theorem branch_neg (h : ¬condition p = true) : branch condition yes no p = no p := if_neg h

theorem ifCheck_pos (h : p.current.type = type) : ifCheck type yes no p = yes p :=
  branch_pos (beq_iff_eq.mpr h)

theorem ifCheck_neg (h : p.current.type ≠ type) : ifCheck type yes no p = no p :=
  branch_neg (mt beq_iff_eq.mp h)

theorem ifMatch_pos (h : p.current.type = type) : ifMatch type yes no p = yes p.advance :=
  ifCheck_pos h

theorem ifMatch_neg (h : p.current.type ≠ type) : ifMatch type yes no p = no p := ifCheck_neg h

end Branches

/-- Advances to the next token if the current one has this type. -/
def match_ (type : TokenType) : Parse Bool := ifMatch type (pure true) (pure false)

def errorAtCurrent (message : String) : Parse Unit :=
  modify fun p => p.errorAt p.current (ascii message)

/-- `parse_error`: at the previous token. -/
def parseErrorBytes (message : Bytes) : Parse Unit := modify fun p => p.errorAt p.previous message

def parseError (message : String) : Parse Unit := parseErrorBytes (ascii message)

def consume (type : TokenType) (message : String) : Parse Unit :=
  ifCheck type advance (errorAtCurrent message)

/-- Reads an item of a list with this many before it, and puts it in a buffer. -/
def readItem {α : Type} (buffer : Buffer) (count : ℕ) (item : Parse α) : Parse α := do
  let item ← item
  emit (.write buffer count)
  return item

/-- An action that is only done in some cases. -/
def when (condition : Bool) (action : Parse Unit) : Parse Unit :=
  if condition then action else pure ()

/-! ### Loops -/

section Loops

variable {σ : Type}

/-- A round of a loop, which is written down. -/
def recorded (kind : LoopKind) (body : σ → Parse (σ × Bool)) (state : σ) : Parse (σ × Bool) := do
  let before := (← get).left
  let (state, again) ← body state
  emit (.round kind before (← get).left again)
  return (state, again)

/-- A loop whose body says whether another round follows, with a round for each token that is left
and one more. -/
def runLoop (kind : LoopKind) (body : σ → Parse (σ × Bool)) (state : σ) : Parse σ := fun p =>
  loop (recorded kind body) (p.left + 1) state p

/-- A round of `while`: the condition says whether another one follows, if the body has not broken
out. -/
def whileRound (condition : Parser → Bool) (body : σ → Parse (σ × Bool)) (state : σ) :
    Parse (σ × Bool) := do
  let (state, stop) ← body state
  return (state, !stop && condition (← get))

/-- `while (condition) body`, where the body says whether it breaks out. -/
def whileLoop (kind : LoopKind) (condition : Parser → Bool) (body : σ → Parse (σ × Bool))
    (state : σ) : Parse σ :=
  branch condition
    (runLoop kind (whileRound condition body) state)
    (pure state)

/-- An item, and whether a comma follows it. -/
def commaRound (item : σ → Parse σ) (state : σ) : Parse (σ × Bool) := do
  let state ← item state
  return (state, ← match_ .comma)

/-- `do item while (match(p, TOKEN_COMMA))`. -/
def commaLoop (kind : LoopKind) (item : σ → Parse σ) (state : σ) : Parse σ :=
  runLoop kind (commaRound item) state

/-- `do item while (match(p, TOKEN_COMMA))` for a list of items in buffers, whose length is written
down when it has been read. -/
def itemLoop {α : Type} (list : ItemList) (kind : LoopKind) (item : List α → Parse (List α)) :
    Parse (List α) := do
  let items ← commaLoop kind item []
  emit (.list list items.length)
  return items

end Loops

/-! ### Recovery -/

/-- The tokens that a statement or a body's end starts with. -/
def boundaries : List TokenType :=
  [.struct_, .impl, .trait_, .fun_, .var, .let_, .pub, .for_, .if_, .while_, .return_, .rightBrace]

/-- Whether the parser is before a statement boundary. -/
def beforeBoundary (p : Parser) : Bool :=
  p.current.type != .eof && p.previous.type != .semicolon && !boundaries.contains p.current.type

def discardToken (_ : Unit) : Parse (Unit × Bool) := do
  advance
  return ((), false)

/-- Discards tokens until a statement boundary is found. -/
def synchronize : Parse Unit := do
  modify fun p => { p with panicMode := false }
  whileLoop .synchronize beforeBoundary discardToken ()

def synchronizeIfPanicking : Parse Unit := branch (·.panicMode) synchronize (pure ())

/-- Recover from a parser error when it occurs inside a delimited block. -/
def recoverInBraceBody : Parse Unit :=
  branch (·.panicMode)
    (do
      let rejected ← current
      synchronize
      branch (fun p => p.current.type != .eof && p.current.type != .rightBrace &&
          p.current.start == rejected.start)
        (do advance; synchronize) (pure ()))
    (pure ())

/-- Consumes an identifier token that names a new declaration. -/
def consumeDeclarationIdentifier (message : String) : Parse Unit := do
  consume .identifier message
  let name ← previous
  when (name.text.head? == some (byte '@')) (parseError "'@' is a reserved character.")

/-! ### Precedence -/

inductive Precedence
  | none | assignment | or_ | and_ | equality | comparison | term | factor | unary | call | primary
  deriving DecidableEq, Repr

/-- The enumeration's number for a precedence. -/
def Precedence.toNat : Precedence → ℕ
  | none => 0 | assignment => 1 | or_ => 2 | and_ => 3 | equality => 4 | comparison => 5
  | term => 6 | factor => 7 | unary => 8 | call => 9 | primary => 10

/-- The level above. -/
def Precedence.next : Precedence → Precedence
  | none => assignment | assignment => or_ | or_ => and_ | and_ => equality
  | equality => comparison | comparison => term | term => factor | factor => unary
  | unary => call | call => primary | primary => primary

theorem Precedence.next_ne_none (precedence : Precedence) : precedence.next ≠ none := by
  cases precedence <;> decide

inductive PrefixFn
  | grouping | blockExpr | arrayLiteral | unary | variable_ | string | number | interpString
  | interpolation | literal | lambda | ifExpr | self_
  deriving DecidableEq, Repr

inductive InfixFn
  | call | struct_ | index | dot | binary | and_ | or_ | nullish | cast
  deriving DecidableEq, Repr

structure ParseRule where
  prefixRule : Option PrefixFn := none
  infixRule : Option InfixFn := none
  precedence : Precedence := .none
  deriving DecidableEq, Repr

def rules : TokenType → ParseRule
  | .leftParen => ⟨some .grouping, some .call, .call⟩
  | .leftBrace => ⟨some .blockExpr, some .struct_, .call⟩
  | .leftBracket => ⟨some .arrayLiteral, some .index, .call⟩
  | .dot => ⟨none, some .dot, .call⟩
  | .minus => ⟨some .unary, some .binary, .term⟩
  | .plus => ⟨none, some .binary, .term⟩
  | .slash => ⟨none, some .binary, .factor⟩
  | .star => ⟨none, some .binary, .factor⟩
  | .bang => ⟨some .unary, none, .none⟩
  | .bangEqual => ⟨none, some .binary, .equality⟩
  | .equalEqual => ⟨none, some .binary, .equality⟩
  | .greater => ⟨none, some .binary, .comparison⟩
  | .greaterEqual => ⟨none, some .binary, .comparison⟩
  | .less => ⟨none, some .binary, .comparison⟩
  | .lessEqual => ⟨none, some .binary, .comparison⟩
  | .identifier => ⟨some .variable_, none, .none⟩
  | .string => ⟨some .string, none, .none⟩
  | .number => ⟨some .number, none, .none⟩
  | .numberSuffixed => ⟨some .number, none, .none⟩
  | .interpString => ⟨some .interpString, none, .none⟩
  | .interpStart => ⟨some .interpolation, none, .none⟩
  | .and_ => ⟨none, some .and_, .and_⟩
  | .false_ => ⟨some .literal, none, .none⟩
  | .fun_ => ⟨some .lambda, none, .none⟩
  | .if_ => ⟨some .ifExpr, none, .none⟩
  | .nil => ⟨some .literal, none, .none⟩
  | .or_ => ⟨none, some .or_, .or_⟩
  | .questionQuestion => ⟨none, some .nullish, .or_⟩
  | .self_ => ⟨some .self_, none, .none⟩
  | .true_ => ⟨some .literal, none, .none⟩
  | .modulo => ⟨none, some .binary, .factor⟩
  | .as_ => ⟨none, some .cast, .term⟩
  | _ => {}

/-- What goes on an expression has an infix function. -/
theorem rules_infix {type : TokenType} (h : (rules type).precedence ≠ .none) :
    ∃ infixFn, (rules type).infixRule = some infixFn := by
  cases type <;> simp [rules] at h ⊢

end KirbyLang.Parsing
