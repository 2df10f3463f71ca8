import KirbyLang.ParserState

/-!
# The parser

`parser.c` as it is written. A `NULL` in a place of the tree that always has a node is a nil
literal: the tree of a source with an error is not used. The functions that call each other in a
circle go through `Recursion`, the three functions that the circles are closed by; `parser` ties the
knot, for a number of calls inside each other that `parse` takes large enough.

* `number`, `stringLiteral` and the other literals; `parseType`;
* the functions of prefix and infix rules, `parsePrecedence`;
* blocks, statements, functions and declarations;
* `parse`, `parseTypeText`.
-/

namespace KirbyLang.Parsing

variable (libc : Libc)

/-- A node in a place that must have one. -/
def nodeOf (node : Option AstNode) : AstNode := node.getD (.literal 0 .nil)

/-! ### Literals -/

/-- The value that the digits of a text stand for. -/
def digitsValue (digits : Bytes) : ℕ :=
  digits.foldl (fun value c => value * 10 + (c.toNat - (byte '0').toNat)) 0

/-- `strtoull` in base 10, for a text that starts with a digit, and whether `errno` stays 0. -/
def strtoull (text : Bytes) : UInt64 × Bool :=
  let value := digitsValue (text.takeWhile Scanner.isDigit)
  if value < 2 ^ 64 then (UInt64.ofNat value, true) else (UInt64.ofNat (2 ^ 64 - 1), false)

/-- The payload of `FLT_MAX`. -/
def fltMax : NumberPayload := 0x47efffffe0000000

def numberLiteralError (kind : NumberKind) : Parse Unit :=
  parseErrorBytes (ascii "invalid " ++ ascii kind.info.name ++
    ascii " literal, expected an integer from " ++ formatNumber libc kind (.ofInt kind.min) ++
    ascii " to " ++ formatNumber libc kind (.ofInt kind.max) ++ ascii ".")

def floatLiteralError (kind : NumberKind) : Parse Unit :=
  parseErrorBytes (ascii "invalid " ++ ascii kind.info.name ++
    ascii " literal, expected a number up to " ++ formatNumber libc kind fltMax ++ ascii ".")

/-- `numberKindFromName`, which leaves the kind alone when there is no kind of the name. -/
def numberKindFromName (name : Bytes) (kind : NumberKind) : NumberKind :=
  (NumberKind.all.find? fun kind => ascii kind.info.name == name).getD kind

/-- The digits and points that a number token starts with. -/
def numberDigits (text : Bytes) : Bytes := text.takeWhile fun c => Scanner.isDigit c || c == byte '.'

/-- The kind of a number token. -/
def numberTokenKind (token : SourceToken) : NumberKind :=
  let digits := numberDigits token.text
  let kind := if byte '.' ∈ digits then .f64 else .i64
  if token.type = .numberSuffixed then
    let name := token.text.drop digits.length
    -- The name's buffer has eight bytes, the last one for the terminator.
    numberKindFromName (if name.length < 8 then Scanner.lowerFirst name else []) kind
  else kind

/-- A plain number is an integer that may be coerced to a kind that expects one; a decimal point or a
suffix is an explicit choice. -/
def isPlainInteger (token : SourceToken) : Bool :=
  token.type != .numberSuffixed && !(numberDigits token.text).contains (byte '.')

def plainInteger (token : SourceToken) : NumberLiteral :=
  let (value, fits) := strtoull token.start
  { kind := numberTokenKind token
    payload := if fits ∧ (value.toNat : ℤ) ≤ NumberKind.i64.max then value else 0
    literalIsPlainInteger := true
    literalValue := value
    literalValueFits := fits }

/-- Whether the digits of a number token with a suffix are a value of the kind. -/
def integerIsValid (kind : NumberKind) (digits : Bytes) : Bool :=
  0 < digits.length && digits.length < 32 && !digits.contains (byte '.') &&
    (strtoull digits).2 && decide (((strtoull digits).1.toNat : ℤ) ≤ kind.max)

/-- The literal of a number token. -/
def numberLiteral (token : SourceToken) : Parse NumberLiteral :=
  let kind := numberTokenKind token
  if isPlainInteger token then return plainInteger token
  else if kind = .f32 then do
    let single := libc.strtof token.start
    when single.isInf (floatLiteralError libc kind)
    return { kind, payload := .ofF64 single }
  else if kind.info.isFloat then
    return { kind, payload := .ofF64 (libc.strtod token.start).1 }
  else do
    let digits := numberDigits token.text
    let valid := integerIsValid kind digits
    when (!valid) (numberLiteralError libc kind)
    return { kind, payload := if valid then (strtoull digits).1 else 0 }

def number : Parse AstNode := do
  let token ← previous
  let literal ← numberLiteral libc token
  emit (.number token literal)
  return .literal token.line (.number literal)

/-- What an escape sequence stands for. -/
def escapeByte (c : UInt8) : Option UInt8 :=
  if c = byte 'n' then some (byte '\n')
  else if c = byte 'r' then some (byte '\r')
  else if c = byte 't' then some (byte '\t')
  else if c = byte '"' then some (byte '"')
  else if c = byte '\\' then some (byte '\\')
  else none

def invalidEscape (c : UInt8) : Bytes := ascii "Invalid escape sequence: \\" ++ [c]

/-- The loop of `stringLiteral`: the bytes written to the buffer. -/
def stringChars (isInterp : Bool) : Bytes → Parse Bytes
  | [] => return []
  | [c] =>
    if isInterp ∧ (c = byte '{' ∨ c = byte '}') then do
      parseError "Single '\x7d' in interpolated string. Write '\x7d\x7d' for a literal '\x7d'."
      return []
    else return [c]
  | c :: next :: rest =>
    if c = byte '\\' then
      match escapeByte next with
      | some escaped => return escaped :: (← stringChars isInterp rest)
      | none => do
        parseErrorBytes (invalidEscape next)
        stringChars isInterp rest
    else if isInterp ∧ (c = byte '{' ∨ c = byte '}') then
      if next = c then return c :: (← stringChars isInterp rest)
      else do
        parseError "Single '\x7d' in interpolated string. Write '\x7d\x7d' for a literal '\x7d'."
        stringChars isInterp (next :: rest)
    else return c :: (← stringChars isInterp (next :: rest))

/-- A string literal node from the raw text between the quotes. -/
def stringLiteral (chars : Bytes) (isInterp : Bool) : Parse AstNode := do
  let token ← previous
  return .literal token.line (.string (← stringChars isInterp chars))

/-- The bytes of a token without those of its delimiters. -/
def inner (token : SourceToken) (skipStart skipEnd : ℕ) : Bytes :=
  (token.start.drop skipStart).take (token.length - skipStart - skipEnd)

def string_ : Parse AstNode := do
  stringLiteral (inner (← previous) 1 1) false

/-- An interpolated string without placeholders. -/
def interpString : Parse AstNode := do
  stringLiteral (inner (← previous) 2 1) true

/-- Adds a literal text segment's node to the parts; empty text is left out. -/
def interpText (parts : List AstNode) (skipStart : ℕ) : Parse (List AstNode) := do
  let token ← previous
  if 0 < token.length - skipStart - 1 then
    return parts ++ [← stringLiteral (inner token skipStart 1) true]
  else return parts

def literal : Parse AstNode := do
  let token ← previous
  return .literal token.line (match token.type with
    | .true_ => .boolean true
    | .false_ => .boolean false
    | _ => .nil)

def self_ : Parse AstNode := do
  let keyword ← previous
  return .self_ keyword.line keyword.toToken

/-! ### Types -/

/-- Reads the length of an array type from the number just consumed, up to `INT_MAX`. -/
def arrayLength : Bytes → ℤ → Parse ℤ
  | [], value => return value
  | c :: rest, value =>
    if ¬Scanner.isDigit c then do
      parseError "Array length must be a whole number."
      return 0
    else
      let value := value * 10 + (c.toNat - (byte '0').toNat)
      if 2 ^ 31 - 1 < value then do
        parseError "Array length is too large."
        return 0
      else arrayLength rest value

def parseArrayLength : Parse ℤ := do arrayLength (← previous).text 0

/-- `ARRAY_LENGTH_PLACEHOLDER`. -/
def arrayLengthPlaceholder (index : ℤ) : ℤ := -1 - index

/-- A length placeholder, `N` or `M`, from the identifier just consumed. -/
def parseArrayLengthPlaceholder : Parse ℤ := do
  let name := (← previous).text
  if name = ascii "N" then return arrayLengthPlaceholder 0
  else if name = ascii "M" then return arrayLengthPlaceholder 1
  else do
    parseError "Expect a length placeholder, N or M."
    return 0

def functionType (parseType : Parse TypeNode) : Parse TypeNode := do
  let line := (← previous).line
  consume .leftParen "Expect '(' after 'fun' in function type."
  let paramTypes ← ifCheck .rightParen (pure [])
    (commaLoop .typeParams (fun types => return types ++ [← parseType]) [])
  consume .rightParen "Expect ')' after function type parameters."
  consume .fatArrow "Expect '=>' after function type parameters."
  let returnType ← parseType
  return .function line paramTypes returnType

/-- The length of an array type after its `;`. -/
def arrayTypeLength : Parse ℤ :=
  branch (fun p => p.allowLengthPlaceholders && p.current.type == .identifier)
    (do advance; parseArrayLengthPlaceholder)
    (do consume .number "Expect array length after ';'."; parseArrayLength)

def listType (parseType : Parse TypeNode) : Parse TypeNode := do
  let line := (← previous).line
  let elementType ← parseType
  ifMatch .semicolon
    (do
      let length ← arrayTypeLength
      consume .rightBracket "Expect ']' after array length."
      return .array line elementType length)
    (do
      consume .rightBracket "Expect ']' after list element type."
      return .list line elementType)

def namedType (parseType : Parse TypeNode) : Parse TypeNode := do
  consume .identifier "Expect type name."
  let name ← previous
  let genericArgs ← ifMatch .leftBracket
    (do
      let args ← commaLoop .typeArguments (fun types => return types ++ [← parseType]) []
      consume .rightBracket "Expect ']' after generic arguments."
      return args)
    (pure [])
  return .named name.line name.toToken genericArgs

/-- `parseType`, given itself for the types inside. -/
def typeExpression (parseType : Parse TypeNode) : Parse TypeNode :=
  ifMatch .fun_ (functionType parseType) <|
    ifMatch .leftBracket (listType parseType) (namedType parseType)

/-- `parseType` for at most the given number of types inside each other. -/
def typeRounds : ℕ → Parse TypeNode
  | 0 => failure
  | depth + 1 => typeExpression (typeRounds depth)

def parseType : Parse TypeNode := fun p => typeRounds (p.left + 1) p

/-- The type after a colon, if there is one. -/
def parseTypeAnnotation : Parse (Option TypeNode) :=
  ifMatch .colon (do return some (← parseType)) (pure none)

/-! ### Expressions -/

/-- The functions that the parser comes back to. -/
structure Recursion where
  /-- Nothing for `NULL`. -/
  parsePrecedence : Precedence → Parse (Option AstNode)
  /-- Parses an expression at the start of a statement. -/
  statementExpression : Parse (Option AstNode)
  statement : Parse AstNode
  declaration : Parse AstNode

variable (calls : Recursion)

def expression : Parse (Option AstNode) := calls.parsePrecedence .assignment

/-- A branch on whether a value is assigned here. -/
def ifAssigned {α : Type} (canAssign : Bool) (yes no : Parse α) : Parse α :=
  branch (fun p => canAssign && p.current.type == .equal) (do advance; yes) no

/-- What stands between two texts of an interpolated string. -/
def interpPlaceholder (parts : List AstNode) : Parse (List AstNode) :=
  branch (fun p => p.current.type == .interpMiddle || p.current.type == .interpEnd)
    (do
      errorAtCurrent "Expect expression inside '\x7b\x7d'."
      return parts)
    (do return parts ++ [nodeOf (← expression calls)])

/-- The end of an interpolated string. -/
def interpEnd (parts : List AstNode) : Parse (List AstNode) :=
  ifMatch .interpEnd (interpText parts 1) (do
    errorAtCurrent "Expect '\x7d' after placeholder expression."
    return parts)

/-- A placeholder with the text after it. -/
def interpRound (parts : List AstNode) : Parse (List AstNode × Bool) := do
  let parts ← interpPlaceholder calls parts
  ifMatch .interpMiddle (do return (← interpText parts 1, true)) (do
    return (← interpEnd parts, false))

/-- An interpolated string with placeholders. -/
def interpolation : Parse AstNode := do
  let line := (← previous).line
  let parts ← interpText [] 2
  let parts ← runLoop .interpolation (interpRound calls) parts
  return .interpString line (parts.map fun _ => .undefined) parts

def grouping : Parse AstNode := do
  let line := (← previous).line
  ifMatch .rightParen (return .literal line .unit) (do
    let inner ← expression calls
    consume .rightParen "Expect ')' after expression."
    return .grouping line (nodeOf inner))

def unary : Parse AstNode := do
  let op ← previous
  let operand ← calls.parsePrecedence .unary
  return .unary op.line op.toToken (nodeOf operand)

def variable_ (canAssign : Bool) : Parse AstNode := do
  let name ← previous
  ifAssigned canAssign
    (do
      let value ← expression calls
      return .assign name.line name.toToken (nodeOf value))
    (return .variable_ name.line name.toToken)

def arrayLiteral : Parse AstNode := do
  let bracket ← previous
  let items ← ifCheck .rightBracket (pure [])
    (commaLoop .items (fun items => return items ++ [nodeOf (← expression calls)]) [])
  consume .rightBracket "Expect ']' after array elements."
  return .array bracket.line items false

def binary (left : Option AstNode) : Parse AstNode := do
  let op ← previous
  let right ← calls.parsePrecedence (rules op.type).precedence.next
  return .binary op.line op.toToken (nodeOf left) (nodeOf right) false

def and_ (left : Option AstNode) : Parse AstNode := do
  let right ← calls.parsePrecedence .and_
  return .and_ (← previous).line (nodeOf left) (nodeOf right)

def or_ (left : Option AstNode) : Parse AstNode := do
  let right ← calls.parsePrecedence .or_
  return .or_ (← previous).line (nodeOf left) (nodeOf right)

def nullish_ (left : Option AstNode) : Parse AstNode := do
  let right ← calls.parsePrecedence .or_
  return .nullish (← previous).line (nodeOf left) (nodeOf right)

/-- An explicit conversion between number types; the type checker sets the target. -/
def cast_ (left : Option AstNode) : Parse AstNode := do
  let as_ ← previous
  let type ← parseType
  return .cast as_.line (nodeOf left) type as_.toToken .f64

/-- An argument of a call; the error at the 256th one does not end the list. -/
def argument (args : List AstNode) : Parse (List AstNode) := do
  let arg ← readItem .args args.length (do
    when (255 ≤ args.length) (errorAtCurrent "Can't have more than 255 arguments.")
    expression calls)
  return args ++ [nodeOf arg]

def call (left : Option AstNode) : Parse AstNode := do
  let line := (← previous).line
  let args ← ifCheck .rightParen (pure []) (itemLoop .args .arguments (argument calls))
  let paren ← current
  consume .rightParen "Expect ')' after arguments."
  return .call line (nodeOf left) paren.toToken args false

def dot (left : Option AstNode) (canAssign : Bool) : Parse AstNode := do
  consume .identifier "Expect property name after '.'."
  let name ← previous
  ifAssigned canAssign
    (do
      let value ← expression calls
      return .set name.line (nodeOf left) name.toToken (nodeOf value))
    (return .get name.line (nodeOf left) name.toToken)

/-- The name of a variable node. -/
def variableName : Option AstNode → Option Token
  | some (.variable_ _ name) => some name
  | _ => none

/-- Keeps a field of a struct literal while the buffer has room. -/
def keepField (fields : List (Token × AstNode)) (name : Token) (value : Option AstNode) :
    Parse (List (Token × AstNode)) :=
  if fields.length < 255 then do
    emit (.write .fields fields.length)
    return fields ++ [(name, nodeOf value)]
  else return fields

def initField (fields : List (Token × AstNode)) : Parse (List (Token × AstNode)) := do
  when (255 ≤ fields.length) (errorAtCurrent "Can't have more than 255 fields.")
  consume .identifier "Expect field name."
  let fieldName ← previous
  when (fields.any fun field => field.1.text == fieldName.text)
    (parseError "Duplicate field in struct initializer.")
  consume .colon "Expect ':' after field name."
  let value ← expression calls
  keepField fields fieldName.toToken value

/-- A comma may follow the last field. -/
def initRound (fields : List (Token × AstNode)) : Parse (List (Token × AstNode) × Bool) :=
  ifCheck .rightBrace (return (fields, false)) (do
    let fields ← initField calls fields
    return (fields, ← match_ .comma))

/-- The fields of a struct literal. -/
def initFields : Parse (List (Token × AstNode)) :=
  ifCheck .rightBrace (pure []) (runLoop .fields (initRound calls) [])

def struct_ (left : Option AstNode) : Parse (Option AstNode) := do
  let structName := variableName left
  when structName.isNone (parseError "Only a struct name can be initialized with '\x7b'.")
  let fields ← initFields calls
  consume .rightBrace "Expect '\x7d' after struct initializer."
  let endLine := (← previous).line
  return match structName with
    | some name =>
      some (.structInit name.line name (fields.map (·.1)) (fields.map (·.2)) endLine)
    | none => left

def index_ (left : Option AstNode) (canAssign : Bool) : Parse AstNode := do
  let bracket ← previous
  let index ← expression calls
  consume .rightBracket "Expect ']' after index."
  ifAssigned canAssign
    (do
      let value ← expression calls
      return .indexSet bracket.line (nodeOf left) (nodeOf index) (nodeOf value) bracket.toToken)
    (return .indexGet bracket.line (nodeOf left) (nodeOf index) bracket.toToken)

/-! ### Blocks and statements -/

/-- What `BlockNode` holds. -/
structure BlockNode where
  stmts : List AstNode
  value : Option AstNode
  endLine : ℤ

/-- Whether the upcoming token starts an expression rather than a declaration or statement. `fun`
starts a lambda only when `(` follows. -/
def isExpressionStart (p : Parser) : Bool :=
  if p.current.type = .fun_ then p.peek.type == .leftParen
  else (rules p.current.type).prefixRule.isSome

/-- The end of an expression used as a statement, after a token of the given type. A block-like
expression, or one whose last token is the `;` of a branch statement, is already terminated. -/
def finishExpressionStatement (expr : Option AstNode) (line : ℤ) : Parse AstNode := do
  branch (fun p => p.previous.type == .rightBrace || p.previous.type == .semicolon)
    (ifMatch .semicolon (pure ()) (pure ()))
    (ifMatch .semicolon (pure ()) (parseError "Expect ';' after expression."))
  return match expr with
    | some (.if_ ..) | some (.block ..) => nodeOf expr
    | _ => .exprStmt line (nodeOf expr)

/-- An item of a block, or the expression directly before the closing brace, which is the block's
value. -/
def blockItem (items : List AstNode × Option AstNode) :
    Parse ((List AstNode × Option AstNode) × Bool) :=
  branch isExpressionStart
    (do
      let line := (← current).line
      let expr ← calls.statementExpression
      ifCheck .rightBrace (return ((items.1, expr), true)) (do
        let node ← finishExpressionStatement expr line
        synchronizeIfPanicking
        return ((items.1 ++ [node], none), false)))
    (do
      let node ← calls.declaration
      synchronizeIfPanicking
      return ((items.1 ++ [node], none), false))

/-- Whether a body in braces goes on. -/
def inBody (p : Parser) : Bool := p.current.type != .rightBrace && p.current.type != .eof

def parseBlock : Parse BlockNode := do
  modify fun p => { p with blockDepth := p.blockDepth + 1 }
  let (stmts, value) ← whileLoop .block inBody (blockItem calls) ([], none)
  consume .rightBrace "Expect '\x7d' after block."
  let endLine := (← previous).line
  modify fun p => { p with blockDepth := p.blockDepth - 1 }
  return ⟨stmts, value, endLine⟩

def blockExpr : Parse AstNode := do
  let line := (← previous).line
  let block ← parseBlock calls
  return .block line block.stmts block.value block.endLine

def breakStatement : Parse AstNode := do
  let token ← previous
  consume .semicolon "Expect ';' after break."
  return .break_ token.line token.toToken

def continueStatement : Parse AstNode := do
  let token ← previous
  consume .semicolon "Expect ';' after continue."
  return .continue_ token.line token.toToken

def returnStatement : Parse AstNode := do
  let line := (← previous).line
  let value ← ifCheck .semicolon (pure none) (expression calls)
  consume .semicolon "Expect ';' after return value."
  return .return_ line value

def varDeclaration (isMutable : Bool) : Parse AstNode := do
  consumeDeclarationIdentifier "Expect variable name."
  let name ← previous
  let declaredType ← parseTypeAnnotation
  let initializer ← ifMatch .equal (expression calls) (pure none)
  when (!isMutable && initializer.isNone) (parseError "'let' binding requires an initializer.")
  consume .semicolon "Expect ';' after variable declaration."
  let declEndLine := (← previous).line
  return .varDecl name.line { name := name.toToken, declaredType, declEndLine, isMutable }
    initializer

def expressionStatement : Parse AstNode := do
  let line := (← current).line
  let expr ← calls.statementExpression
  finishExpressionStatement expr line

def whileStatement : Parse AstNode := do
  let line := (← previous).line
  consume .leftParen "Expect '(' after 'while'."
  let condition ← expression calls
  consume .rightParen "Expect ')' after condition."
  let body ← calls.statement
  return .while_ line (nodeOf condition) body

/-- The first clause of a `for`. -/
def forInit : Parse (Option AstNode) :=
  ifMatch .semicolon (pure none) <|
    ifMatch .var (do return some (← varDeclaration calls true)) <|
      ifMatch .let_ (do return some (← varDeclaration calls false)) <|
        (do return some (← expressionStatement calls))

def forStatement : Parse AstNode := do
  let line := (← previous).line
  consume .leftParen "Expect '(' after 'for'."
  let init ← forInit calls
  let condition ← ifCheck .semicolon (pure none) (expression calls)
  consume .semicolon "Expect ';' after loop condition."
  let increment ← ifCheck .rightParen (pure none) (expression calls)
  consume .rightParen "Expect ')' after for clauses."
  let body ← calls.statement
  return .for_ line init (condition.getD (.literal line (.boolean true))) increment body

def statement : Parse AstNode :=
  ifMatch .while_ (whileStatement calls) <|
    ifMatch .for_ (forStatement calls) <|
      ifMatch .return_ (returnStatement calls) <|
        ifMatch .break_ breakStatement <|
          ifMatch .continue_ continueStatement (expressionStatement calls)

/-- A branch is an expression or a statement that leaves the branch. The `;` of
`if (a) x; else y` belongs to the branch. -/
def ifBranch : Parse (Option AstNode) :=
  ifMatch .return_ (do return some (← returnStatement calls)) <|
    ifMatch .break_ (do return some (← breakStatement)) <|
      ifMatch .continue_ (do return some (← continueStatement)) <|
        ifMatch .while_ (do return some (← whileStatement calls)) <|
          ifMatch .for_ (do return some (← forStatement calls)) (do
            let expr ← expression calls
            branch (fun p => p.current.type == .semicolon && p.peek.type == .else_) advance (pure ())
            return expr)

def ifExpr : Parse AstNode := do
  let line := (← previous).line
  consume .leftParen "Expect '(' after 'if'."
  let condition ← expression calls
  consume .rightParen "Expect ')' after condition."
  let thenBranch ← ifBranch calls
  let elseBranch ← ifMatch .else_ (ifBranch calls) (pure none)
  return .if_ line (nodeOf condition) (nodeOf thenBranch) elseBranch

/-- An expression at the start of a statement. An `if` or block ends the statement, so a following
brace or parenthesis starts a new one. -/
def statementExpression : Parse (Option AstNode) :=
  ifMatch .if_ (do return some (← ifExpr calls)) <|
    ifMatch .leftBrace (do return some (← blockExpr calls)) (expression calls)

/-! ### Functions -/

/-- A name and a type of `functionTail`'s buffers. -/
abbrev Param := Token × Option TypeNode

/-- The name of a parameter with this many before it. -/
def parameterName (count : ℕ) : Parse SourceToken := do
  when (255 ≤ count) (errorAtCurrent "Can't have more than 255 parameters.")
  ifCheck .self_ (errorAtCurrent "'self' must be the first parameter.") (pure ())
  consumeDeclarationIdentifier "Expect parameter name."
  previous

def parameter (params : List Param) : Parse (List Param) := do
  let name ← parameterName params.length
  emit (.write .params params.length)
  emit (.write .paramTypes params.length)
  ifMatch .colon
    (do
      let type ← parseType
      emit (.write .paramTypes params.length)
      return params ++ [(name.toToken, some type)])
    (return params ++ [(name.toToken, none)])

/-- The `self` parameter. -/
def selfParameter (isMethod : Bool) : Parse Bool :=
  ifCheck .self_
    (do
      when (!isMethod)
        (errorAtCurrent "Only methods in an 'impl' block can declare a 'self' parameter.")
      advance
      return true)
    (pure false)

/-- The parameters and the return type of a function. -/
structure FunctionHead where
  hasSelf : Bool
  params : List Param
  returnType : Option TypeNode

def functionHead (isMethod : Bool) : Parse FunctionHead := do
  consume .leftParen "Expect '(' after function name."
  let hasSelf ← selfParameter isMethod
  let list := itemLoop .params .parameters parameter
  let params ← ifCheck .rightParen (pure [])
    (if hasSelf then ifMatch .comma list (pure []) else list)
  consume .rightParen "Expect ')' after parameters."
  let returnType ← parseTypeAnnotation
  return ⟨hasSelf, params, returnType⟩

/-- What `FunctionNode` holds, with the line of its node. -/
structure FunctionNode where
  line : ℤ
  info : FunctionInfo
  stmts : List AstNode := []
  value : Option AstNode := none
  exprBody : Option AstNode := none

def FunctionNode.toNode (fn : FunctionNode) : AstNode :=
  .function fn.line fn.info fn.stmts fn.value fn.exprBody

/-- The node of `functionTail` before its body is read. -/
def bareFunction (head : FunctionHead) (name : SourceToken) (isMethod isLambda signatureOnly : Bool) :
    FunctionNode where
  line := name.line
  info :=
    { name := name.toToken
      params := head.params.map (·.1)
      paramTypes := head.params.map (·.2)
      returnType := head.returnType
      bodyEndLine := name.line
      isMethod
      hasSelf := head.hasSelf
      isLambda
      isTraitSignature := signatureOnly }

/-- `functionTail` of a signature in a trait. -/
def functionSignature (name : SourceToken) : Parse FunctionNode := do
  let fn := bareFunction (← functionHead true) name true false true
  consume .semicolon "Expect ';' after trait method signature."
  return { fn with info.bodyEndLine := (← previous).line }

/-- The body of a function: an expression or a block. -/
def functionBody (isLambda : Bool) (fn : FunctionNode) : Parse FunctionNode :=
  branch (fun p => !isLambda && p.current.type == .equal)
    (do
      advance
      let exprBody ← expression calls
      consume .semicolon "Expect ';' after function body expression."
      return { fn with exprBody, info.bodyEndLine := (← previous).line })
    (do
      consume .leftBrace "Expect '\x7b' before function body."
      let body ← parseBlock calls
      return { fn with
        stmts := body.stmts
        value := body.value
        info.bodyEndLine := body.endLine })

/-- `functionTail` with a body. -/
def functionTail (name : SourceToken) (isMethod isLambda : Bool) : Parse FunctionNode := do
  let head ← functionHead isMethod
  functionBody calls isLambda (bareFunction head name isMethod isLambda false)

def genericParam (params : List Token) : Parse (List Token) := do
  let name ← readItem .genericParams params.length (do
    when (255 ≤ params.length) (errorAtCurrent "Can't have more than 255 generic parameters.")
    consumeDeclarationIdentifier "Expect generic parameter name."
    previous)
  return params ++ [name.toToken]

def parseGenericParamList : Parse (List Token) :=
  ifMatch .leftBracket
    (do
      let params ← itemLoop .genericParams .genericParams genericParam
      consume .rightBracket "Expect ']' after generic parameters."
      return params)
    (pure [])

/-- `functionDeclaration` from its name on, which is behind the parser. -/
def methodDeclaration (isMethod : Bool) : Parse FunctionNode := do
  let name ← previous
  let genericParams ← parseGenericParamList
  let fn ← functionTail calls name isMethod false
  return { fn with info.genericParams := genericParams }

def functionDeclaration : Parse AstNode := do
  consumeDeclarationIdentifier "Expect function name."
  return (← methodDeclaration calls false).toNode

def lambda : Parse AstNode := do
  let funKeyword ← previous
  return (← functionTail calls funKeyword false true).toNode

/-! ### Precedence climbing -/

/-- The prefix functions. -/
def runPrefix (canAssign : Bool) : PrefixFn → Parse AstNode
  | .grouping => grouping calls
  | .blockExpr => blockExpr calls
  | .arrayLiteral => arrayLiteral calls
  | .unary => unary calls
  | .variable_ => variable_ calls canAssign
  | .string => string_
  | .number => number libc
  | .interpString => interpString
  | .interpolation => interpolation calls
  | .literal => literal
  | .lambda => lambda calls
  | .ifExpr => ifExpr calls
  | .self_ => self_

/-- The infix functions. -/
def runInfix (left : Option AstNode) (canAssign : Bool) : InfixFn → Parse (Option AstNode)
  | .call => do return some (← call calls left)
  | .struct_ => struct_ calls left
  | .index => do return some (← index_ calls left canAssign)
  | .dot => do return some (← dot calls left canAssign)
  | .binary => do return some (← binary calls left)
  | .and_ => do return some (← and_ calls left)
  | .or_ => do return some (← or_ calls left)
  | .nullish => do return some (← nullish_ calls left)
  | .cast => do return some (← cast_ left)

/-- Whether the current token goes on an expression of the given precedence. -/
def goesOn (precedence : Precedence) (p : Parser) : Bool :=
  precedence.toNat ≤ (rules p.current.type).precedence.toNat

/-- A round of the loop of `parse_precedence`. -/
def infixRound (canAssign : Bool) (left : Option AstNode) : Parse (Option AstNode × Bool) := do
  advance
  match (rules (← previous).type).infixRule with
  | some infixFn => do return (← runInfix calls left canAssign infixFn, false)
  | none => failure

/-- Whether `=` may follow what is parsed at a precedence. -/
def canAssignAt (precedence : Precedence) : Bool :=
  precedence.toNat ≤ Precedence.assignment.toNat

/-- The loop of `parse_precedence`. -/
def climbLoop (precedence : Precedence) (canAssign : Bool) (left : Option AstNode) :
    Parse (Option AstNode) :=
  whileLoop .precedence (goesOn precedence) (infixRound calls canAssign) left

/-- `parse_precedence` from its prefix function on. -/
def climbFrom (precedence : Precedence) (prefixFn : PrefixFn) : Parse (Option AstNode) := do
  let left ← runPrefix libc calls (canAssignAt precedence) prefixFn
  let left ← climbLoop calls precedence (canAssignAt precedence) (some left)
  ifAssigned (canAssignAt precedence) (parseError "Invalid assignment target.") (pure ())
  return left

/-- `parse_precedence` from the token it has advanced over. -/
def climb (precedence : Precedence) : Parse (Option AstNode) := do
  match (rules (← previous).type).prefixRule with
  | none => do
    parseError "Expect expression."
    return none
  | some prefixFn => climbFrom libc calls precedence prefixFn

def parsePrecedence (precedence : Precedence) : Parse (Option AstNode) := do
  advance
  climb libc calls precedence

/-! ### Declarations -/

/-- A field of a struct after its keyword. -/
def structField (isMutable isPublic : Bool) : Parse AstNode := do
  consumeDeclarationIdentifier "Expect field name."
  let fieldName ← previous
  let declaredType ← parseTypeAnnotation
  ifMatch .equal (parseError "Struct fields don't support default values") (pure ())
  consume .semicolon "Expect ';' after field."
  let declEndLine := (← previous).line
  return .varDecl fieldName.line
    { name := fieldName.toToken, declaredType, declEndLine, isMutable, isPublic } none

/-- A method in a struct, which is passed with an error. -/
def structMethod : Parse Unit := do
  errorAtCurrent "Expect field declaration. Methods belong in an 'impl' block."
  advance
  ifCheck .identifier
    (do
      advance
      let _ ← methodDeclaration calls true
      pure ())
    (pure ())
  modify fun p => { p with panicMode := false }

/-- An item of the body of a struct, an `impl` block or a trait. -/
def bodyRound {σ : Type} (item : σ → Parse σ) (state : σ) : Parse (σ × Bool) := do
  let state ← item state
  recoverInBraceBody
  return (state, false)

/-- A member of a struct after its `pub`. -/
def structItem (fields : List AstNode) (isPublic : Bool) : Parse (List AstNode) :=
  ifMatch .var (do return fields ++ [← structField true isPublic]) <|
    ifMatch .let_ (do return fields ++ [← structField false isPublic]) <|
      ifCheck .fun_
        (do
          structMethod calls
          return fields)
        (do
          errorAtCurrent (if isPublic then "Expect field declaration after 'pub'."
            else "Expect field declaration.")
          return fields)

def structMember (fields : List AstNode) : Parse (List AstNode) := do
  structItem calls fields (← match_ .pub)

def structDeclaration : Parse AstNode := do
  consumeDeclarationIdentifier "Expect struct name."
  let name ← previous
  let genericParams ← parseGenericParamList
  consume .leftBrace "Expect '\x7b' before struct body."
  let fields ← whileLoop .structBody inBody (bodyRound (structMember calls)) []
  consume .rightBrace "Expect '\x7d' after struct body."
  let endLine := (← previous).line
  return .struct_ name.line name.toToken genericParams fields endLine

/-- A field in an `impl` block, which is passed with an error. -/
def implField : Parse Unit := do
  errorAtCurrent "Expect method declaration. Fields belong in the 'struct' declaration."
  advance
  ifCheck .identifier
    (do
      advance
      ifMatch .equal
        (do
          let _ ← expression calls
          pure ())
        (pure ())
      ifMatch .semicolon (pure ()) (pure ()))
    (pure ())
  modify fun p => { p with panicMode := false }

def implMethod (isPublic : Bool) : Parse AstNode := do
  consume .fun_ "Expect 'fun' before method declaration."
  consumeDeclarationIdentifier "Expect method name."
  let method ← methodDeclaration calls true
  return { method with info.isPublic := isPublic }.toNode

def implMember (hasTraitName : Bool) (methods : List AstNode) : Parse (List AstNode) := do
  let isPublic ← match_ .pub
  ifCheck .var
    (do
      implField calls
      return methods)
    (do return methods ++ [← implMethod calls (hasTraitName || isPublic)])

/-- The target of an `impl` block, after `for`. -/
def implTarget : Parse (Option SourceToken) :=
  ifMatch .for_
    (do
      consume .identifier "Expect struct or primitive type name after 'for'."
      return some (← previous))
    (pure none)

def implDeclaration : Parse AstNode := do
  consume .identifier "Expect struct or trait name after 'impl'."
  let name ← previous
  let genericParams ← parseGenericParamList
  let target ← implTarget
  consume .leftBrace "Expect '\x7b' before impl body."
  let methods ← whileLoop .implBody inBody (bodyRound (implMember calls target.isSome)) []
  consume .rightBrace "Expect '\x7d' after impl body."
  let endLine := (← previous).line
  return .impl name.line
    { targetName := (target.getD name).toToken
      genericParams
      traitName := target.map fun _ => name.toToken
      endLine } methods

def traitMember (methods : List AstNode) : Parse (List AstNode) := do
  consume .fun_ "Expect method signature in trait body."
  consumeDeclarationIdentifier "Expect method name."
  let methodName ← previous
  return methods ++ [(← functionSignature methodName).toNode]

def traitDeclaration : Parse AstNode := do
  consumeDeclarationIdentifier "Expect trait name."
  let name ← previous
  let supertrait ← ifMatch .colon
    (do
      consume .identifier "Expect supertrait name after ':'."
      return some (← previous).toToken)
    (pure none)
  consume .leftBrace "Expect '\x7b' before trait body."
  let methods ← whileLoop .traitBody inBody (bodyRound traitMember) []
  consume .rightBrace "Expect '\x7d' after trait body."
  let endLine := (← previous).line
  return .trait_ name.line { name := name.toToken, supertrait, endLine } methods

def typeAliasDeclaration : Parse AstNode := do
  consumeDeclarationIdentifier "Expect type alias name."
  let name ← previous
  let genericParams ← parseGenericParamList
  consume .equal "Expect '=' after type alias name."
  let target ← parseType
  consume .semicolon "Expect ';' after type alias."
  return .typeAlias name.line name.toToken genericParams target

/-- What is only legal where no block is open. -/
def isTopLevelOnly (type : TokenType) : Bool :=
  [.struct_, .impl, .trait_, .type_].contains type

/-- What a declaration is after a misplaced `pub` and the check of the block's depth. -/
def declarationItem : Parse AstNode :=
  ifMatch .struct_ (structDeclaration calls) <|
    ifMatch .impl (implDeclaration calls) <|
      ifMatch .trait_ traitDeclaration <|
        ifMatch .type_ typeAliasDeclaration <|
          branch (fun p => p.current.type == .fun_ && p.peek.type != .leftParen)
            (do advance; functionDeclaration calls) <|
            ifMatch .var (varDeclaration calls true) <|
              ifMatch .let_ (varDeclaration calls false) calls.statement

def declaration : Parse AstNode := do
  ifCheck .pub
    (do
      errorAtCurrent "'pub' is only valid on struct fields and 'impl' methods."
      advance)
    (pure ())
  branch (fun p => 0 < p.blockDepth && isTopLevelOnly p.current.type)
    (errorAtCurrent ("'struct', 'impl', 'trait', and 'type' are declarations and can only appear " ++
      "at the top level."))
    (pure ())
  let node ← declarationItem calls
  synchronizeIfPanicking
  return node

/-! ### Running the parser -/

/-- The functions of the parser for at most the given number of calls inside each other. -/
def parser : ℕ → Recursion
  | 0 => ⟨fun _ => failure, failure, failure, failure⟩
  | depth + 1 =>
    { parsePrecedence := parsePrecedence libc (parser depth)
      statementExpression := statementExpression (parser depth)
      statement := statement (parser depth)
      declaration := declaration (parser depth) }

/-- More calls than a parser with this much left has inside each other. -/
def callDepth (left : ℕ) : ℕ := 4 * left + 4

def initParser (stream : TokenStream) : Parser :=
  Parser.advance
    { tokens := stream.tokens
      eof := stream.eof
      isEof := stream.isEof
      previous := stream.eof
      current := stream.eof }

/-- A round of the loop of `parse`. -/
def programRound (calls : Recursion) (ast : List AstNode) : Parse (List AstNode × Bool) := do
  return (ast ++ [← calls.declaration], false)

/-- The loop of `parse`. -/
def program : Parse (List AstNode) := fun p =>
  whileLoop .declarations (·.current.type != .eof)
    (programRound (parser libc (callDepth p.left))) [] p

/-- `parse` for the tokens that `lex` fills: the program and the parser at the end, which holds
whether there was an error and the line of the end. -/
def parseTokens (stream : TokenStream) : Option (List AstNode × Parser) :=
  program libc (initParser stream)

def parse (source : Bytes) : Option (List AstNode × Parser) := parseTokens libc (lexStream source)

/-- `parseTypeText`: nothing for a text with an error. -/
def parseTypeText (source : Bytes) : Option (Option TypeNode × Parser) :=
  (do
    let type ← parseType
    consume .eof "Expect end of type."
    return if (← get).hadError then none else some type)
    { initParser (lexStream source) with allowLengthPlaceholders := true }

end KirbyLang.Parsing
