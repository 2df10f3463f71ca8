import KirbyLang.Ast
import Mathlib.Logic.Function.Basic

/-!
# The scanner

`scanner.c` and `lexer.c`. The scanner's pointers into the source are the suffixes of the source
that they point at, so the distance of two pointers is the difference of two lengths, and the
terminator of the source is the end of the list. Lines and lengths are not bounded.

* `Scanner`, `SourceToken`: the scanner's state and its tokens, with where they lie;
* `Scanner.scanToken`: one token;
* `lex`: all tokens of a source, up to its end;
* `Scans`: the tokens read one after the other between two states of the scanner.
-/

namespace KirbyLang

/-- How deeply interpolated strings can nest inside each other's placeholders. -/
def MAX_INTERP_DEPTH : ℤ := 16

/-- The byte of an ASCII character. -/
abbrev byte (c : Char) : UInt8 := UInt8.ofNat c.toNat

structure Scanner where
  start : Bytes
  current : Bytes
  line : ℤ := 1
  /-- How many placeholders the scanner is inside. -/
  interpDepth : ℤ := 0
  /-- For each open placeholder, how many `{` inside it are still unclosed. -/
  interpBraces : ℤ → ℤ := fun _ => 0

/-- A token as the scanner makes it. An error's `start` is its message. -/
structure SourceToken where
  type : TokenType
  start : Bytes
  length : ℕ
  line : ℤ
  deriving DecidableEq, Repr

/-- The bytes that a token points at. -/
def SourceToken.text (token : SourceToken) : Bytes := token.start.take token.length

/-- What the later stages read of a token. -/
def SourceToken.toToken (token : SourceToken) : Token := ⟨token.type, token.text, token.line⟩

def initScanner (source : Bytes) : Scanner := { start := source, current := source }

namespace Scanner

def isDigit (c : UInt8) : Bool := byte '0' ≤ c && c ≤ byte '9'

def isAlpha (c : UInt8) : Bool :=
  (byte 'a' ≤ c && c ≤ byte 'z') || (byte 'A' ≤ c && c ≤ byte 'Z') || c == byte '_'

def peek (scanner : Scanner) : UInt8 := scanner.current.headD 0

def peekNext (scanner : Scanner) : UInt8 := scanner.current.getD 1 0

/-- `current++`, not past the end. -/
def advance (scanner : Scanner) : Scanner := { scanner with current := scanner.current.tail }

/-- `match`: advance over the expected character, if it is the next one. -/
def matches_ (scanner : Scanner) (expected : UInt8) : Bool × Scanner :=
  if scanner.current.head? = some expected then (true, scanner.advance) else (false, scanner)

def makeToken (scanner : Scanner) (type : TokenType) : SourceToken :=
  { type
    start := scanner.start
    length := scanner.start.length - scanner.current.length
    line := scanner.line }

def errorToken (scanner : Scanner) (message : String) : SourceToken :=
  { type := .error, start := ascii message, length := (ascii message).length, line := scanner.line }

/-! ### Identifiers and numbers -/

/-- `TOKEN_IDENTIFIER`, unless the lexeme from `start` on is the rest of a keyword. -/
def checkKeyword (lexeme : Bytes) (start : ℕ) (rest : String) (type : TokenType) : TokenType :=
  if lexeme.drop start == ascii rest then type else .identifier

/-- The type of a name, told from its first letters. -/
def identifierType (lexeme : Bytes) : TokenType :=
  let letter := fun i => Char.ofUInt8 (lexeme.getD i 0)
  match letter 0 with
  | 'a' =>
    match letter 1 with
    | 'n' => checkKeyword lexeme 2 "d" .and_
    | 's' => checkKeyword lexeme 2 "" .as_
    | _ => .identifier
  | 'b' => checkKeyword lexeme 1 "reak" .break_
  | 'c' => checkKeyword lexeme 1 "ontinue" .continue_
  | 'e' => checkKeyword lexeme 1 "lse" .else_
  | 'f' =>
    match letter 1 with
    | 'a' => checkKeyword lexeme 2 "lse" .false_
    | 'o' => checkKeyword lexeme 2 "r" .for_
    | 'u' => checkKeyword lexeme 2 "n" .fun_
    | _ => .identifier
  | 'i' =>
    match letter 1 with
    | 'f' => checkKeyword lexeme 1 "f" .if_
    | 'm' => checkKeyword lexeme 1 "mpl" .impl
    | _ => .identifier
  | 'l' => checkKeyword lexeme 1 "et" .let_
  | 'n' => checkKeyword lexeme 1 "il" .nil
  | 'o' => checkKeyword lexeme 1 "r" .or_
  | 'p' =>
    match letter 1 with
    | 'u' => checkKeyword lexeme 2 "b" .pub
    | _ => .identifier
  | 'r' => checkKeyword lexeme 1 "eturn" .return_
  | 's' =>
    match letter 1 with
    | 'e' => checkKeyword lexeme 2 "lf" .self_
    | 't' => checkKeyword lexeme 2 "ruct" .struct_
    | _ => .identifier
  | 't' =>
    match letter 1 with
    | 'r' =>
      match letter 2 with
      | 'u' => checkKeyword lexeme 3 "e" .true_
      | 'a' => checkKeyword lexeme 3 "it" .trait_
      | _ => .identifier
    | 'y' => checkKeyword lexeme 2 "pe" .type_
    | _ => .identifier
  | 'v' => checkKeyword lexeme 1 "ar" .var
  | 'w' => checkKeyword lexeme 1 "hile" .while_
  | _ => .identifier

/-- The text between two pointers. -/
def lexeme (scanner : Scanner) : Bytes :=
  scanner.start.take (scanner.start.length - scanner.current.length)

def identifier (scanner : Scanner) : SourceToken × Scanner :=
  let scanner :=
    { scanner with current := scanner.current.dropWhile fun c => isAlpha c || isDigit c }
  (scanner.makeToken (identifierType scanner.lexeme), scanner)

/-- The first letter of a suffix may be upper case. -/
def lowerFirst : Bytes → Bytes
  | [] => []
  | c :: rest => (if byte 'A' ≤ c ∧ c ≤ byte 'Z' then c - byte 'A' + byte 'a' else c) :: rest

/-- The kind whose name is at the cursor. -/
def suffixKind (current : Bytes) : Option NumberKind :=
  NumberKind.all.find? fun kind => (ascii kind.info.name).isPrefixOf (lowerFirst current)

/-- Length of the type name at the cursor if it is a number suffix, otherwise 0. -/
def numberSuffixLength (current : Bytes) : ℕ :=
  match suffixKind current with
  | some kind => (ascii kind.info.name).length
  | none => 0

/-- The cursor after the fractional part, if there is one. -/
def skipFraction (current : Bytes) : Bytes :=
  if current.headD 0 = byte '.' ∧ isDigit (current.getD 1 0) then current.tail.dropWhile isDigit
  else current

def number (scanner : Scanner) : SourceToken × Scanner :=
  let scanner := { scanner with current := skipFraction (scanner.current.dropWhile isDigit) }
  let suffixLength := numberSuffixLength scanner.current
  if 0 < suffixLength then
    let scanner := { scanner with current := scanner.current.drop suffixLength }
    (scanner.makeToken .numberSuffixed, scanner)
  else (scanner.makeToken .number, scanner)

/-! ### Strings -/

/-- The loop of `string`: where it stops, and the line there. -/
def stringLoop : Bytes → ℤ → Bytes × ℤ
  | [], line => ([], line)
  | c :: rest, line =>
    if c = byte '"' then (c :: rest, line)
    else
      let line := if c = byte '\n' then line + 1 else line
      match rest with
      | [] => ([], line)
      -- An escaped character is skipped together with its backslash.
      | next :: rest => if c = byte '\\' then stringLoop rest line else stringLoop (next :: rest) line

def string (scanner : Scanner) : SourceToken × Scanner :=
  let (current, line) := stringLoop scanner.current scanner.line
  let scanner := { scanner with current, line }
  if scanner.current.isEmpty then (scanner.errorToken "Unterminated string.", scanner)
  else
    let scanner := scanner.advance
    (scanner.makeToken .string, scanner)

/-- The loop of `interpSegment`: it stops at a `"` or at a single `{`. -/
def interpLoop : Bytes → ℤ → Bytes × ℤ
  | [], line => ([], line)
  | [c], line =>
    if c = byte '"' ∨ c = byte '{' then ([c], line)
    else ([], if c = byte '\n' then line + 1 else line)
  | c :: next :: rest, line =>
    if c = byte '"' then (c :: next :: rest, line)
    else if c = byte '{' then
      -- `{{` is a literal brace, not a placeholder.
      if next = byte '{' then interpLoop rest line else (c :: next :: rest, line)
    else
      let line := if c = byte '\n' then line + 1 else line
      if c = byte '\\' then interpLoop rest line else interpLoop (next :: rest) line

/-- The literal text of an interpolated string up to the next single `{` or the closing `"`. -/
def interpSegment (scanner : Scanner) (placeholderType endType : TokenType) :
    SourceToken × Scanner :=
  let (current, line) := interpLoop scanner.current scanner.line
  let scanner := { scanner with current, line }
  if scanner.current.isEmpty then (scanner.errorToken "Unterminated string.", scanner)
  else
    let c := scanner.peek
    let scanner := scanner.advance
    if c = byte '{' then
      if scanner.interpDepth = MAX_INTERP_DEPTH then
        (scanner.errorToken "Interpolated strings nested too deeply.", scanner)
      else
        let scanner :=
          { scanner with
            interpBraces := Function.update scanner.interpBraces scanner.interpDepth 0
            interpDepth := scanner.interpDepth + 1 }
        (scanner.makeToken placeholderType, scanner)
    else (scanner.makeToken endType, scanner)

/-! ### Blanks and symbols -/

/-- The loop of `skipWhitespace`, inside a comment or not. A comment runs up to the end of its
line. -/
def skipLoop : Bool → Bytes → ℤ → Bytes × ℤ
  | _, [], line => ([], line)
  | comment, c :: rest, line =>
    if comment ∧ c ≠ byte '\n' then skipLoop true rest line
    else if c = byte ' ' ∨ c = byte '\r' ∨ c = byte '\t' then skipLoop false rest line
    else if c = byte '\n' then skipLoop false rest (line + 1)
    else if c = byte '#' ∧ rest.head? = some (byte '!') then skipLoop true rest line
    else if c = byte '/' ∧ rest.head? = some (byte '/') then skipLoop true rest line
    else (c :: rest, line)

def skipWhitespace (scanner : Scanner) : Scanner :=
  let (current, line) := skipLoop false scanner.current scanner.line
  { scanner with current, line }

/-- The characters that are a token by themselves. -/
def singles : List (UInt8 × TokenType) :=
  [(byte '(', .leftParen), (byte ')', .rightParen), (byte '[', .leftBracket),
    (byte ']', .rightBracket), (byte ';', .semicolon), (byte ',', .comma), (byte ':', .colon),
    (byte '.', .dot), (byte '-', .minus), (byte '+', .plus), (byte '/', .slash),
    (byte '*', .star), (byte '%', .modulo)]

/-- The characters that a second one can follow: that one, and the types with it and without. -/
def doubles : List (UInt8 × UInt8 × TokenType × TokenType) :=
  [(byte '?', byte '?', .questionQuestion, .error), (byte '&', byte '&', .and_, .error),
    (byte '|', byte '|', .or_, .error), (byte '!', byte '=', .bangEqual, .bang),
    (byte '<', byte '=', .lessEqual, .less), (byte '>', byte '=', .greaterEqual, .greater)]

/-- The switch of `scanToken` over the character it has just read. -/
def symbol (scanner : Scanner) (c : UInt8) : SourceToken × Scanner :=
  if c = byte '{' then
    let scanner :=
      if 0 < scanner.interpDepth then
        { scanner with
          interpBraces := Function.update scanner.interpBraces (scanner.interpDepth - 1)
            (scanner.interpBraces (scanner.interpDepth - 1) + 1) }
      else scanner
    (scanner.makeToken .leftBrace, scanner)
  else if c = byte '}' then
    if 0 < scanner.interpDepth then
      let open_ := scanner.interpBraces (scanner.interpDepth - 1)
      if open_ = 0 then
        -- This `}` closes the placeholder, not a brace inside it.
        { scanner with interpDepth := scanner.interpDepth - 1 }.interpSegment
          .interpMiddle .interpEnd
      else
        let scanner :=
          { scanner with
            interpBraces := Function.update scanner.interpBraces (scanner.interpDepth - 1)
              (open_ - 1) }
        (scanner.makeToken .rightBrace, scanner)
    else (scanner.makeToken .rightBrace, scanner)
  else if c = byte '"' then scanner.string
  else if c = byte '=' then
    let (equal, scanner) := scanner.matches_ (byte '=')
    if equal then (scanner.makeToken .equalEqual, scanner)
    else
      let (arrow, scanner) := scanner.matches_ (byte '>')
      (scanner.makeToken (if arrow then .fatArrow else .equal), scanner)
  else
    match singles.lookup c, doubles.lookup c with
    | some type, _ => (scanner.makeToken type, scanner)
    | none, some (second, both, alone) =>
      let (found, scanner) := scanner.matches_ second
      (scanner.makeToken (if found then both else alone), scanner)
    | none, none => (scanner.errorToken "Unexpected character.", scanner)

/-- The token that starts with the character at `start`, which is read already. -/
def lexemeFrom (scanner : Scanner) (c : UInt8) : SourceToken × Scanner :=
  if isAlpha c then scanner.identifier
  else if c = byte '@' ∧ isAlpha scanner.peek then scanner.identifier
  else if c = byte '$' ∧ scanner.peek = byte '"' then
    scanner.advance.interpSegment .interpStart .interpString
  else if isDigit c then scanner.number
  else scanner.symbol c

/-- Advance the scanner to the next token. -/
def scanToken (scanner : Scanner) : SourceToken × Scanner :=
  let scanner := scanner.skipWhitespace
  let scanner := { scanner with start := scanner.current }
  match scanner.current with
  | [] => (scanner.makeToken .eof, scanner)
  | c :: _ => scanner.advance.lexemeFrom c

end Scanner

/-- The loop of `lex`, for at most the given number of tokens. -/
def lexLoop : ℕ → Scanner → List SourceToken
  | 0, _ => []
  | rounds + 1, scanner =>
    let (token, scanner) := scanner.scanToken
    if token.type = .eof then [token] else token :: lexLoop rounds scanner

/-- The tokens of a source. Each token but the last takes a byte of it, so the loop ends within
this many rounds. -/
def lex (source : Bytes) : List SourceToken := lexLoop (source.length + 1) (initScanner source)

/-- Tokens before the end of the source, read one after the other. -/
inductive Scans : Scanner → List SourceToken → Scanner → Prop
  | done (scanner : Scanner) : Scans scanner [] scanner
  | step {scanner mid last : Scanner} {token : SourceToken} {tokens : List SourceToken}
      (scan : scanner.scanToken = (token, mid)) (notEnd : token.type ≠ .eof)
      (rest : Scans mid tokens last) : Scans scanner (token :: tokens) last

end KirbyLang
