import KirbyLang.ScanRuns

/-!
# Scanning in a context

An expression inside a placeholder is scanned like the expression alone: one scanner reads the text
of the expression, another one the same text with the placeholder's `}` and more behind it. Each
token of the first is the token of the second, with the same type and the same bytes. The counters
of the second hold those of the first, the number of braces open on the first one's ground level,
which the first does not count, and the levels around the placeholder.

* `Beside`: the two scanners;
* `scanToken_beside`: the step; `scans_beside`: a whole run;
* `BraceBalanced`, `NestsWithin`: what the run needs of the token types.
-/

namespace KirbyLang

open Scanner

/-- How a token changes the number of open braces. The start of an interpolated string ends with a
brace, its end begins with one, and its middle does both. -/
def braceDelta : TokenType → ℤ
  | .leftBrace | .interpStart => 1
  | .rightBrace | .interpEnd => -1
  | _ => 0

/-- How a token changes the number of interpolated strings around. -/
def interpDelta : TokenType → ℤ
  | .interpStart => 1
  | .interpEnd => -1
  | _ => 0

/-- Every brace is closed, and none is closed that was not open. -/
def BraceBalanced (types : List TokenType) : Prop :=
  (∀ n, 0 ≤ ((types.take n).map braceDelta).sum) ∧ (types.map braceDelta).sum = 0

/-- Interpolated strings are at most this deep inside each other. -/
def NestsWithin (depth : ℤ) (types : List TokenType) : Prop :=
  ∀ n, ((types.take n).map interpDelta).sum ≤ depth

/-- The first scanner reads a text alone, the second one reads it with `tail` behind it. -/
structure Beside (tail : Bytes) (alone inside : Scanner) (levels : List ℕ) (ground : ℕ)
    (outer : List ℕ) : Prop where
  current : inside.current = alone.current ++ tail
  aloneLevels : Levels alone.interpBraces alone.interpDepth levels
  insideLevels : Levels inside.interpBraces inside.interpDepth (levels ++ ground :: outer)

/-- The same, in the middle of a lexeme. -/
structure InLexeme (tail : Bytes) (alone inside : Scanner) (levels : List ℕ) (ground : ℕ)
    (outer : List ℕ) : Prop extends Beside tail alone inside levels ground outer where
  start : inside.start = alone.start ++ tail
  order : alone.current.length ≤ alone.start.length

/-- All braces open in the text. -/
def opened (levels : List ℕ) (ground : ℕ) : ℤ := (levels.map fun n : ℕ => (n : ℤ) + 1).sum + ground

/-- The two scanners return the same token. -/
structure SameToken (tail : Bytes) (alone inside : SourceToken × Scanner) (levels : List ℕ)
    (ground : ℕ) (outer : List ℕ) : Prop where
  type : inside.1.type = alone.1.type
  text : inside.1.text = alone.1.text
  beside : Beside tail alone.2 inside.2 levels ground outer

/-- The two scanners return the same token, which changes the counters by its type. -/
def Follows (tail : Bytes) (levels : List ℕ) (ground : ℕ) (outer : List ℕ)
    (alone inside : SourceToken × Scanner) : Prop :=
  ∃ levels' ground', SameToken tail alone inside levels' ground' outer ∧
    opened levels' ground' = opened levels ground + braceDelta alone.1.type ∧
    (levels'.length : ℤ) = levels.length + interpDelta alone.1.type

section Context

variable {tail : Bytes} {alone inside : Scanner} {levels : List ℕ} {ground : ℕ} {outer : List ℕ}

theorem InLexeme.token (lexeme : InLexeme tail alone inside levels ground outer)
    (type : TokenType) :
    SameToken tail (alone.makeToken type, alone) (inside.makeToken type, inside) levels ground
      outer where
  type := rfl
  text := by
    have order := lexeme.order
    simp only [SourceToken.text, makeToken, lexeme.start, lexeme.current, List.length_append]
    rw [show alone.start.length + tail.length - (alone.current.length + tail.length) =
      alone.start.length - alone.current.length by omega]
    exact List.take_append_of_le_length (Nat.sub_le _ _)
  beside := lexeme.toBeside

/-- A token that leaves the counters alone. -/
theorem InLexeme.follows (lexeme : InLexeme tail alone inside levels ground outer)
    {type : TokenType} (noBrace : braceDelta type = 0) (noInterp : interpDelta type = 0) :
    Follows tail levels ground outer (alone.makeToken type, alone)
      (inside.makeToken type, inside) :=
  ⟨levels, ground, lexeme.token type, by simp [makeToken, noBrace], by simp [makeToken, noInterp]⟩

/-- Both cursors go on by the same bytes. -/
theorem InLexeme.move (lexeme : InLexeme tail alone inside levels ground outer) {rest rest' : Bytes}
    (suffix : rest <:+ alone.current) (eq : rest' = rest ++ tail) (line line' : ℤ) :
    InLexeme tail { alone with current := rest, line } { inside with current := rest', line := line' }
      levels ground outer where
  current := eq
  aloneLevels := lexeme.aloneLevels
  insideLevels := lexeme.insideLevels
  start := lexeme.start
  order := suffix.length_le.trans lexeme.order

end Context

/-! ### The loops with more text behind -/

namespace Scanner

theorem stringLoop_append (current tail : Bytes) (line line' : ℤ)
    (stops : (stringLoop current line).1 ≠ []) :
    (stringLoop (current ++ tail) line').1 = (stringLoop current line).1 ++ tail := by
  fun_induction stringLoop current line generalizing line' with
  | case1 => exact absurd rfl stops
  | case2 rest line => simp [stringLoop]
  | case3 => exact absurd rfl stops
  | case4 line next rest ordinary newLine ih =>
    rw [List.cons_append, List.cons_append, stringLoop, if_neg ordinary]
    exact ih _ stops
  | case5 c line ordinary newLine next rest notEscape ih =>
    rw [List.cons_append, List.cons_append, stringLoop, if_neg ordinary]
    dsimp only
    rw [if_neg notEscape]
    exact ih _ stops

theorem interpLoop_append (current : Bytes) {tail : Bytes} (line line' : ℤ)
    (single : tail.head? ≠ some (byte '{')) (stops : (interpLoop current line).1 ≠ []) :
    (interpLoop (current ++ tail) line').1 = (interpLoop current line).1 ++ tail := by
  fun_induction interpLoop current line generalizing line' with
  | case1 => exact absurd rfl stops
  | case2 c line ends =>
    rcases tail with - | ⟨d, tail⟩
    · rw [List.append_nil, interpLoop, if_pos ends]
    · rw [List.cons_append, List.nil_append, interpLoop]
      have single : d ≠ byte '{' := by simpa using single
      rcases ends with rfl | rfl
      · rw [if_pos rfl]
      · rw [if_neg (by decide), if_pos rfl, if_neg single]
  | case3 => exact absurd rfl stops
  | case4 next rest line => simp [interpLoop]
  | case5 rest line notQuote ih =>
    rw [List.cons_append, List.cons_append, interpLoop, if_neg notQuote, if_pos rfl, if_pos rfl]
    exact ih _ stops
  | case6 next rest line notDouble notQuote =>
    rw [List.cons_append, List.cons_append, interpLoop, if_neg notQuote, if_pos rfl,
      if_neg notDouble]
  | case7 next rest line notQuote notBrace newLine ih =>
    rw [List.cons_append, List.cons_append, interpLoop, if_neg notQuote, if_neg notBrace]
    exact ih _ stops
  | case8 c next rest line notQuote notBrace newLine notEscape ih =>
    rw [List.cons_append, List.cons_append, interpLoop, if_neg notQuote, if_neg notBrace]
    dsimp only
    rw [if_neg notEscape]
    exact ih _ stops

theorem head_append {rest tail : Bytes} {c : UInt8} (head : rest.head? = some c) :
    (rest ++ tail).head? = some c := by
  rw [List.head?_append, head, Option.some_or]

/-- What comes next in the longer text is what came next, if it is not the brace. -/
theorem head_of_append {rest after : Bytes} {c : UInt8} (notBrace : c ≠ byte '}')
    (head : (rest ++ byte '}' :: after).head? = some c) : rest.head? = some c := by
  rcases rest with - | ⟨d, rest⟩
  · exact absurd (Option.some.inj head).symm notBrace
  · exact head

/-- The blanks before a lexeme end where they ended; without a lexeme, they end at the brace,
unless a comment is open. -/
theorem skipLoop_append (comment : Bool) (current after : Bytes) (line line' : ℤ) (levels : List ℕ)
    (n : ℕ)
    (closed : ((⟨blankMode comment, levels, n⟩ : LexState).run current).mode ≠ .comment ∨
      (skipLoop comment current line).1 ≠ []) :
    (skipLoop comment (current ++ byte '}' :: after) line').1 =
      (skipLoop comment current line).1 ++ byte '}' :: after := by
  fun_induction skipLoop comment current line generalizing line' with
  | case1 comment line =>
    cases comment
    · simp [skipLoop]
    · simp [LexState.run, blankMode] at closed
  | case2 comment c rest line inside ih =>
    have step : (⟨blankMode comment, levels, n⟩ : LexState).next c rest.head? =
        ⟨blankMode true, levels, n⟩ := by grind [LexState.next, blankMode]
    rw [LexState.run, step] at closed
    rw [List.cons_append, skipLoop, if_pos inside]
    exact ih _ closed
  | case3 comment c rest line outside blank ih =>
    have step : (⟨blankMode comment, levels, n⟩ : LexState).next c rest.head? =
        ⟨blankMode false, levels, n⟩ := by grind [LexState.next, blankMode]
    rw [LexState.run, step] at closed
    rw [List.cons_append, skipLoop, if_neg outside, if_pos blank]
    exact ih _ closed
  | case4 comment rest line outside notBlank ih =>
    have step : (⟨blankMode comment, levels, n⟩ : LexState).next (byte '\n') rest.head? =
        ⟨blankMode false, levels, n⟩ := by grind [LexState.next, blankMode]
    rw [LexState.run, step] at closed
    rw [List.cons_append, skipLoop, if_neg outside, if_neg notBlank, if_pos rfl]
    exact ih _ closed
  | case5 comment c rest line outside notBlank notNewline hash ih =>
    have step : (⟨blankMode comment, levels, n⟩ : LexState).next c rest.head? =
        ⟨blankMode true, levels, n⟩ := by grind [LexState.next, blankMode]
    rw [LexState.run, step] at closed
    rw [List.cons_append, skipLoop, if_neg outside, if_neg notBlank, if_neg notNewline,
      if_pos ⟨hash.1, head_append hash.2⟩]
    exact ih _ closed
  | case6 comment c rest line outside notBlank notNewline notHash slash ih =>
    have step : (⟨blankMode comment, levels, n⟩ : LexState).next c rest.head? =
        ⟨blankMode true, levels, n⟩ := by grind [LexState.next, blankMode]
    rw [LexState.run, step] at closed
    rw [List.cons_append, skipLoop, if_neg outside, if_neg notBlank, if_neg notNewline,
      if_neg (fun hash => notHash ⟨hash.1, head_of_append (by decide) hash.2⟩),
      if_pos ⟨slash.1, head_append slash.2⟩]
    exact ih _ closed
  | case7 comment c rest line outside notBlank notNewline notHash notSlash =>
    rw [List.cons_append, skipLoop, if_neg outside, if_neg notBlank, if_neg notNewline,
      if_neg (fun hash => notHash ⟨hash.1, head_of_append (by decide) hash.2⟩),
      if_neg (fun slash => notSlash ⟨slash.1, head_of_append (by decide) slash.2⟩)]

/-! ### Lexemes with more text behind -/

theorem dropWhile_append_brace {p : UInt8 → Bool} (stops : p (byte '}') = false) (xs after : Bytes) :
    (xs ++ byte '}' :: after).dropWhile p = xs.dropWhile p ++ byte '}' :: after := by
  rw [List.dropWhile_append]
  split
  next empty =>
    rw [List.dropWhile_cons, stops, List.isEmpty_iff.1 empty]
    rfl
  next => rfl

theorem skipFraction_append (current after : Bytes) :
    skipFraction (current ++ byte '}' :: after) = skipFraction current ++ byte '}' :: after := by
  have brace : isDigit (byte '}') = false := by decide
  rcases current with - | ⟨c, - | ⟨d, rest⟩⟩
  · simp [skipFraction]
  · have alone : ¬(c = byte '.' ∧ isDigit 0) := by
      rintro ⟨-, digit⟩
      exact absurd digit (by decide)
    have inside : ¬(c = byte '.' ∧ isDigit (byte '}')) := by
      rintro ⟨-, digit⟩
      exact absurd digit (by decide)
    calc skipFraction (c :: byte '}' :: after) = c :: byte '}' :: after := if_neg inside
      _ = skipFraction [c] ++ byte '}' :: after := by
        rw [show skipFraction [c] = [c] from if_neg alone]
        rfl
  · simp only [skipFraction, List.cons_append, List.headD_cons, List.getD_cons_succ,
      List.getD_cons_zero, List.tail_cons]
    split
    · exact dropWhile_append_brace brace (d :: rest) after
    · rfl

theorem isPrefixOf_append_brace {name : Bytes} (notBrace : byte '}' ∉ name) (xs after : Bytes) :
    name.isPrefixOf (xs ++ byte '}' :: after) = name.isPrefixOf xs := by
  induction name generalizing xs with
  | nil => rw [List.isPrefixOf_nil_left, List.isPrefixOf_nil_left]
  | cons c name ih =>
    obtain ⟨first, others⟩ := not_or.1 (mt List.mem_cons.2 notBrace)
    rcases xs with - | ⟨d, xs⟩
    · change (c == byte '}' && name.isPrefixOf after) = false
      rw [beq_eq_false_iff_ne.2 (Ne.symm first), Bool.false_and]
    · simp only [List.cons_append, List.isPrefixOf, ih others]

theorem suffixKind_append (current after : Bytes) :
    suffixKind (current ++ byte '}' :: after) = suffixKind current := by
  have names : ∀ kind : NumberKind, byte '}' ∉ ascii kind.info.name := by
    intro kind
    cases kind <;> decide +kernel
  have lower : lowerFirst (current ++ byte '}' :: after) =
      lowerFirst current ++ byte '}' :: after := by
    cases current with
    | nil => simp [lowerFirst]
    | cons c rest => rfl
  unfold suffixKind
  rw [lower]
  congr 1
  funext kind
  exact isPrefixOf_append_brace (names kind) _ _

theorem numberSuffixLength_le (current : Bytes) : numberSuffixLength current ≤ current.length := by
  unfold numberSuffixLength
  cases found : suffixKind current with
  | none => exact Nat.zero_le _
  | some kind =>
    have isPrefix := List.find?_some found
    have lower : (lowerFirst current).length = current.length := by cases current <;> rfl
    rw [← lower]
    exact (List.isPrefixOf_iff_prefix.1 isPrefix).length_le

/-! ### Tokens with more text behind -/

section Context

variable {after : Bytes} {alone inside : Scanner} {levels : List ℕ} {ground : ℕ} {outer : List ℕ}

theorem lexeme_beside (lexeme : InLexeme (byte '}' :: after) alone inside levels ground outer) :
    inside.lexeme = alone.lexeme :=
  (lexeme.token .eof).text

theorem identifier_follows
    (lexeme : InLexeme (byte '}' :: after) alone inside levels ground outer) :
    Follows (byte '}' :: after) levels ground outer alone.identifier inside.identifier := by
  have names : ∀ type ∈ nameTypes, braceDelta type = 0 ∧ interpDelta type = 0 := by decide
  have moved := lexeme.move (List.dropWhile_suffix fun c => isAlpha c || isDigit c)
    (dropWhile_append_brace (by decide) alone.current after) alone.line inside.line
  rw [← lexeme.current] at moved
  have text := lexeme_beside moved
  have delta := names _ (identifierType_mem (Scanner.lexeme
    { alone with current := alone.current.dropWhile fun c => isAlpha c || isDigit c }))
  have follows := moved.follows delta.1 delta.2
  unfold identifier
  dsimp only
  rw [text]
  exact follows

theorem number_follows (lexeme : InLexeme (byte '}' :: after) alone inside levels ground outer) :
    Follows (byte '}' :: after) levels ground outer alone.number inside.number := by
  have digits : (inside.current.dropWhile isDigit) =
      alone.current.dropWhile isDigit ++ byte '}' :: after := by
    rw [lexeme.current, dropWhile_append_brace (by decide)]
  set rest := skipFraction (alone.current.dropWhile isDigit) with rest_def
  have fraction : skipFraction (inside.current.dropWhile isDigit) = rest ++ byte '}' :: after := by
    rw [digits, skipFraction_append]
  have suffix : rest <:+ alone.current :=
    (skipFraction_suffix _).trans (List.dropWhile_suffix _)
  have length : numberSuffixLength (rest ++ byte '}' :: after) = numberSuffixLength rest := by
    rw [numberSuffixLength, suffixKind_append, numberSuffixLength]
  simp only [number, fraction, length, ← rest_def]
  split
  · have dropped : (rest ++ byte '}' :: after).drop (numberSuffixLength rest) =
        rest.drop (numberSuffixLength rest) ++ byte '}' :: after :=
      List.drop_append_of_le_length (numberSuffixLength_le rest)
    exact (lexeme.move ((List.drop_suffix _ _).trans suffix) dropped _ _).follows rfl rfl
  · exact (lexeme.move suffix rfl _ _).follows rfl rfl

theorem string_follows (lexeme : InLexeme (byte '}' :: after) alone inside levels ground outer)
    (noError : alone.string.1.type ≠ .error) :
    Follows (byte '}' :: after) levels ground outer alone.string inside.string := by
  have suffix := stringLoop_suffix alone.current alone.line
  rcases stop : (stringLoop alone.current alone.line).1 with - | ⟨c, rest⟩
  · simp [string, stop, errorToken] at noError
  · have stop' : (stringLoop inside.current inside.line).1 = c :: (rest ++ byte '}' :: after) := by
      rw [lexeme.current, stringLoop_append _ _ alone.line _ (by simp [stop]), stop,
        List.cons_append]
    rw [stop] at suffix
    simp only [string, stop, stop', List.isEmpty_cons, Bool.false_eq_true, if_false, advance,
      List.tail_cons]
    exact (lexeme.move ((List.suffix_cons _ _).trans suffix) rfl _ _).follows rfl rfl

/-- The rest of an interpolated string's text. What opens in it is a placeholder. -/
theorem interpSegment_agrees
    (lexeme : InLexeme (byte '}' :: after) alone inside levels ground outer)
    {placeholderType endType : TokenType}
    (noError : (alone.interpSegment placeholderType endType).1.type ≠ .error)
    (room : (alone.interpSegment placeholderType endType).1.type = placeholderType →
      levels.length + outer.length + 1 < 16) :
    ∃ levels', SameToken (byte '}' :: after) (alone.interpSegment placeholderType endType)
        (inside.interpSegment placeholderType endType) levels' ground outer ∧
      ((alone.interpSegment placeholderType endType).1.type = placeholderType ∧
          levels' = 0 :: levels ∨
        (alone.interpSegment placeholderType endType).1.type = endType ∧ levels' = levels) := by
  have suffix := interpLoop_suffix alone.current alone.line
  rcases stop : (interpLoop alone.current alone.line).1 with - | ⟨c, rest⟩
  · simp [interpSegment, stop, errorToken] at noError
  · have stop' : (interpLoop inside.current inside.line).1 = c :: (rest ++ byte '}' :: after) := by
      rw [lexeme.current, interpLoop_append _ alone.line _ (by simp) (by simp [stop]), stop,
        List.cons_append]
    rw [stop] at suffix
    have moved := lexeme.move ((List.suffix_cons _ _).trans suffix) rfl
      (interpLoop alone.current alone.line).2 (interpLoop inside.current inside.line).2
    simp only [interpSegment, stop, stop', List.isEmpty_cons, Bool.false_eq_true, if_false, advance,
      peek, List.tail_cons, List.headD_cons] at noError room ⊢
    by_cases brace : c = byte '{'
    · rw [if_pos brace] at noError room ⊢
      rw [if_pos brace]
      by_cases full : alone.interpDepth = MAX_INTERP_DEPTH
      · rw [if_pos full] at noError
        exact absurd rfl noError
      rw [if_neg full] at room ⊢
      have depth := lexeme.insideLevels.depth_eq
      rw [List.length_append, List.length_cons] at depth
      have free : inside.interpDepth ≠ MAX_INTERP_DEPTH := by
        have := room rfl
        unfold MAX_INTERP_DEPTH
        omega
      rw [if_neg free]
      have pushed : InLexeme (byte '}' :: after)
          { alone with
            current := rest
            line := (interpLoop alone.current alone.line).2
            interpBraces := Function.update alone.interpBraces alone.interpDepth 0
            interpDepth := alone.interpDepth + 1 }
          { inside with
            current := rest ++ byte '}' :: after
            line := (interpLoop inside.current inside.line).2
            interpBraces := Function.update inside.interpBraces inside.interpDepth 0
            interpDepth := inside.interpDepth + 1 }
          (0 :: levels) ground outer :=
        { current := rfl
          aloneLevels := lexeme.aloneLevels.push
          insideLevels := lexeme.insideLevels.push
          start := lexeme.start
          order := moved.order }
      exact ⟨0 :: levels, pushed.token placeholderType, .inl ⟨rfl, rfl⟩⟩
    · rw [if_neg brace, if_neg brace]
      exact ⟨levels, moved.token endType, .inr ⟨rfl, rfl⟩⟩

theorem matches_beside (lexeme : InLexeme (byte '}' :: after) alone inside levels ground outer)
    {expected : UInt8} (notBrace : expected ≠ byte '}') :
    (inside.matches_ expected).1 = (alone.matches_ expected).1 ∧
      InLexeme (byte '}' :: after) (alone.matches_ expected).2 (inside.matches_ expected).2 levels
        ground outer := by
  unfold matches_
  by_cases found : alone.current.head? = some expected
  · rw [if_pos found, if_pos (lexeme.current ▸ head_append found)]
    have nonempty : alone.current ≠ [] := by
      intro empty
      rw [empty] at found
      exact absurd found (by simp)
    refine ⟨rfl, lexeme.move (List.tail_suffix _) ?_ _ _⟩
    rw [lexeme.current, List.tail_append_of_ne_nil nonempty]
  · rw [if_neg found, if_neg]
    · exact ⟨rfl, lexeme⟩
    · rw [lexeme.current]
      exact fun more => found (head_of_append notBrace more)

theorem openBrace_follows (lexeme : InLexeme (byte '}' :: after) alone inside levels ground outer) :
    Follows (byte '}' :: after) levels ground outer (alone.symbol (byte '{'))
      (inside.symbol (byte '{')) := by
  have nested : 0 < inside.interpDepth := lexeme.insideLevels.pos_iff.2 (by simp)
  unfold symbol
  rw [if_pos rfl, if_pos rfl, if_pos nested]
  cases levels with
  | nil =>
    have flat : ¬ 0 < alone.interpDepth := fun pos => lexeme.aloneLevels.pos_iff.1 pos rfl
    rw [if_neg flat]
    have opens : InLexeme (byte '}' :: after) alone
        { inside with
          interpBraces := Function.update inside.interpBraces (inside.interpDepth - 1)
            (inside.interpBraces (inside.interpDepth - 1) + 1) } [] (ground + 1) outer :=
      { lexeme with
        insideLevels := lexeme.insideLevels.set
          (by rw [lexeme.insideLevels.1, Nat.cast_add, Nat.cast_one]) }
    refine ⟨[], ground + 1, opens.token .leftBrace, ?_, by simp [makeToken, interpDelta]⟩
    simp [opened, makeToken, braceDelta]
  | cons n levels =>
    have deep : 0 < alone.interpDepth := lexeme.aloneLevels.pos_iff.2 (by simp)
    rw [if_pos deep]
    have opens : InLexeme (byte '}' :: after)
        { alone with
          interpBraces := Function.update alone.interpBraces (alone.interpDepth - 1)
            (alone.interpBraces (alone.interpDepth - 1) + 1) }
        { inside with
          interpBraces := Function.update inside.interpBraces (inside.interpDepth - 1)
            (inside.interpBraces (inside.interpDepth - 1) + 1) } ((n + 1) :: levels) ground outer :=
      { lexeme with
        aloneLevels := lexeme.aloneLevels.set
          (by rw [lexeme.aloneLevels.1, Nat.cast_add, Nat.cast_one])
        insideLevels := lexeme.insideLevels.set
          (by rw [lexeme.insideLevels.1, Nat.cast_add, Nat.cast_one]) }
    refine ⟨(n + 1) :: levels, ground, opens.token .leftBrace, ?_,
      by simp [makeToken, interpDelta]⟩
    simp only [opened, makeToken, braceDelta, List.map_cons, List.sum_cons, Nat.cast_add,
      Nat.cast_one]
    omega

theorem symbol_closeBrace (scanner : Scanner) :
    scanner.symbol (byte '}') =
      if 0 < scanner.interpDepth then
        if scanner.interpBraces (scanner.interpDepth - 1) = 0 then
          { scanner with interpDepth := scanner.interpDepth - 1 }.interpSegment
            .interpMiddle .interpEnd
        else
          ({ scanner with
              interpBraces := Function.update scanner.interpBraces (scanner.interpDepth - 1)
                (scanner.interpBraces (scanner.interpDepth - 1) - 1) }.makeToken .rightBrace,
            { scanner with
              interpBraces := Function.update scanner.interpBraces (scanner.interpDepth - 1)
                (scanner.interpBraces (scanner.interpDepth - 1) - 1) })
      else (scanner.makeToken .rightBrace, scanner) := by
  unfold symbol
  rw [if_neg (by decide), if_pos rfl]

theorem closeBrace_follows (lexeme : InLexeme (byte '}' :: after) alone inside levels ground outer)
    (noError : (alone.symbol (byte '}')).1.type ≠ .error)
    (isOpen : levels = [] → 0 < ground)
    (room : levels.length + interpDelta (alone.symbol (byte '}')).1.type + outer.length + 1 ≤ 16) :
    Follows (byte '}' :: after) levels ground outer (alone.symbol (byte '}'))
      (inside.symbol (byte '}')) := by
  have nested : 0 < inside.interpDepth := lexeme.insideLevels.pos_iff.2 (by simp)
  rw [symbol_closeBrace alone] at noError room ⊢
  rw [symbol_closeBrace inside, if_pos nested]
  cases levels with
  | nil =>
    have flat : ¬ 0 < alone.interpDepth := fun pos => lexeme.aloneLevels.pos_iff.1 pos rfl
    rw [if_neg flat]
    obtain ⟨rest, rfl⟩ : ∃ rest, ground = rest + 1 := Nat.exists_eq_succ_of_ne_zero (isOpen rfl).ne'
    have counter : inside.interpBraces (inside.interpDepth - 1) = (rest + 1 : ℕ) :=
      lexeme.insideLevels.1
    have positive : ((rest + 1 : ℕ) : ℤ) ≠ 0 := by exact_mod_cast Nat.succ_ne_zero rest
    rw [counter, if_neg positive]
    have closes : InLexeme (byte '}' :: after) alone
        { inside with
          interpBraces := Function.update inside.interpBraces (inside.interpDepth - 1)
            (((rest + 1 : ℕ) : ℤ) - 1) } [] rest outer :=
      { lexeme with
        insideLevels := lexeme.insideLevels.set
          (by rw [Nat.cast_add, Nat.cast_one, add_sub_cancel_right]) }
    refine ⟨[], rest, closes.token .rightBrace, ?_, by simp [makeToken, interpDelta]⟩
    simp [opened, makeToken, braceDelta]
  | cons n levels =>
    have deep : 0 < alone.interpDepth := lexeme.aloneLevels.pos_iff.2 (by simp)
    have counter : alone.interpBraces (alone.interpDepth - 1) = n := lexeme.aloneLevels.1
    have counter' : inside.interpBraces (inside.interpDepth - 1) = n := lexeme.insideLevels.1
    rw [if_pos deep] at noError room ⊢
    rw [counter] at noError room ⊢
    rw [counter']
    rcases n with - | n
    · rw [if_pos Nat.cast_zero] at noError room ⊢
      rw [if_pos Nat.cast_zero]
      have popped : InLexeme (byte '}' :: after)
          { alone with interpDepth := alone.interpDepth - 1 }
          { inside with interpDepth := inside.interpDepth - 1 } levels ground outer :=
        { lexeme with
          aloneLevels := lexeme.aloneLevels.2
          insideLevels := lexeme.insideLevels.2 }
      obtain ⟨levels', agrees, kind⟩ := interpSegment_agrees popped noError (fun middle => by
        rw [middle, show interpDelta .interpMiddle = 0 from rfl, List.length_cons] at room
        omega)
      refine ⟨levels', ground, agrees, ?_, ?_⟩
      · rcases kind with ⟨type, rfl⟩ | ⟨type, rfl⟩
        · rw [type]
          simp [opened, braceDelta]
        · rw [type]
          simp [opened, braceDelta]
          omega
      · rcases kind with ⟨type, rfl⟩ | ⟨type, rfl⟩
        · rw [type]
          simp [interpDelta]
        · rw [type]
          simp [interpDelta]
    · have positive : ((n + 1 : ℕ) : ℤ) ≠ 0 := by exact_mod_cast Nat.succ_ne_zero n
      rw [if_neg positive, if_neg positive]
      have closes : InLexeme (byte '}' :: after)
          { alone with
            interpBraces := Function.update alone.interpBraces (alone.interpDepth - 1)
              (((n + 1 : ℕ) : ℤ) - 1) }
          { inside with
            interpBraces := Function.update inside.interpBraces (inside.interpDepth - 1)
              (((n + 1 : ℕ) : ℤ) - 1) } (n :: levels) ground outer :=
        { lexeme with
          aloneLevels := lexeme.aloneLevels.set
            (by rw [Nat.cast_add, Nat.cast_one, add_sub_cancel_right])
          insideLevels := lexeme.insideLevels.set
            (by rw [Nat.cast_add, Nat.cast_one, add_sub_cancel_right]) }
      refine ⟨n :: levels, ground, closes.token .rightBrace, ?_, by simp [makeToken, interpDelta]⟩
      simp only [opened, makeToken, braceDelta, List.map_cons, List.sum_cons, Nat.cast_add,
        Nat.cast_one]
      omega

/-- What the tokens of the tables do to the counters: nothing. -/
theorem tables_delta (c : UInt8) :
    (∀ type, singles.lookup c = some type → braceDelta type = 0 ∧ interpDelta type = 0) ∧
    (∀ second both single, doubles.lookup c = some (second, both, single) → second ≠ byte '}' ∧
      braceDelta both = 0 ∧ interpDelta both = 0 ∧ braceDelta single = 0 ∧
      interpDelta single = 0) := by
  have first : ∀ row ∈ singles, braceDelta row.2 = 0 ∧ interpDelta row.2 = 0 := by decide
  have second : ∀ row ∈ doubles, row.2.1 ≠ byte '}' ∧ braceDelta row.2.2.1 = 0 ∧
      interpDelta row.2.2.1 = 0 ∧ braceDelta row.2.2.2 = 0 ∧ interpDelta row.2.2.2 = 0 := by decide
  constructor
  · intro type found
    obtain ⟨before, behind, eq, -⟩ := List.lookup_eq_some_iff.1 found
    exact first (c, type) (by simp [eq])
  · intro next both single found
    obtain ⟨before, behind, eq, -⟩ := List.lookup_eq_some_iff.1 found
    exact second (c, next, both, single) (by simp [eq])

theorem symbol_follows (lexeme : InLexeme (byte '}' :: after) alone inside levels ground outer)
    (c : UInt8) (noError : (alone.symbol c).1.type ≠ .error)
    (isOpen : (alone.symbol c).1.type = .rightBrace → levels = [] → 0 < ground)
    (room : levels.length + interpDelta (alone.symbol c).1.type + outer.length + 1 ≤ 16) :
    Follows (byte '}' :: after) levels ground outer (alone.symbol c) (inside.symbol c) := by
  by_cases left : c = byte '{'
  · subst left
    exact openBrace_follows lexeme
  by_cases right : c = byte '}'
  · subst right
    refine closeBrace_follows lexeme noError (fun flat => isOpen ?_ flat) room
    have notDeep : ¬ 0 < alone.interpDepth := fun pos => lexeme.aloneLevels.pos_iff.1 pos flat
    rw [symbol_closeBrace, if_neg notDeep]
    rfl
  unfold symbol at noError ⊢
  rw [if_neg left, if_neg right] at noError
  simp only [if_neg left, if_neg right]
  by_cases quote : c = byte '"'
  · rw [if_pos quote] at noError
    rw [if_pos quote, if_pos quote]
    exact string_follows lexeme noError
  rw [if_neg quote] at noError
  rw [if_neg quote, if_neg quote]
  by_cases equals : c = byte '='
  · rw [if_pos equals, if_pos equals]
    obtain ⟨same, moved⟩ := matches_beside lexeme (show byte '=' ≠ byte '}' by decide)
    obtain ⟨same', moved'⟩ := matches_beside moved (show byte '>' ≠ byte '}' by decide)
    rw [same, same']
    split
    · exact moved.follows rfl rfl
    · refine moved'.follows ?_ ?_ <;> split <;> rfl
  rw [if_neg equals] at noError
  rw [if_neg equals, if_neg equals]
  obtain ⟨singlesDelta, doublesDelta⟩ := tables_delta c
  rcases one : singles.lookup c with - | type
  · rcases two : doubles.lookup c with - | ⟨second, both, single⟩
    · simp only [one, two] at noError
      exact absurd rfl noError
    · obtain ⟨notBrace, bothBrace, bothInterp, singleBrace, singleInterp⟩ :=
        doublesDelta second both single two
      obtain ⟨same, moved⟩ := matches_beside lexeme notBrace
      dsimp only
      rw [same]
      refine moved.follows ?_ ?_
      · split <;> assumption
      · split <;> assumption
  · exact lexeme.follows (singlesDelta type one).1 (singlesDelta type one).2

/-- The token that starts with a character that both scanners have read. -/
theorem lexemeFrom_follows (lexeme : InLexeme (byte '}' :: after) alone inside levels ground outer)
    (c : UInt8) (noError : (alone.lexemeFrom c).1.type ≠ .error)
    (isOpen : (alone.lexemeFrom c).1.type = .rightBrace → levels = [] → 0 < ground)
    (room : levels.length + interpDelta (alone.lexemeFrom c).1.type + outer.length + 1 ≤ 16) :
    Follows (byte '}' :: after) levels ground outer (alone.lexemeFrom c) (inside.lexemeFrom c) := by
  -- The next byte is the same, or the end alone and the brace inside.
  have peeks : inside.peek = alone.peek ∨ alone.current = [] ∧ inside.peek = byte '}' := by
    simp only [peek, lexeme.current]
    rcases alone.current with - | ⟨d, rest⟩
    · exact .inr ⟨rfl, rfl⟩
    · exact .inl rfl
  have alpha : isAlpha inside.peek = isAlpha alone.peek := by
    rcases peeks with same | ⟨empty, brace⟩
    · rw [same]
    · rw [brace, peek, empty]
      decide
  have quote : inside.peek = byte '"' ↔ alone.peek = byte '"' := by
    rcases peeks with same | ⟨empty, brace⟩
    · rw [same]
    · rw [brace, peek, empty]
      decide
  unfold lexemeFrom at noError isOpen room ⊢
  rw [alpha]
  simp only [quote]
  by_cases name : isAlpha c
  · rw [if_pos name, if_pos name]
    exact identifier_follows lexeme
  rw [if_neg name] at noError isOpen room
  rw [if_neg name, if_neg name]
  by_cases native : c = byte '@' ∧ isAlpha alone.peek
  · rw [if_pos native, if_pos native]
    exact identifier_follows lexeme
  rw [if_neg native] at noError isOpen room
  rw [if_neg native, if_neg native]
  by_cases interp : c = byte '$' ∧ alone.peek = byte '"'
  · rw [if_pos interp] at noError room
    rw [if_pos interp, if_pos interp]
    have nonempty : alone.current ≠ [] := by
      intro empty
      have quoted := interp.2
      rw [peek, empty] at quoted
      exact absurd quoted (by decide)
    have moved : InLexeme (byte '}' :: after) alone.advance inside.advance levels ground outer :=
      lexeme.move (List.tail_suffix _)
        (by rw [lexeme.current, List.tail_append_of_ne_nil nonempty]) _ _
    obtain ⟨levels', agrees, kind⟩ := interpSegment_agrees moved noError (fun start => by
      rw [start, show interpDelta .interpStart = 1 from rfl] at room
      omega)
    refine ⟨levels', ground, agrees, ?_, ?_⟩
    · rcases kind with ⟨type, rfl⟩ | ⟨type, rfl⟩
      · rw [type]
        simp [opened, braceDelta]
        omega
      · rw [type]
        simp [opened, braceDelta]
    · rcases kind with ⟨type, rfl⟩ | ⟨type, rfl⟩
      · rw [type]
        simp [interpDelta]
      · rw [type]
        simp [interpDelta]
  rw [if_neg interp] at noError isOpen room
  rw [if_neg interp, if_neg interp]
  by_cases digit : isDigit c
  · rw [if_pos digit, if_pos digit]
    exact number_follows lexeme
  rw [if_neg digit] at noError isOpen room
  rw [if_neg digit, if_neg digit]
  exact symbol_follows lexeme c noError isOpen room

end Context

end Scanner

/-! ### Tokens and runs with more text behind -/

section Context

variable {after : Bytes} {alone inside : Scanner} {levels : List ℕ} {ground : ℕ} {outer : List ℕ}

/-- The two scanners where a lexeme of the first starts. -/
theorem Beside.atStart (beside : Beside (byte '}' :: after) alone inside levels ground outer)
    (seen : List ℕ) (n : ℕ)
    (closed : ((LexState.run ⟨.code, seen, n⟩ alone.current).mode ≠ .comment) ∨
      alone.atStart.current ≠ []) :
    InLexeme (byte '}' :: after) alone.atStart inside.atStart levels ground outer := by
  have loops : inside.atStart.current = alone.atStart.current ++ byte '}' :: after := by
    have := skipLoop_append false alone.current after alone.line inside.line seen n closed
    rw [← beside.current] at this
    exact this
  exact
    { current := loops
      aloneLevels := beside.aloneLevels
      insideLevels := beside.insideLevels
      start := loops
      order := le_rfl }

theorem scanToken_beside (beside : Beside (byte '}' :: after) alone inside levels ground outer)
    {token : SourceToken} {next : Scanner} (scan : alone.scanToken = (token, next))
    (notEnd : token.type ≠ .eof) (noError : token.type ≠ .error)
    (isOpen : token.type = .rightBrace → levels = [] → 0 < ground)
    (room : levels.length + interpDelta token.type + outer.length + 1 ≤ 16) :
    Follows (byte '}' :: after) levels ground outer (token, next) inside.scanToken := by
  rcases start : alone.atStart.current with - | ⟨c, rest⟩
  · rw [scanToken_eof start] at scan
    obtain ⟨rfl, -⟩ := Prod.mk.inj scan
    exact absurd rfl notEnd
  have lexeme := beside.atStart [] 0 (.inr (by simp [start]))
  have start' : inside.atStart.current = c :: (rest ++ byte '}' :: after) := by
    rw [lexeme.current, start, List.cons_append]
  have advanced : InLexeme (byte '}' :: after) alone.atStart.advance inside.atStart.advance levels
      ground outer :=
    lexeme.move (List.tail_suffix _) (by rw [start', start, List.tail_cons, List.tail_cons]) _ _
  rw [scanToken_lexeme start] at scan
  rw [scanToken_lexeme start', ← scan]
  have type : (alone.atStart.advance.lexemeFrom c).1.type = token.type := by rw [scan]
  exact lexemeFrom_follows advanced c (type ▸ noError) (type ▸ isOpen) (type ▸ room)

/-- A run of the scanner over the text alone, beside the same tokens in the context. -/
theorem scans_beside {tokens : List SourceToken} {last : Scanner} (scans : Scans alone tokens last)
    (beside : Beside (byte '}' :: after) alone inside levels ground outer)
    (noError : ∀ token ∈ tokens, token.type ≠ .error)
    (balanced : ∀ n, 0 ≤ opened levels ground + (((tokens.map (·.type)).take n).map braceDelta).sum)
    (nests : ∀ n, levels.length + (((tokens.map (·.type)).take n).map interpDelta).sum +
      outer.length + 1 ≤ 16) :
    ∃ tokens' last' levels' ground', Scans inside tokens' last' ∧
      tokens'.map (fun token => (token.type, token.text)) =
        tokens.map (fun token => (token.type, token.text)) ∧
      Beside (byte '}' :: after) last last' levels' ground' outer ∧
      opened levels' ground' = opened levels ground + ((tokens.map (·.type)).map braceDelta).sum := by
  induction scans generalizing inside levels ground with
  | done => exact ⟨[], inside, levels, ground, .done inside, rfl, beside, by simp⟩
  | @step scanner mid last token tokens scan notEnd rest ih =>
    have first := balanced 1
    have room := nests 1
    simp only [List.map_cons, List.take_succ_cons, List.take_zero, List.map_nil, List.sum_cons,
      List.sum_nil, add_zero] at first room
    have isOpen : token.type = .rightBrace → levels = [] → 0 < ground := by
      intro closes flat
      rw [closes, flat] at first
      simp only [opened, List.map_nil, List.sum_nil, zero_add, braceDelta] at first
      omega
    obtain ⟨levels', ground', agrees, openedNext, lengthNext⟩ :=
      scanToken_beside beside scan notEnd (noError token (by simp)) isOpen (by omega)
    dsimp only at openedNext lengthNext
    rcases scan' : inside.scanToken with ⟨token', mid'⟩
    rw [scan'] at agrees
    have balanced' : ∀ n, 0 ≤ opened levels' ground' +
        (((tokens.map (·.type)).take n).map braceDelta).sum := by
      intro n
      have := balanced (n + 1)
      simp only [List.map_cons, List.take_succ_cons, List.sum_cons] at this
      rw [openedNext]
      omega
    have nests' : ∀ n, levels'.length + (((tokens.map (·.type)).take n).map interpDelta).sum +
        outer.length + 1 ≤ 16 := by
      intro n
      have := nests (n + 1)
      simp only [List.map_cons, List.take_succ_cons, List.sum_cons] at this
      rw [lengthNext]
      omega
    obtain ⟨tokens', last', levels'', ground'', scans', same, beside', total⟩ :=
      ih agrees.beside (fun t mem => noError t (List.mem_cons_of_mem _ mem)) balanced' nests'
    have notEnd' : token'.type ≠ .eof := by
      rw [agrees.type]
      exact notEnd
    refine ⟨token' :: tokens', last', levels'', ground'', .step scan' notEnd' scans', ?_, beside', ?_⟩
    · rw [List.map_cons, List.map_cons, same, agrees.type, agrees.text]
    · rw [total, openedNext, List.map_cons, List.map_cons, List.sum_cons]
      omega

end Context

end KirbyLang
