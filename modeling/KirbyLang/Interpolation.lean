import KirbyLang.ScanContext

/-!
# Interpolated strings

`$"s0{e1}s1...{en}sn"` is scanned piece by piece: the token of the text before the first
placeholder, the tokens of each expression as it is scanned alone, and after each of them the token
of the text up to the next placeholder or up to the closing quote.

* `TextItem`, `interpolated`: texts of an interpolated string and the whole string;
* `Placeholder`: the text of an expression that can stand in a placeholder;
* **`interpolated_scans`**: the tokens of the whole string; and on every source the scanner's depth
  of placeholders stays between 0 and `MAX_INTERP_DEPTH`.
-/

namespace KirbyLang

/-- A piece of the text of an interpolated string: an ordinary character, a backslash with the
character it escapes, or a doubled brace. -/
inductive TextItem
  | ordinary (c : UInt8)
      (plain : c ≠ byte '"' ∧ c ≠ byte '\\' ∧ c ≠ byte '{' ∧ c ≠ byte '}')
  | escape (c : UInt8)
  | leftBraces
  | rightBraces

def TextItem.bytes : TextItem → Bytes
  | .ordinary c _ => [c]
  | .escape c => [byte '\\', c]
  | .leftBraces => ascii "\x7b\x7b"
  | .rightBraces => ascii "\x7d\x7d"

def textBytes (text : List TextItem) : Bytes := text.flatMap TextItem.bytes

/-- The tokens of a source before its end. -/
def tokensOf (source : Bytes) : List SourceToken := (lex source).dropLast

/-- What can stand in a placeholder of an interpolated string that is not inside another one. -/
structure Placeholder (expression : Bytes) : Prop where
  noError : ∀ token ∈ tokensOf expression, token.type ≠ .error
  balanced : BraceBalanced ((tokensOf expression).map (·.type))
  nests : NestsWithin (MAX_INTERP_DEPTH - 1) ((tokensOf expression).map (·.type))
  notBrace : expression.head? ≠ some (byte '{')
  notInComment : (LexState.run {} expression).mode ≠ .comment

/-- The placeholders with the text behind each. -/
def placeholders : List (Bytes × List TextItem) → Bytes
  | [] => []
  | (expression, text) :: more =>
    byte '{' :: (expression ++ byte '}' :: (textBytes text ++ placeholders more))

def interpolated (first : List TextItem) (parts : List (Bytes × List TextItem)) : Bytes :=
  ascii "$\"" ++ (textBytes first ++ (placeholders parts ++ ascii "\""))

/-- What a token says wherever it stands. -/
def SourceToken.content (token : SourceToken) : TokenType × Bytes := (token.type, token.text)

def placeholderTokens : List (Bytes × List TextItem) → List (TokenType × Bytes)
  | [] => []
  | [(expression, text)] =>
    (tokensOf expression).map (·.content) ++
      [(.interpEnd, ascii "\x7d" ++ textBytes text ++ ascii "\"")]
  | (expression, text) :: part :: more =>
    (tokensOf expression).map (·.content) ++
      (.interpMiddle, ascii "\x7d" ++ textBytes text ++ ascii "\x7b") ::
        placeholderTokens (part :: more)

def interpolatedTokens (first : List TextItem) (parts : List (Bytes × List TextItem)) :
    List (TokenType × Bytes) :=
  if parts.isEmpty then [(.interpString, ascii "$\"" ++ textBytes first ++ ascii "\"")]
  else (.interpStart, ascii "$\"" ++ textBytes first ++ ascii "\x7b") :: placeholderTokens parts

/-! ### Texts -/

namespace Scanner

/-- The text of a segment is read up to the quote or the single brace behind it. -/
theorem interpLoop_text (text : List TextItem) {stop : UInt8} {rest : Bytes}
    (stops : stop = byte '"' ∨ stop = byte '{' ∧ rest.head? ≠ some (byte '{')) (line : ℤ) :
    (interpLoop (textBytes text ++ stop :: rest) line).1 = stop :: rest := by
  induction text generalizing line with
  | nil =>
    rcases rest with - | ⟨next, rest⟩
    · rw [textBytes, List.flatMap_nil, List.nil_append, interpLoop,
        if_pos (stops.imp_right And.left)]
    · rw [textBytes, List.flatMap_nil, List.nil_append, interpLoop]
      rcases stops with rfl | ⟨rfl, single⟩
      · rw [if_pos rfl]
      · have single : next ≠ byte '{' := by simpa using single
        rw [if_neg (by decide), if_pos rfl, if_neg single]
  | cons item text ih =>
    obtain ⟨d, tail, eq⟩ : ∃ d tail, textBytes text ++ stop :: rest = d :: tail :=
      List.exists_cons_of_ne_nil (by simp)
    have split : textBytes (item :: text) ++ stop :: rest =
        item.bytes ++ (textBytes text ++ stop :: rest) := by
      rw [textBytes, List.flatMap_cons, List.append_assoc, textBytes]
    rw [split]
    cases item with
    | ordinary c plain =>
      rw [TextItem.bytes, eq, List.cons_append, List.nil_append, interpLoop, if_neg plain.1,
        if_neg plain.2.2.1]
      dsimp only
      rw [if_neg plain.2.1, ← eq]
      exact ih _
    | escape c =>
      rw [TextItem.bytes, List.cons_append, List.cons_append, List.nil_append, interpLoop,
        if_neg (by decide), if_neg (by decide)]
      exact ih _
    | leftBraces =>
      rw [TextItem.bytes, show ascii "\x7b\x7b" = [byte '{', byte '{'] from rfl, List.cons_append,
        List.cons_append, List.nil_append, interpLoop, if_neg (by decide), if_pos rfl, if_pos rfl]
      exact ih _
    | rightBraces =>
      rw [TextItem.bytes, show ascii "\x7d\x7d" = [byte '}', byte '}'] from rfl, List.cons_append,
        List.cons_append, List.nil_append, interpLoop, if_neg (by decide), if_neg (by decide)]
      dsimp only
      rw [if_neg (by decide), eq, interpLoop, if_neg (by decide), if_neg (by decide)]
      dsimp only
      rw [if_neg (by decide), ← eq]
      exact ih _

section Segment

variable {scanner : Scanner} {before : Bytes} {text : List TextItem} {stop : UInt8} {rest : Bytes}

/-- The bytes of a token that was started a while ago. -/
theorem text_makeToken {scanner : Scanner} {lexeme : Bytes}
    (start : scanner.start = lexeme ++ scanner.current) (type : TokenType) :
    (scanner.makeToken type).text = lexeme := by
  rw [SourceToken.text, makeToken, start, List.length_append, Nat.add_sub_cancel, List.take_left' rfl]

theorem interpSegment_end (start : scanner.start = before ++ scanner.current)
    (current : scanner.current = textBytes text ++ byte '"' :: rest)
    (placeholderType endType : TokenType) :
    ∃ token next, scanner.interpSegment placeholderType endType = (token, next) ∧
      next.current = rest ∧ token.content = (endType, before ++ textBytes text ++ ascii "\"") := by
  have loop : (interpLoop scanner.current scanner.line).1 = byte '"' :: rest := by
    rw [current]
    exact interpLoop_text text (.inl rfl) _
  simp only [interpSegment, loop, List.isEmpty_cons, Bool.false_eq_true, if_false, advance, peek,
    List.tail_cons, List.headD_cons]
  rw [if_neg (by decide)]
  refine ⟨_, _, rfl, rfl, Prod.ext rfl (text_makeToken ?_ _)⟩
  rw [start, current, List.append_assoc, List.append_assoc]
  rfl

theorem interpSegment_placeholder (start : scanner.start = before ++ scanner.current)
    (current : scanner.current = textBytes text ++ byte '{' :: rest)
    (single : rest.head? ≠ some (byte '{')) (depth : scanner.interpDepth = 0)
    (placeholderType endType : TokenType) :
    ∃ token next, scanner.interpSegment placeholderType endType = (token, next) ∧
      next.current = rest ∧ Levels next.interpBraces next.interpDepth [0] ∧
      token.content = (placeholderType, before ++ textBytes text ++ ascii "\x7b") := by
  have loop : (interpLoop scanner.current scanner.line).1 = byte '{' :: rest := by
    rw [current]
    exact interpLoop_text text (.inr ⟨rfl, single⟩) _
  simp only [interpSegment, loop, List.isEmpty_cons, Bool.false_eq_true, if_false, advance, peek,
    List.tail_cons, List.headD_cons]
  have room : scanner.interpDepth ≠ MAX_INTERP_DEPTH := by
    rw [depth]
    decide
  rw [if_pos trivial, if_neg room]
  refine ⟨_, _, rfl, rfl, Levels.push depth, Prod.ext rfl (text_makeToken ?_ _)⟩
  rw [start, current, List.append_assoc, List.append_assoc]
  rfl

end Segment

end Scanner

open Scanner

/-! ### Placeholders -/

theorem opened_eq_zero {levels : List ℕ} {ground : ℕ} (closed : opened levels ground = 0) :
    levels = [] ∧ ground = 0 := by
  have nonneg : ∀ levels : List ℕ, 0 ≤ (levels.map fun n : ℕ => (n : ℤ) + 1).sum := by
    intro levels
    induction levels with
    | nil => exact le_rfl
    | cons n levels ih =>
      rw [List.map_cons, List.sum_cons]
      omega
  cases levels with
  | nil => exact ⟨rfl, by simpa [opened] using closed⟩
  | cons n levels =>
    have := nonneg levels
    simp only [opened, List.map_cons, List.sum_cons] at closed
    omega

theorem tokensOf_eq {source : Bytes} {tokens : List SourceToken} {last : Scanner}
    (eq : lex source = tokens ++ [last.atStart.makeToken .eof]) : tokensOf source = tokens := by
  rw [tokensOf, eq, List.dropLast_concat]

/-- An expression in a placeholder is scanned as it is alone, up to the placeholder's brace. -/
theorem placeholder_scans {expression after : Bytes} (placeholder : Placeholder expression)
    {scanner : Scanner} (current : scanner.current = expression ++ byte '}' :: after)
    (counters : Levels scanner.interpBraces scanner.interpDepth [0]) :
    ∃ tokens last, Scans scanner tokens last ∧
      tokens.map (·.content) = (tokensOf expression).map (·.content) ∧
      last.atStart.current = byte '}' :: after ∧
      Levels last.interpBraces last.interpDepth [0] := by
  obtain ⟨tokens, alone, scans, atEnd, eq⟩ := lex_scans expression
  have tokens_eq := tokensOf_eq eq
  obtain ⟨noError, balanced, nests, -, notInComment⟩ := placeholder
  rw [tokens_eq] at noError balanced nests ⊢
  have beside : Beside (byte '}' :: after) (initScanner expression) scanner [] 0 [] :=
    ⟨current, rfl, counters⟩
  obtain ⟨tokens', last, levels, ground, scans', same, beside', total⟩ :=
    scans_beside scans beside noError
      (fun n => by simpa [opened] using balanced.1 n)
      (fun n => by
        have := nests n
        unfold MAX_INTERP_DEPTH at this
        simp only [List.length_nil, Nat.cast_zero]
        omega)
  obtain ⟨rfl, rfl⟩ : levels = [] ∧ ground = 0 := by
    refine opened_eq_zero ?_
    rw [total, balanced.2]
    rfl
  obtain ⟨seen, n, run⟩ := scans_mode scans noError (nested_init expression) 0
  have closed : ((⟨.code, seen, n⟩ : LexState).run alone.current).mode ≠ .comment := by
    rw [← run]
    exact notInComment
  have lexeme := beside'.atStart seen n (.inl closed)
  refine ⟨tokens', last, scans', same, ?_, beside'.insideLevels⟩
  rw [lexeme.current, atEnd, List.nil_append]

/-- The brace that closes a placeholder. -/
theorem scanToken_closing {scanner : Scanner} {after : Bytes}
    (current : scanner.atStart.current = byte '}' :: after)
    (counters : Levels scanner.interpBraces scanner.interpDepth [0]) :
    scanner.scanToken =
      { scanner.atStart.advance with interpDepth := 0 }.interpSegment .interpMiddle .interpEnd := by
  have depth : scanner.interpDepth = 1 := counters.depth_eq
  have counter : scanner.interpBraces 0 = 0 := by
    have := counters.1
    rwa [depth] at this
  have lexeme : scanner.atStart.advance.lexemeFrom (byte '}') =
      scanner.atStart.advance.symbol (byte '}') := by
    unfold lexemeFrom
    rw [if_neg (by decide), if_neg (fun native => absurd native.1 (by decide)),
      if_neg (fun interp => absurd interp.1 (by decide)), if_neg (by decide)]
  have inside : scanner.atStart.advance.interpDepth = 1 := depth
  rw [scanToken_lexeme current, lexeme, symbol_closeBrace, inside]
  exact if_pos counter

/-- Behind a brace that opens, there is no second one. -/
theorem placeholder_head {expression after : Bytes} (placeholder : Placeholder expression) :
    (expression ++ byte '}' :: after).head? ≠ some (byte '{') := by
  have notBrace := placeholder.notBrace
  rcases expression with - | ⟨c, rest⟩
  · exact fun eq => absurd (Option.some.inj eq) (by decide)
  · exact notBrace

/-- The tokens of an expression, and the segment of text behind it. -/
theorem placeholder_closes {expression after : Bytes} (placeholder : Placeholder expression)
    {scanner : Scanner} (current : scanner.current = expression ++ byte '}' :: after)
    (counters : Levels scanner.interpBraces scanner.interpDepth [0]) :
    ∃ (tokens : List SourceToken) (last segment : Scanner), Scans scanner tokens last ∧
      tokens.map (·.content) = (tokensOf expression).map (·.content) ∧
      last.scanToken = segment.interpSegment .interpMiddle .interpEnd ∧
      segment.start = ascii "\x7d" ++ segment.current ∧ segment.current = after ∧
      segment.interpDepth = 0 := by
  obtain ⟨tokens, last, scans, same, at_, counters'⟩ :=
    placeholder_scans placeholder current counters
  have rest : last.atStart.advance.current = after := by
    change last.atStart.current.tail = after
    rw [at_, List.tail_cons]
  refine ⟨tokens, last, _, scans, same, scanToken_closing at_ counters', ?_, rest, rfl⟩
  change last.atStart.current = ascii "\x7d" ++ last.atStart.advance.current
  rw [rest]
  exact at_

theorem placeholders_scan {parts : List (Bytes × List TextItem)} {expression : Bytes}
    {text : List TextItem} (all : ∀ part ∈ (expression, text) :: parts, Placeholder part.1)
    {scanner : Scanner}
    (current : scanner.current =
      expression ++ byte '}' :: (textBytes text ++ (placeholders parts ++ ascii "\"")))
    (counters : Levels scanner.interpBraces scanner.interpDepth [0]) :
    ∃ tokens last, Scans scanner tokens last ∧
      tokens.map (·.content) = placeholderTokens ((expression, text) :: parts) ∧
      last.current = [] := by
  induction parts generalizing expression text scanner with
  | nil =>
    obtain ⟨tokens, last, segment, scans, same, closing, start, rest, -⟩ :=
      placeholder_closes (all (expression, text) (by simp)) current counters
    obtain ⟨token, next, ends, atEnd, content⟩ :=
      interpSegment_end start rest .interpMiddle .interpEnd
    rw [← closing] at ends
    have type : token.type = .interpEnd := congrArg Prod.fst content
    refine ⟨tokens ++ [token], next, scans.append (.step ends (by rw [type]; decide) (.done _)), ?_,
      atEnd⟩
    rw [List.map_append, same, List.map_singleton, content, placeholderTokens]
  | cons part parts ih =>
    obtain ⟨expression', text'⟩ := part
    have split : placeholders ((expression', text') :: parts) ++ ascii "\"" =
        byte '{' :: (expression' ++ byte '}' ::
          (textBytes text' ++ (placeholders parts ++ ascii "\""))) := by
      simp [placeholders]
    rw [split] at current
    obtain ⟨tokens, last, segment, scans, same, closing, start, rest, depth⟩ :=
      placeholder_closes (all (expression, text) (by simp)) current counters
    obtain ⟨token, next, opens, current', deeper, content⟩ := interpSegment_placeholder start rest
      (placeholder_head (all (expression', text') (by simp))) depth .interpMiddle .interpEnd
    rw [← closing] at opens
    have type : token.type = .interpMiddle := congrArg Prod.fst content
    obtain ⟨tokens', last', scans', same', atEnd⟩ :=
      ih (fun part mem => all part (List.mem_cons_of_mem _ mem)) current' deeper
    refine ⟨tokens ++ token :: tokens', last',
      scans.append (.step opens (by rw [type]; decide) scans'), ?_, atEnd⟩
    rw [List.map_append, same, List.map_cons, content, same', placeholderTokens]

/-! ### Whole strings -/

/-- The start of an interpolated string. -/
theorem scanToken_start (rest : Bytes) :
    (initScanner (ascii "$\"" ++ rest)).scanToken =
      { initScanner (ascii "$\"" ++ rest) with current := rest }.interpSegment
        .interpStart .interpString := by
  have current : (initScanner (ascii "$\"" ++ rest)).atStart.current =
      byte '$' :: byte '"' :: rest := rfl
  rw [scanToken_lexeme current]
  unfold lexemeFrom
  rw [if_neg (by decide), if_neg (fun native => absurd native.1 (by decide))]
  exact if_pos ⟨rfl, rfl⟩

theorem atStart_nil {scanner : Scanner} (atEnd : scanner.current = []) :
    scanner.atStart.current = [] := by
  change (skipLoop false scanner.current scanner.line).1 = []
  rw [atEnd, skipLoop]

theorem interpolated_lex {first : List TextItem} {parts : List (Bytes × List TextItem)}
    (all : ∀ part ∈ parts, Placeholder part.1) :
    (lex (interpolated first parts)).map (·.content) =
      interpolatedTokens first parts ++ [(.eof, [])] := by
  obtain ⟨tokens, last, scans, same, atEnd⟩ : ∃ tokens last,
      Scans (initScanner (interpolated first parts)) tokens last ∧
        tokens.map (·.content) = interpolatedTokens first parts ∧ last.current = [] := by
    have scan := scanToken_start (textBytes first ++ (placeholders parts ++ ascii "\""))
    set segment : Scanner := { initScanner (interpolated first parts) with
      current := textBytes first ++ (placeholders parts ++ ascii "\"") } with segment_def
    have start : segment.start = ascii "$\"" ++ segment.current := rfl
    cases parts with
    | nil =>
      obtain ⟨token, next, ends, atEnd, content⟩ :=
        interpSegment_end start rfl .interpStart .interpString
      have type : token.type = .interpString := congrArg Prod.fst content
      have step := Scans.step (scan.trans ends) (by rw [type]; decide) (.done next)
      exact ⟨[token], next, step, by rw [List.map_singleton, content]; rfl, atEnd⟩
    | cons part parts =>
      obtain ⟨expression, text⟩ := part
      have current : segment.current = textBytes first ++ byte '{' ::
          (expression ++ byte '}' :: (textBytes text ++ (placeholders parts ++ ascii "\""))) := by
        simp [segment_def, placeholders]
      obtain ⟨token, next, opens, current', counters, content⟩ := interpSegment_placeholder start
        current (placeholder_head (all (expression, text) (by simp))) rfl .interpStart .interpString
      have type : token.type = .interpStart := congrArg Prod.fst content
      obtain ⟨tokens, last, scans, same, atEnd⟩ := placeholders_scan all current' counters
      refine ⟨token :: tokens, last, .step (scan.trans opens) (by rw [type]; decide) scans, ?_, atEnd⟩
      rw [List.map_cons, content, same]
      rfl
  have eof : (last.atStart.makeToken .eof).content = (.eof, []) := by
    have empty : last.atStart.start = [] := atStart_nil atEnd
    refine Prod.ext rfl ?_
    change (last.atStart.start.take _) = []
    rw [empty, List.take_nil]
  rw [lex_of_scans scans (atStart_nil atEnd), List.map_append, same, List.map_singleton, eof]

/-- **An interpolated string is scanned piece by piece, its expressions as they are scanned alone;
and on every source, the depth of placeholders stays within its array.** -/
theorem interpolated_scans (first : List TextItem) (parts : List (Bytes × List TextItem))
    (source : Bytes) :
    ((∀ part ∈ parts, Placeholder part.1) →
      (lex (interpolated first parts)).map (·.content) =
        interpolatedTokens first parts ++ [(.eof, [])]) ∧
    ∀ (tokens : List SourceToken) (last : Scanner), Scans (initScanner source) tokens last →
      0 ≤ last.interpDepth ∧ last.interpDepth ≤ MAX_INTERP_DEPTH :=
  ⟨interpolated_lex, fun _ _ scans => scans_depth scans⟩

/-- ` { "}"; $"b{c}" } ` -/
def nestedExpression : Bytes := ascii " \x7b \"\x7d\"; $\"b\x7bc\x7d\" \x7d "

theorem placeholder_nested : Placeholder nestedExpression := by
  have htypes : (tokensOf nestedExpression).map (·.type) =
      [.leftBrace, .string, .semicolon, .interpStart, .identifier, .interpEnd, .rightBrace] := by
    decide +kernel
  have htake : ∀ n, ((tokensOf nestedExpression).map (·.type)).take n =
      ((tokensOf nestedExpression).map (·.type)).take (min n 7) := by
    intro n
    rw [htypes, List.take_eq_take_iff]
    simp
  constructor
  · decide +kernel
  · refine ⟨fun n => ?_, by rw [htypes]; rfl⟩
    have hprefixes : ∀ m < 8, 0 ≤ ((((tokensOf nestedExpression).map (·.type)).take m).map
        braceDelta).sum := by
      rw [htypes]
      decide
    rw [htake]
    exact hprefixes _ (by omega)
  · intro n
    have hprefixes : ∀ m < 8, ((((tokensOf nestedExpression).map (·.type)).take m).map
        interpDelta).sum ≤ MAX_INTERP_DEPTH - 1 := by
      rw [htypes]
      decide
    rw [htake]
    exact hprefixes _ (by omega)
  · decide
  · decide +kernel

/-- Two placeholders, each with a block, a string and an interpolated string in it, between doubled
braces. -/
theorem interpolated_scans_nested :
    (lex (interpolated [.leftBraces]
      [(nestedExpression, [.escape (byte '"')]), (nestedExpression, [.rightBraces])])).map
        (·.content) =
      interpolatedTokens [.leftBraces]
        [(nestedExpression, [.escape (byte '"')]), (nestedExpression, [.rightBraces])] ++
          [(.eof, [])] := by
  refine (interpolated_scans [.leftBraces] _ []).1 fun part hpart => ?_
  rcases List.mem_cons.mp hpart with rfl | hpart
  · exact placeholder_nested
  · obtain rfl := List.mem_singleton.mp hpart
    exact placeholder_nested

end KirbyLang
