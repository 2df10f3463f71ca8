import KirbyLang.ScanRuns

/-!
# Tokens tile the source

When no token of a source is an error, the lexemes lie in the source one after the other, with
nothing but blanks and comments between them, and the last token is the end of the source. A
token's line is one more than the number of newlines up to its end exactly when no newline of the
source is escaped by a backslash: `string` and `interpSegment` step over an escaped character
without looking at it, so they do not count such a newline, and every later token is a line short.

* `Blank`, `Tiles`: gaps between lexemes, and lexemes in their order;
* `lexLoop_tiles`, `lexLoop_lines`: what the loop of `lex` comes to from any state;
* **`tilesWithLines_iff`**: the tokens tile the source and carry its lines if and only if
  `escapedNewlines` is 0.
-/

namespace KirbyLang

/-- Spaces, tabs, carriage returns, newlines and comments, when `after` comes next. A comment goes up
to the end of its line, or of the source. -/
inductive Blank (after : Bytes) : Bytes → Prop
  | nil : Blank after []
  | space {c : UInt8} {gap : Bytes}
      (isBlank : c ∈ [byte ' ', byte '\t', byte '\r', byte '\n']) (rest : Blank after gap) :
      Blank after (c :: gap)
  | comment {opener body gap : Bytes} (opens : opener = ascii "//" ∨ opener = ascii "#!")
      (oneLine : byte '\n' ∉ body)
      (ends : gap ++ after = [] ∨ (gap ++ after).head? = some (byte '\n'))
      (rest : Blank after gap) : Blank after (opener ++ body ++ gap)

/-- The tokens are the lexemes of a text in their order, with blanks around them, and the end of the
text. A token points at the text from its lexeme on. -/
inductive Tiles : Bytes → List SourceToken → Prop
  | last {gap : Bytes} {token : SourceToken} (blank : Blank [] gap) (isEnd : token.type = .eof)
      (start : token.start = []) (length : token.length = 0) : Tiles gap [token]
  | more {gap lexeme rest : Bytes} {token : SourceToken} {tokens : List SourceToken}
      (blank : Blank (lexeme ++ rest) gap) (notEnd : token.type ≠ .eof) (nonempty : lexeme ≠ [])
      (start : token.start = lexeme ++ rest) (length : token.length = lexeme.length)
      (others : Tiles rest tokens) : Tiles (gap ++ lexeme ++ rest) (token :: tokens)

/-- The source after a token. -/
def SourceToken.after (token : SourceToken) : Bytes := token.start.drop token.length

/-- The source up to a token's end. -/
def SourceToken.upTo (token : SourceToken) (source : Bytes) : Bytes :=
  source.take (source.length - token.after.length)

/-- The tokens tile the source, and each one's line is one plus the number of newlines before its
end. -/
structure TilesWithLines (source : Bytes) : Prop where
  tiles : Tiles source (lex source)
  lines : ∀ token ∈ lex source, token.line = 1 + newlines (token.upTo source)

/-! ### Gaps -/

namespace Scanner

/-- A gap that starts inside a comment or not. -/
def GapFrom (after : Bytes) : Bool → Bytes → Prop
  | false, gap => Blank after gap
  | true, gap => ∃ body rest, gap = body ++ rest ∧ byte '\n' ∉ body ∧
      (rest ++ after = [] ∨ (rest ++ after).head? = some (byte '\n')) ∧ Blank after rest

/-- The comment that starts with these two characters. -/
theorem GapFrom.opens {after gap : Bytes} {c d : UInt8}
    (opener : [c, d] = ascii "//" ∨ [c, d] = ascii "#!")
    (inside : GapFrom after true gap) (second : (gap ++ after).head? = some d) :
    Blank after (c :: gap) := by
  obtain ⟨body, rest, rfl, oneLine, ends, blank⟩ := inside
  rcases body with - | ⟨e, body⟩
  · -- Then the second character would end the line.
    rw [List.nil_append] at second
    have newline : d = byte '\n' := by
      rcases ends with ends | ends
      · rw [ends] at second
        simp at second
      · exact Option.some.inj (second.symm.trans ends)
    subst newline
    rcases opener with opener | opener
    · exact absurd (List.cons.inj (List.cons.inj opener).2).1 (by decide)
    · exact absurd (List.cons.inj (List.cons.inj opener).2).1 (by decide)
  · obtain rfl : e = d := by simpa using second
    exact Blank.comment opener (fun mem => oneLine (List.mem_cons_of_mem _ mem)) ends blank

theorem skipLoop_gap (comment : Bool) (current : Bytes) (line : ℤ) :
    ∃ gap, current = gap ++ (skipLoop comment current line).1 ∧
      GapFrom (skipLoop comment current line).1 comment gap := by
  fun_induction skipLoop comment current line with
  | case1 comment line =>
    cases comment
    · exact ⟨[], rfl, Blank.nil⟩
    · exact ⟨[], rfl, [], [], rfl, by simp, .inl rfl, Blank.nil⟩
  | case2 comment c rest line inside ih =>
    obtain ⟨gap, eq, body, blanks, rfl, oneLine, ends, blank⟩ := ih
    rw [inside.1]
    refine ⟨c :: (body ++ blanks), by rw [List.cons_append, ← eq], c :: body, blanks, rfl, ?_,
      ends, blank⟩
    exact fun mem => (List.mem_cons.1 mem).elim (fun same => inside.2 same.symm) oneLine
  | case3 comment c rest line outside blank ih =>
    obtain ⟨gap, eq, gapFrom⟩ := ih
    have code : comment = false := by grind
    rw [code]
    exact ⟨c :: gap, by rw [List.cons_append, ← eq], Blank.space (by simp; tauto) gapFrom⟩
  | case4 comment rest line outside notBlank ih =>
    obtain ⟨gap, eq, gapFrom⟩ := ih
    have blank := Blank.space (c := byte '\n') (by simp) gapFrom
    refine ⟨byte '\n' :: gap, by rw [List.cons_append, ← eq], ?_⟩
    cases comment
    · exact blank
    · exact ⟨[], _, rfl, by simp, .inr rfl, blank⟩
  | case5 comment c rest line outside notBlank notNewline hash ih =>
    obtain ⟨gap, eq, gapFrom⟩ := ih
    have code : comment = false := by grind
    rw [code]
    obtain ⟨rfl, second⟩ := hash
    refine ⟨byte '#' :: gap, by rw [List.cons_append, ← eq], ?_⟩
    exact GapFrom.opens (.inr (by decide)) gapFrom (eq ▸ second)
  | case6 comment c rest line outside notBlank notNewline notHash slash ih =>
    obtain ⟨gap, eq, gapFrom⟩ := ih
    have code : comment = false := by grind
    rw [code]
    obtain ⟨rfl, second⟩ := slash
    refine ⟨byte '/' :: gap, by rw [List.cons_append, ← eq], ?_⟩
    exact GapFrom.opens (.inl (by decide)) gapFrom (eq ▸ second)
  | case7 comment c rest line outside notBlank notNewline notHash notSlash =>
    have code : comment = false := by grind
    rw [code]
    exact ⟨[], rfl, Blank.nil⟩

end Scanner

/-! ### All tokens of a source -/

open Scanner

/-- What the loop of `lex` comes to from a state of the scanner, before it is known whether all
newlines are counted. -/
structure Reads (scanner : Scanner) (entry : LexState) (tokens : List SourceToken) : Prop where
  tiles : Tiles scanner.current tokens
  /-- Each token's line, up to the newlines that are escaped before its end. -/
  lines : ∀ token ∈ tokens, token.after <:+ scanner.current ∧ ∃ escaped,
    escaped ≤ (entry.run scanner.current).escaped ∧
    token.line + escaped + newlines token.after =
      scanner.line + entry.escaped + newlines scanner.current
  /-- The last token has them all before it. -/
  lastLine : ∃ token ∈ tokens, token.after = [] ∧
    token.line + (entry.run scanner.current).escaped =
      scanner.line + entry.escaped + newlines scanner.current

/-- The end of the source. -/
theorem reads_eof {scanner : Scanner} {levels : List ℕ} {n : ℕ}
    (atEnd : scanner.atStart.current = []) :
    Reads scanner ⟨.code, levels, n⟩ [scanner.atStart.makeToken .eof] := by
  obtain ⟨open_, blanks, -, -⟩ := atStart_passes scanner levels n
  obtain ⟨gap, split, blank⟩ := skipLoop_gap false scanner.current scanner.line
  have atEnd' : (skipLoop false scanner.current scanner.line).1 = [] := atEnd
  have after : (scanner.atStart.makeToken .eof).after = [] := by
    rw [SourceToken.after, makeToken, show scanner.atStart.start = [] from atEnd, List.drop_nil]
  have counted := blanks.run
  rw [atEnd, LexState.run] at counted
  have line : (scanner.atStart.makeToken .eof).line + n =
      scanner.line + n + newlines scanner.current := by
    have := blanks.line
    rw [atEnd, newlines_nil, Nat.cast_zero, add_zero] at this
    exact this
  have total : ((⟨.code, levels, n⟩ : LexState).run scanner.current).escaped = n := by
    rw [show (⟨.code, levels, n⟩ : LexState).run scanner.current = _ from counted]
  refine ⟨?_, ?_, ?_⟩
  · rw [atEnd', List.append_nil] at split
    rw [split]
    exact Tiles.last (atEnd' ▸ blank) rfl atEnd (by simp [makeToken, show scanner.atStart.start = [] from atEnd])
  · intro token mem
    obtain rfl := List.mem_singleton.1 mem
    refine ⟨after ▸ List.nil_suffix, n, total.ge, ?_⟩
    rw [after, newlines_nil, Nat.cast_zero, add_zero]
    exact line
  · refine ⟨_, List.mem_singleton_self _, after, ?_⟩
    rw [total]
    exact line

/-- One lexeme more. -/
theorem reads_lexeme {scanner next : Scanner} {levels levels' : List ℕ} {n m : ℕ}
    {type : TokenType} {tokens : List SourceToken} (more : scanner.atStart.current ≠ [])
    (covers : Covers scanner.atStart ⟨.code, levels, n⟩ next ⟨.code, levels', m⟩)
    (forward : next.current.length < scanner.atStart.current.length) (notEnd : type ≠ .eof)
    (others : Reads next ⟨.code, levels', m⟩ tokens) :
    Reads scanner ⟨.code, levels, n⟩ (next.makeToken type :: tokens) := by
  obtain ⟨open_, blanks, toEnd, -⟩ := atStart_passes scanner levels n
  obtain ⟨gap, split, blank⟩ := skipLoop_gap false scanner.current scanner.line
  have inCode : open_ = false := by
    cases open_
    · rfl
    · exact absurd (toEnd rfl) more
  subst inCode
  have passes : Passes (scanner.current, scanner.line) ⟨.code, levels, n⟩
      (next.current, next.line) ⟨.code, levels', m⟩ := blanks.trans covers.passes
  obtain ⟨lexeme, at_⟩ : next.current <:+ scanner.atStart.current := covers.passes.bytes
  have start : (next.makeToken type).start = lexeme ++ next.current := covers.start.trans at_.symm
  have length : (next.makeToken type).length = lexeme.length := by
    change (next.makeToken type).start.length - next.current.length = lexeme.length
    rw [start, List.length_append, Nat.add_sub_cancel]
  have after : (next.makeToken type).after = next.current := by
    rw [SourceToken.after, start, length, List.drop_left]
  have nonempty : lexeme ≠ [] := by
    rintro rfl
    rw [← at_] at forward
    exact absurd forward (lt_irrefl _)
  have run : (LexState.run ⟨.code, levels, n⟩ scanner.current) =
      LexState.run ⟨.code, levels', m⟩ next.current := passes.run
  refine ⟨?_, ?_, ?_⟩
  · rw [split, show (skipLoop false scanner.current scanner.line).1 = lexeme ++ next.current from
      at_.symm, ← List.append_assoc]
    have blank' : Blank (lexeme ++ next.current) gap := by
      rw [at_]
      exact blank
    exact Tiles.more blank' notEnd nonempty start length others.tiles
  · intro token mem
    rcases List.mem_cons.1 mem with rfl | mem
    · refine ⟨after ▸ passes.bytes, m, ?_, ?_⟩
      · rw [run]
        exact LexState.escaped_le_run next.current ⟨.code, levels', m⟩
      · rw [after]
        exact passes.line
    · obtain ⟨suffix, escaped, upper, line⟩ := others.lines token mem
      exact ⟨suffix.trans passes.bytes, escaped, run ▸ upper, line.trans passes.line⟩
  · obtain ⟨token, mem, atEnd, line⟩ := others.lastLine
    exact ⟨token, List.mem_cons_of_mem _ mem, atEnd, run ▸ line.trans passes.line⟩

theorem lexLoop_reads (rounds : ℕ) {scanner : Scanner} {levels : List ℕ} (n : ℕ)
    (nested : Nested scanner levels) (enough : scanner.current.length < rounds)
    (noError : ∀ token ∈ lexLoop rounds scanner, token.type ≠ .error) :
    Reads scanner ⟨.code, levels, n⟩ (lexLoop rounds scanner) := by
  induction rounds generalizing scanner levels n with
  | zero => exact absurd enough (Nat.not_lt_zero _)
  | succ rounds ih =>
    rcases start : scanner.atStart.current with - | ⟨c, rest⟩
    · rw [lexLoop, scanToken_eof start]
      exact reads_eof start
    · obtain ⟨open_, blanks, -, atLexeme⟩ := atStart_passes scanner levels n
      have more : scanner.atStart.current ≠ [] := by simp [start]
      have finishes := lexemeFrom_finishes (nested_atStart nested) (n := n) start (atLexeme more)
      have forward := scanToken_forward start
      rw [← scanToken_lexeme start] at finishes
      obtain ⟨⟨mode, levels', m⟩, code, nestedNext, read⟩ := finishes
      obtain rfl : mode = .code := code
      have shorter : scanner.atStart.current.length ≤ scanner.current.length :=
        blanks.bytes.length_le
      simp only [lexLoop] at noError ⊢
      obtain ⟨covers, type, notEnd, token⟩ := read (by
        split at noError
        · exact noError _ (by simp)
        · exact noError _ (by simp))
      have notEnd' : scanner.scanToken.1.type ≠ .eof := by
        rw [token]
        exact notEnd
      rw [if_neg notEnd'] at noError ⊢
      have others := ih m nestedNext (by omega) fun t mem => noError t (List.mem_cons_of_mem _ mem)
      rw [token]
      exact reads_lexeme more covers forward notEnd others

/-! ### The whole source -/

theorem lex_reads {source : Bytes} (noError : ∀ token ∈ lex source, token.type ≠ .error) :
    Reads (initScanner source) {} (lex source) :=
  lexLoop_reads (source.length + 1) 0 (nested_init source) (Nat.lt_succ_self _) noError

theorem newlines_upTo {source : Bytes} {token : SourceToken} (suffix : token.after <:+ source) :
    newlines source = newlines (token.upTo source) + newlines token.after := by
  obtain ⟨before, eq⟩ := suffix
  have taken : token.upTo source = before := by
    rw [SourceToken.upTo, ← eq, List.length_append, Nat.add_sub_cancel, List.take_left' rfl]
  rw [taken, ← newlines_append, eq]

/-- **A source without error tokens is tiled by its tokens with their lines if and only if none of
its newlines is escaped.** -/
theorem tilesWithLines_iff (source : Bytes) (noError : ∀ token ∈ lex source, token.type ≠ .error) :
    TilesWithLines source ↔ escapedNewlines source = 0 := by
  have reads := lex_reads noError
  have total : escapedNewlines source = ((({} : LexState)).run (initScanner source).current).escaped :=
    rfl
  constructor
  · intro right
    obtain ⟨token, mem, atEnd, line⟩ := reads.lastLine
    have counted := right.lines token mem
    have split : newlines source = newlines (token.upTo source) + newlines token.after :=
      newlines_upTo (reads.lines token mem).1
    rw [atEnd, newlines_nil, add_zero] at split
    rw [← total] at line
    simp only [initScanner, Nat.cast_zero, add_zero] at line
    omega
  · intro none_
    refine ⟨reads.tiles, fun token mem => ?_⟩
    obtain ⟨suffix, escaped, upper, line⟩ := reads.lines token mem
    have split : newlines source = newlines (token.upTo source) + newlines token.after :=
      newlines_upTo suffix
    rw [← total, none_] at upper
    simp only [initScanner, Nat.cast_zero, add_zero] at line
    omega

/-- `x // one`, a newline, and `"a` and `b" y` on the next two lines. -/
def commentAndString : Bytes := ascii "x // one\n\"a\nb\" y"

/-- The newline in the string counts for the string and for what follows it. -/
theorem tilesWithLines_iff_string :
    (TilesWithLines commentAndString ↔ escapedNewlines commentAndString = 0) ∧
      escapedNewlines commentAndString = 0 ∧
      (lex commentAndString).map (fun token => (token.type, token.line)) =
        [(.identifier, 1), (.string, 3), (.identifier, 3), (.eof, 3)] :=
  ⟨tilesWithLines_iff commentAndString (by decide +kernel), by decide +kernel, by decide +kernel⟩

/-- A string whose newline is escaped has no error token, and the lines are wrong. -/
theorem not_tilesWithLines_escaped :
    ¬ ∀ source, (∀ token ∈ lex source, token.type ≠ .error) → TilesWithLines source := by
  intro everywhere
  have noError : ∀ token ∈ lex (ascii "\"\\\n\""), token.type ≠ .error := by decide +kernel
  have wrong : ¬ ∀ token ∈ lex (ascii "\"\\\n\""),
      token.line = 1 + newlines (token.upTo (ascii "\"\\\n\"")) := by decide +kernel
  exact wrong (everywhere _ noError).lines

end KirbyLang
