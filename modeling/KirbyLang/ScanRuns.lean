import KirbyLang.LexicalModes

/-!
# Runs of the scanner

* `lex_scans`, `lex_of_scans`: the loop of `lex` as a run of the scanner up to the end of the
  source;
* `scans_mode`: over tokens without an error, the automaton follows the scanner;
* `scans_depth`: on every source, the depth of placeholders stays within the scanner's array.
-/

namespace KirbyLang

open Scanner

theorem Scans.append {a b c : Scanner} {first second : List SourceToken} (left : Scans a first b)
    (right : Scans b second c) : Scans a (first ++ second) c := by
  induction left with
  | done => exact right
  | step scan notEnd _ ih => exact .step scan notEnd (ih right)

/-- A token that is not the end takes a byte at least. -/
theorem scanToken_lt {scanner mid : Scanner} {token : SourceToken}
    (scan : scanner.scanToken = (token, mid)) (notEnd : token.type ≠ .eof) :
    mid.current.length < scanner.current.length := by
  rcases start : scanner.atStart.current with - | ⟨c, rest⟩
  · rw [scanToken_eof start] at scan
    obtain ⟨rfl, -⟩ := Prod.mk.inj scan
    exact absurd rfl notEnd
  · have forward := scanToken_forward start
    obtain ⟨open_, blanks, -⟩ := atStart_passes scanner [] 0
    rw [scan] at forward
    exact forward.trans_le blanks.bytes.length_le

theorem Scans.length_le {scanner last : Scanner} {tokens : List SourceToken}
    (scans : Scans scanner tokens last) :
    tokens.length + last.current.length ≤ scanner.current.length := by
  induction scans with
  | done => simp
  | step scan notEnd _ ih =>
    have := scanToken_lt scan notEnd
    rw [List.length_cons]
    omega

theorem lexLoop_scans {scanner last : Scanner} {tokens : List SourceToken}
    (scans : Scans scanner tokens last) (rounds : ℕ) :
    lexLoop (tokens.length + rounds) scanner = tokens ++ lexLoop rounds last := by
  induction scans with
  | done => simp
  | step scan notEnd _ ih =>
    rw [List.length_cons, Nat.succ_add, lexLoop, scan, List.cons_append, ← ih]
    exact if_neg notEnd

/-- What is read up to the end of the source is what `lex` returns. -/
theorem lex_of_scans {source : Bytes} {last : Scanner} {tokens : List SourceToken}
    (scans : Scans (initScanner source) tokens last) (atEnd : last.atStart.current = []) :
    lex source = tokens ++ [last.atStart.makeToken .eof] := by
  have length := scans.length_le
  obtain ⟨more, eq⟩ : ∃ more, source.length + 1 = tokens.length + (more + 1) :=
    ⟨source.length - tokens.length, by
      have : tokens.length ≤ source.length := le_of_add_le_left length
      omega⟩
  rw [lex, eq, lexLoop_scans scans, lexLoop, scanToken_eof atEnd]
  rfl

/-- A token where a lexeme starts, error or not: the counters stay within their room, and it is not
the end. -/
theorem scanToken_nested {scanner : Scanner} {levels : List ℕ} (nested : Nested scanner levels)
    (more : scanner.atStart.current ≠ []) :
    (∃ levels', Nested scanner.scanToken.2 levels') ∧ scanner.scanToken.1.type ≠ .eof := by
  obtain ⟨open_, -, -, atLexeme⟩ := atStart_passes scanner levels 0
  obtain ⟨c, rest, start⟩ := List.exists_cons_of_ne_nil more
  have finishes := lexemeFrom_finishes (nested_atStart nested) (n := 0) start (atLexeme more)
  rw [← scanToken_lexeme start] at finishes
  obtain ⟨exit, -, nestedNext, read⟩ := finishes
  refine ⟨⟨exit.levels, nestedNext⟩, ?_⟩
  by_cases error : scanner.scanToken.1.type = .error
  · rw [error]
    decide
  · obtain ⟨-, type, notEnd, token⟩ := read error
    rw [token]
    exact notEnd

theorem lexLoop_run (rounds : ℕ) {scanner : Scanner} {levels : List ℕ}
    (nested : Nested scanner levels) (enough : scanner.current.length < rounds) :
    ∃ tokens last, Scans scanner tokens last ∧ last.atStart.current = [] ∧
      lexLoop rounds scanner = tokens ++ [last.atStart.makeToken .eof] := by
  induction rounds generalizing scanner levels with
  | zero => exact absurd enough (Nat.not_lt_zero _)
  | succ rounds ih =>
    rcases start : scanner.atStart.current with - | ⟨c, rest⟩
    · refine ⟨[], scanner, .done scanner, start, ?_⟩
      rw [lexLoop, scanToken_eof start]
      rfl
    · obtain ⟨⟨levels', nested'⟩, notEnd⟩ := scanToken_nested nested (by simp [start])
      have scan : scanner.scanToken = (scanner.scanToken.1, scanner.scanToken.2) := rfl
      have shorter := scanToken_lt scan notEnd
      obtain ⟨tokens, last, scans, atEnd, eq⟩ := ih nested' (by omega)
      refine ⟨_ :: tokens, last, .step scan notEnd scans, atEnd, ?_⟩
      rw [List.cons_append, ← eq, lexLoop]
      exact if_neg notEnd

theorem nested_init (source : Bytes) : Nested (initScanner source) [] := ⟨rfl, by simp⟩

/-- `lex` reads the source up to its end. -/
theorem lex_scans (source : Bytes) :
    ∃ tokens last, Scans (initScanner source) tokens last ∧ last.atStart.current = [] ∧
      lex source = tokens ++ [last.atStart.makeToken .eof] :=
  lexLoop_run (source.length + 1) (nested_init source) (Nat.lt_succ_self _)

theorem Scans.nested {scanner last : Scanner} {tokens : List SourceToken} {levels : List ℕ}
    (scans : Scans scanner tokens last) (nested : Nested scanner levels) :
    ∃ levels', Nested last levels' := by
  induction scans generalizing levels with
  | done => exact ⟨levels, nested⟩
  | @step scanner mid last token tokens scan notEnd rest ih =>
    have more : scanner.atStart.current ≠ [] := by
      intro atEnd
      rw [scanToken_eof atEnd] at scan
      obtain ⟨rfl, -⟩ := Prod.mk.inj scan
      exact notEnd rfl
    obtain ⟨⟨levels', nested'⟩, -⟩ := scanToken_nested nested more
    rw [scan] at nested'
    exact ih nested'

/-- The automaton reads the rest of a source from where the scanner stands in code. -/
theorem scans_mode {scanner last : Scanner} {tokens : List SourceToken} {levels : List ℕ}
    (scans : Scans scanner tokens last) (noError : ∀ token ∈ tokens, token.type ≠ .error)
    (nested : Nested scanner levels) (n : ℕ) :
    ∃ levels' m, (⟨.code, levels, n⟩ : LexState).run scanner.current =
      (⟨.code, levels', m⟩ : LexState).run last.current := by
  induction scans generalizing levels n with
  | done => exact ⟨levels, n, rfl⟩
  | @step scanner mid last token tokens scan notEnd rest ih =>
    rcases start : scanner.atStart.current with - | ⟨c, tail⟩
    · rw [scanToken_eof start] at scan
      obtain ⟨rfl, -⟩ := Prod.mk.inj scan
      exact absurd rfl notEnd
    obtain ⟨open_, blanks, toEnd, atLexeme⟩ := atStart_passes scanner levels n
    have more : scanner.atStart.current ≠ [] := by simp [start]
    have inCode : open_ = false := by
      cases open_
      · rfl
      · exact absurd (toEnd rfl) more
    subst inCode
    have finishes := lexemeFrom_finishes (nested_atStart nested) (n := n) start (atLexeme more)
    rw [← scanToken_lexeme start, scan] at finishes
    obtain ⟨⟨mode, levels', m⟩, code, nestedNext, read⟩ := finishes
    obtain rfl : mode = .code := code
    obtain ⟨covers, -⟩ := read (noError token (by simp))
    obtain ⟨levels'', k, run⟩ := ih (fun t mem => noError t (List.mem_cons_of_mem _ mem)) nestedNext m
    exact ⟨levels'', k, (blanks.trans covers.passes).run.trans run⟩

/-- On every source, after any number of tokens, errors among them. -/
theorem scans_depth {source : Bytes} {tokens : List SourceToken} {last : Scanner}
    (scans : Scans (initScanner source) tokens last) :
    0 ≤ last.interpDepth ∧ last.interpDepth ≤ MAX_INTERP_DEPTH := by
  obtain ⟨levels, nested⟩ := scans.nested (nested_init source)
  have depth := nested.counters.depth_eq
  have room := nested.room
  unfold MAX_INTERP_DEPTH
  omega

end KirbyLang
