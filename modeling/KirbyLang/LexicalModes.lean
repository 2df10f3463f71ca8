import KirbyLang.Scanner
import Mathlib.Data.List.TakeWhile

/-!
# What the bytes of a source belong to

A reading of a source that knows no tokens: an automaton goes over its bytes one by one and says
of each whether it is code, a comment, a string or the text of an interpolated string. The scanner
agrees with it wherever a token ends.

* `LexState.next`, `LexState.run`: the automaton, with the newlines that a backslash escapes;
* `Levels`: the scanner's array of brace counters as the automaton's stack;
* `Covers`: what a part of the scanner does to its pointers, line and counters;
* `lexemeFrom_covers`: what one token of the scanner covers.
-/

namespace KirbyLang

/-- What the next byte belongs to. -/
inductive LexMode
  | code | comment
  /-- the `"` after a `$` -/
  | opening
  | string | stringEscape
  /-- the text of an interpolated string -/
  | text
  | textEscape
  /-- the second brace of two -/
  | textBrace
  deriving DecidableEq, Repr

/-- For each open placeholder from the innermost one, `levels` has the braces still open in it;
`escaped` counts the newlines right after a backslash in a string. -/
structure LexState where
  mode : LexMode := .code
  levels : List ℕ := []
  escaped : ℕ := 0
  deriving DecidableEq, Repr

namespace LexState

/-- A brace opens in the innermost placeholder. -/
def openBrace : List ℕ → List ℕ
  | [] => []
  | n :: outer => (n + 1) :: outer

/-- A brace closes in the innermost placeholder, or closes the placeholder. -/
def closeBrace (state : LexState) : LexState :=
  match state.levels with
  | [] => state
  | 0 :: outer => { state with mode := .text, levels := outer }
  | (n + 1) :: outer => { state with levels := n :: outer }

/-- The state after the byte `c`, when `following` comes next. -/
def next (state : LexState) (c : UInt8) (following : Option UInt8) : LexState :=
  match state.mode with
  | .code =>
    if c = byte '/' ∧ following = some (byte '/') ∨ c = byte '#' ∧ following = some (byte '!') then
      { state with mode := .comment }
    else if c = byte '"' then { state with mode := .string }
    else if c = byte '$' ∧ following = some (byte '"') then { state with mode := .opening }
    else if c = byte '{' then { state with levels := openBrace state.levels }
    else if c = byte '}' then state.closeBrace
    else state
  | .comment => if c = byte '\n' then { state with mode := .code } else state
  | .opening => { state with mode := .text }
  | .string =>
    if c = byte '"' then { state with mode := .code }
    else if c = byte '\\' then { state with mode := .stringEscape }
    else state
  | .stringEscape =>
    { state with
      mode := .string
      escaped := if c = byte '\n' then state.escaped + 1 else state.escaped }
  | .text =>
    if c = byte '"' then { state with mode := .code }
    else if c = byte '\\' then { state with mode := .textEscape }
    else if c = byte '{' then
      if following = some (byte '{') then { state with mode := .textBrace }
      else { state with mode := .code, levels := 0 :: state.levels }
    else state
  | .textEscape =>
    { state with
      mode := .text
      escaped := if c = byte '\n' then state.escaped + 1 else state.escaped }
  | .textBrace => { state with mode := .text }

def run (state : LexState) : Bytes → LexState
  | [] => state
  | c :: rest => (state.next c rest.head?).run rest

end LexState

/-- How many newlines of a source are escaped by a backslash in a string or in the text of an
interpolated string. -/
def escapedNewlines (source : Bytes) : ℕ := (LexState.run {} source).escaped

def newlines (text : Bytes) : ℕ := text.count (byte '\n')

@[simp] theorem newlines_nil : newlines [] = 0 := rfl

@[simp] theorem newlines_append (a b : Bytes) : newlines (a ++ b) = newlines a + newlines b := by
  simp [newlines]

theorem newlines_cons (c : UInt8) (rest : Bytes) :
    newlines (c :: rest) = newlines rest + if c = byte '\n' then 1 else 0 := by
  simp [newlines, List.count_cons]

/-! ### The automaton -/

namespace LexState

theorem escaped_le_next (state : LexState) (c : UInt8) (following : Option UInt8) :
    state.escaped ≤ (state.next c following).escaped := by
  have close : state.closeBrace.escaped = state.escaped := by
    unfold closeBrace
    split <;> rfl
  unfold next
  split
  · grind
  · grind
  · exact le_rfl
  · grind
  · grind
  · grind
  · grind
  · exact le_rfl

theorem escaped_le_run (text : Bytes) (state : LexState) :
    state.escaped ≤ (state.run text).escaped := by
  induction text generalizing state with
  | nil => exact le_rfl
  | cons c rest ih => exact (state.escaped_le_next c rest.head?).trans (ih _)

/-- Code of a line that the automaton only passes over. -/
def Plain (c : UInt8) : Prop :=
  c ≠ byte '\n' ∧ c ≠ byte '"' ∧ c ≠ byte '{' ∧ c ≠ byte '}' ∧ c ≠ byte '/' ∧ c ≠ byte '#' ∧
    c ≠ byte '$'

instance (c : UInt8) : Decidable (Plain c) := inferInstanceAs (Decidable (_ ∧ _))

theorem next_plain {c : UInt8} (plain : Plain c) (levels : List ℕ) (n : ℕ)
    (following : Option UInt8) : (⟨.code, levels, n⟩ : LexState).next c following =
      ⟨.code, levels, n⟩ := by
  obtain ⟨-, quote, left, right, slash, hash, dollar⟩ := plain
  grind [next]

theorem newlines_plain {text : Bytes} (plain : ∀ c ∈ text, Plain c) : newlines text = 0 :=
  List.count_eq_zero.2 fun mem => (plain _ mem).1 rfl

theorem run_plain {text : Bytes} (plain : ∀ c ∈ text, Plain c) (rest : Bytes) (levels : List ℕ)
    (n : ℕ) : (⟨.code, levels, n⟩ : LexState).run (text ++ rest) =
      (⟨.code, levels, n⟩ : LexState).run rest := by
  induction text with
  | nil => rfl
  | cons c text ih =>
    rw [List.cons_append, run, next_plain (plain c (by simp))]
    exact ih fun d mem => plain d (by simp [mem])

end LexState

/-! ### The scanner beside the automaton -/

open LexState (Plain)

/-- The counters below a depth, from the innermost one. -/
def Levels (braces : ℤ → ℤ) : ℤ → List ℕ → Prop
  | depth, [] => depth = 0
  | depth, n :: outer => braces (depth - 1) = n ∧ Levels braces (depth - 1) outer

theorem Levels.depth_eq {braces : ℤ → ℤ} {levels : List ℕ} {depth : ℤ}
    (at_ : Levels braces depth levels) : depth = levels.length := by
  induction levels generalizing depth with
  | nil => simpa [Levels] using at_
  | cons n outer ih =>
    have := ih at_.2
    simp only [List.length_cons, Nat.cast_add, Nat.cast_one]
    omega

/-- A counter at or above the depth does not matter. -/
theorem Levels.update {braces : ℤ → ℤ} {levels : List ℕ} {depth i : ℤ}
    (at_ : Levels braces depth levels) (above : depth ≤ i) (value : ℤ) :
    Levels (Function.update braces i value) depth levels := by
  induction levels generalizing depth with
  | nil => exact at_
  | cons n outer ih =>
    refine ⟨?_, ih at_.2 (by omega)⟩
    rw [Function.update_of_ne (by omega)]
    exact at_.1

/-- Opening a placeholder. -/
theorem Levels.push {braces : ℤ → ℤ} {levels : List ℕ} {depth : ℤ}
    (at_ : Levels braces depth levels) :
    Levels (Function.update braces depth 0) (depth + 1) (0 :: levels) := by
  refine ⟨?_, ?_⟩
  · simp
  · rw [add_sub_cancel_right]
    exact at_.update le_rfl 0

/-- Writing the innermost counter. -/
theorem Levels.set {braces : ℤ → ℤ} {outer : List ℕ} {n : ℕ} {depth : ℤ}
    (at_ : Levels braces depth (n :: outer)) {value : ℤ} {m : ℕ} (eq : value = m) :
    Levels (Function.update braces (depth - 1) value) depth (m :: outer) :=
  ⟨by simp [eq], at_.2.update le_rfl value⟩

theorem Levels.pos_iff {braces : ℤ → ℤ} {levels : List ℕ} {depth : ℤ}
    (at_ : Levels braces depth levels) : 0 < depth ↔ levels ≠ [] := by
  rw [at_.depth_eq]
  cases levels <;> simp

/-- The scanner's counters are these, and not more than it has room for. -/
structure Nested (scanner : Scanner) (levels : List ℕ) : Prop where
  counters : Levels scanner.interpBraces scanner.interpDepth levels
  room : levels.length ≤ 16

theorem Nested.move {scanner : Scanner} {levels : List ℕ} (nested : Nested scanner levels)
    (current : Bytes) (line : ℤ) : Nested { scanner with current, line } levels :=
  ⟨nested.counters, nested.room⟩

/-- From one place and line to a later one: what is counted of the lines is what the automaton
passes on the way, without the newlines that are escaped. -/
structure Passes (before : Bytes × ℤ) (entry : LexState) (after : Bytes × ℤ) (exit : LexState) :
    Prop where
  bytes : after.1 <:+ before.1
  line : after.2 + exit.escaped + newlines after.1 =
    before.2 + entry.escaped + newlines before.1
  run : entry.run before.1 = exit.run after.1

namespace Passes

theorem refl (place : Bytes × ℤ) (state : LexState) : Passes place state place state :=
  ⟨List.suffix_refl _, rfl, rfl⟩

theorem trans {a b c : Bytes × ℤ} {p q r : LexState} (first : Passes a p b q)
    (then_ : Passes b q c r) : Passes a p c r :=
  ⟨then_.bytes.trans first.bytes, then_.line.trans first.line, first.run.trans then_.run⟩

/-- Over one byte. -/
theorem cons {c : UInt8} {rest : Bytes} {line line' : ℤ} {entry exit : LexState}
    (next : entry.next c rest.head? = exit)
    (count : line' + exit.escaped = line + entry.escaped + if c = byte '\n' then 1 else 0) :
    Passes (c :: rest, line) entry (rest, line') exit := by
  refine ⟨List.suffix_cons _ _, ?_, ?_⟩
  · simp only [newlines_cons, Nat.cast_add, Nat.cast_ite, Nat.cast_one, Nat.cast_zero]
    omega
  · rw [LexState.run, next]

/-- Over plain code. -/
theorem plain {taken : Bytes} (plain : ∀ c ∈ taken, Plain c) (rest : Bytes) (line : ℤ)
    (levels : List ℕ) (n : ℕ) :
    Passes (taken ++ rest, line) ⟨.code, levels, n⟩ (rest, line) ⟨.code, levels, n⟩ where
  bytes := List.suffix_append _ _
  line := by rw [newlines_append, LexState.newlines_plain plain, zero_add]
  run := LexState.run_plain plain rest levels n

end Passes

/-- A part of the scanner goes on in the source. -/
structure Covers (before : Scanner) (entry : LexState) (after : Scanner) (exit : LexState) :
    Prop where
  start : after.start = before.start
  passes : Passes (before.current, before.line) entry (after.current, after.line) exit

theorem Covers.trans {a b c : Scanner} {p q r : LexState} (first : Covers a p b q)
    (then_ : Covers b q c r) : Covers a p c r :=
  ⟨then_.start.trans first.start, first.passes.trans then_.passes⟩

/-- What a part of the scanner that returns a token comes to. On every token, the counters stay
within their room. -/
def Finishes (before : Scanner) (entry : LexState) (result : SourceToken × Scanner) : Prop :=
  ∃ exit : LexState, exit.mode = .code ∧ Nested result.2 exit.levels ∧
    (result.1.type ≠ .error → Covers before entry result.2 exit ∧
      ∃ type, type ≠ .eof ∧ result.1 = result.2.makeToken type)

/-- An error token. -/
theorem Finishes.error {before after : Scanner} {entry : LexState} {levels : List ℕ}
    (nested : Nested after levels) (message : String) :
    Finishes before entry (after.errorToken message, after) :=
  ⟨⟨.code, levels, 0⟩, rfl, nested, fun wrong => absurd rfl wrong⟩

/-- A token made where the scanner now is. -/
theorem Covers.token {before after : Scanner} {entry : LexState} {levels : List ℕ} {n : ℕ}
    (covers : Covers before entry after ⟨.code, levels, n⟩) (nested : Nested after levels)
    {type : TokenType} (notEnd : type ≠ .eof) :
    Finishes before entry (after.makeToken type, after) :=
  ⟨⟨.code, levels, n⟩, rfl, nested, fun _ => ⟨covers, type, notEnd, rfl⟩⟩

theorem Finishes.trans {before mid : Scanner} {entry exit : LexState}
    {result : SourceToken × Scanner} (covers : Covers before entry mid exit)
    (finishes : Finishes mid exit result) : Finishes before entry result := by
  obtain ⟨last, code, nested, rest⟩ := finishes
  exact ⟨last, code, nested, fun ok => ⟨covers.trans (rest ok).1, (rest ok).2⟩⟩

/-! ### The loops over texts -/

namespace Scanner

theorem stringLoop_passes (current : Bytes) (line : ℤ) (levels : List ℕ) (n : ℕ)
    (stops : (stringLoop current line).1 ≠ []) :
    ∃ m rest, (stringLoop current line).1 = byte '"' :: rest ∧
      Passes (current, line) ⟨.string, levels, n⟩ (stringLoop current line) ⟨.string, levels, m⟩ := by
  fun_induction stringLoop current line generalizing n with
  | case1 line => exact absurd rfl stops
  | case2 rest line => exact ⟨n, rest, rfl, Passes.refl _ _⟩
  | case3 line c ordinary line' => exact absurd rfl stops
  | case4 line next rest ordinary line' ih =>
    obtain ⟨m, last, eq, passes⟩ := ih (n + if next = byte '\n' then 1 else 0) stops
    have backslash : Passes (byte '\\' :: next :: rest, line) ⟨.string, levels, n⟩
        (next :: rest, line) ⟨.stringEscape, levels, n⟩ :=
      Passes.cons (by grind [LexState.next]) (by grind)
    have escaped : Passes (next :: rest, line) ⟨.stringEscape, levels, n⟩
        (rest, line') ⟨.string, levels, n + if next = byte '\n' then 1 else 0⟩ :=
      Passes.cons (by grind [LexState.next]) (by grind)
    exact ⟨m, last, eq, (backslash.trans escaped).trans passes⟩
  | case5 c line ordinary line' next rest notEscape ih =>
    obtain ⟨m, last, eq, passes⟩ := ih n stops
    have inside : Passes (c :: next :: rest, line) ⟨.string, levels, n⟩
        (next :: rest, line') ⟨.string, levels, n⟩ :=
      Passes.cons (by grind [LexState.next]) (by grind)
    exact ⟨m, last, eq, inside.trans passes⟩

/-- The text ends at its closing quote or where a placeholder opens. -/
theorem interpLoop_passes (current : Bytes) (line : ℤ) (levels : List ℕ) (n : ℕ)
    (stops : (interpLoop current line).1 ≠ []) :
    ∃ m c rest, (interpLoop current line).1 = c :: rest ∧
      (c = byte '"' ∨ c = byte '{' ∧ rest.head? ≠ some (byte '{')) ∧
      Passes (current, line) ⟨.text, levels, n⟩ (interpLoop current line) ⟨.text, levels, m⟩ := by
  fun_induction interpLoop current line generalizing n with
  | case1 line => exact absurd rfl stops
  | case2 c line ends => exact ⟨n, c, [], rfl, by simpa using ends, Passes.refl _ _⟩
  | case3 c line ordinary => exact absurd rfl stops
  | case4 next rest line => exact ⟨n, _, _, rfl, .inl rfl, Passes.refl _ _⟩
  | case5 rest line notQuote ih =>
    obtain ⟨m, c, last, eq, ends, passes⟩ := ih n stops
    have first : Passes (byte '{' :: byte '{' :: rest, line) ⟨.text, levels, n⟩
        (byte '{' :: rest, line) ⟨.textBrace, levels, n⟩ :=
      Passes.cons (by grind [LexState.next]) (by grind)
    have second : Passes (byte '{' :: rest, line) ⟨.textBrace, levels, n⟩
        (rest, line) ⟨.text, levels, n⟩ :=
      Passes.cons (by grind [LexState.next]) (by grind)
    exact ⟨m, c, last, eq, ends, (first.trans second).trans passes⟩
  | case6 next rest line single notQuote =>
    exact ⟨n, _, _, rfl, .inr ⟨rfl, by simpa using single⟩, Passes.refl _ _⟩
  | case7 next rest line notQuote notBrace line' ih =>
    obtain ⟨m, c, last, eq, ends, passes⟩ := ih (n + if next = byte '\n' then 1 else 0) stops
    have backslash : Passes (byte '\\' :: next :: rest, line) ⟨.text, levels, n⟩
        (next :: rest, line) ⟨.textEscape, levels, n⟩ :=
      Passes.cons (by grind [LexState.next]) (by grind)
    have escaped : Passes (next :: rest, line) ⟨.textEscape, levels, n⟩
        (rest, line') ⟨.text, levels, n + if next = byte '\n' then 1 else 0⟩ :=
      Passes.cons (by grind [LexState.next]) (by grind)
    exact ⟨m, c, last, eq, ends, (backslash.trans escaped).trans passes⟩
  | case8 c next rest line notQuote notBrace line' notEscape ih =>
    obtain ⟨m, d, last, eq, ends, passes⟩ := ih n stops
    have ordinary : Passes (c :: next :: rest, line) ⟨.text, levels, n⟩
        (next :: rest, line') ⟨.text, levels, n⟩ :=
      Passes.cons (by grind [LexState.next]) (by grind)
    exact ⟨m, d, last, eq, ends, ordinary.trans passes⟩

/-- The mode in which the loop over blanks stands. -/
def blankMode (comment : Bool) : LexMode := if comment then .comment else .code

/-- Where a lexeme starts: not at a blank and not at a comment. -/
def AtLexeme : Bytes → Prop
  | [] => False
  | c :: rest => c ≠ byte ' ' ∧ c ≠ byte '\r' ∧ c ≠ byte '\t' ∧ c ≠ byte '\n' ∧
      ¬(c = byte '/' ∧ rest.head? = some (byte '/')) ∧
      ¬(c = byte '#' ∧ rest.head? = some (byte '!'))

theorem skipLoop_passes (comment : Bool) (current : Bytes) (line : ℤ) (levels : List ℕ) (n : ℕ) :
    ∃ open_, Passes (current, line) ⟨blankMode comment, levels, n⟩
        (skipLoop comment current line) ⟨blankMode open_, levels, n⟩ ∧
      (open_ = true → (skipLoop comment current line).1 = []) ∧
      ((skipLoop comment current line).1 ≠ [] → AtLexeme (skipLoop comment current line).1) := by
  fun_induction skipLoop comment current line with
  | case1 comment line => exact ⟨comment, Passes.refl _ _, fun _ => rfl, fun rest => absurd rfl rest⟩
  | case2 comment c rest line inside ih =>
    obtain ⟨open_, passes, stop⟩ := ih
    have step : Passes (c :: rest, line) ⟨blankMode comment, levels, n⟩
        (rest, line) ⟨blankMode true, levels, n⟩ :=
      Passes.cons (by grind [LexState.next, blankMode]) (by grind)
    exact ⟨open_, step.trans passes, stop⟩
  | case3 comment c rest line outside blank ih =>
    obtain ⟨open_, passes, stop⟩ := ih
    have step : Passes (c :: rest, line) ⟨blankMode comment, levels, n⟩
        (rest, line) ⟨blankMode false, levels, n⟩ :=
      Passes.cons (by grind [LexState.next, blankMode]) (by grind)
    exact ⟨open_, step.trans passes, stop⟩
  | case4 comment rest line outside notBlank ih =>
    obtain ⟨open_, passes, stop⟩ := ih
    have step : Passes (byte '\n' :: rest, line) ⟨blankMode comment, levels, n⟩
        (rest, line + 1) ⟨blankMode false, levels, n⟩ :=
      Passes.cons (by grind [LexState.next, blankMode]) (by grind)
    exact ⟨open_, step.trans passes, stop⟩
  | case5 comment c rest line outside notBlank notNewline hash ih =>
    obtain ⟨open_, passes, stop⟩ := ih
    have step : Passes (c :: rest, line) ⟨blankMode comment, levels, n⟩
        (rest, line) ⟨blankMode true, levels, n⟩ :=
      Passes.cons (by grind [LexState.next, blankMode]) (by grind)
    exact ⟨open_, step.trans passes, stop⟩
  | case6 comment c rest line outside notBlank notNewline notHash slash ih =>
    obtain ⟨open_, passes, stop⟩ := ih
    have step : Passes (c :: rest, line) ⟨blankMode comment, levels, n⟩
        (rest, line) ⟨blankMode true, levels, n⟩ :=
      Passes.cons (by grind [LexState.next, blankMode]) (by grind)
    exact ⟨open_, step.trans passes, stop⟩
  | case7 comment c rest line outside notBlank notNewline notHash notSlash =>
    have code : comment = false := by grind
    exact ⟨false, by rw [code]; exact Passes.refl _ _, by simp, fun _ => by grind [AtLexeme]⟩

/-! ### Tokens -/

theorem plain_of_name {c : UInt8} (name : (isAlpha c || isDigit c) = true) : Plain c := by
  refine ⟨?_, ?_, ?_, ?_, ?_, ?_, ?_⟩ <;> rintro rfl <;> exact absurd name (by decide)

/-- The types of names. -/
def nameTypes : List TokenType :=
  [.identifier, .and_, .as_, .break_, .continue_, .else_, .false_, .for_, .fun_, .if_, .impl, .let_,
    .nil, .or_, .pub, .return_, .self_, .struct_, .true_, .trait_, .type_, .var, .while_]

theorem identifierType_mem (lexeme : Bytes) : identifierType lexeme ∈ nameTypes := by
  have keyword : ∀ (start : ℕ) (rest : String) (type : TokenType), type ∈ nameTypes →
      checkKeyword lexeme start rest type ∈ nameTypes := by
    intro start rest type mem
    unfold checkKeyword
    split
    · exact mem
    · decide
  fun_cases identifierType lexeme
  all_goals first | exact keyword _ _ _ (by decide) | decide

theorem identifierType_ne_eof (lexeme : Bytes) : identifierType lexeme ≠ .eof := fun eq =>
  absurd (eq ▸ identifierType_mem lexeme) (by decide)

section Tokens

variable {scanner : Scanner} {levels : List ℕ} {n : ℕ}

/-- Only plain code lies between the cursor and the token's end. -/
theorem finishes_plain (nested : Nested scanner levels) {taken rest : Bytes}
    (split : scanner.current = taken ++ rest) (plain : ∀ c ∈ taken, Plain c) {type : TokenType}
    (notEnd : type ≠ .eof) :
    Finishes scanner ⟨.code, levels, n⟩
      ({ scanner with current := rest }.makeToken type, { scanner with current := rest }) := by
  have passes := Passes.plain plain rest scanner.line levels n
  rw [← split] at passes
  have covers : Covers scanner ⟨.code, levels, n⟩ { scanner with current := rest }
      ⟨.code, levels, n⟩ := ⟨rfl, passes⟩
  exact covers.token (nested.move _ _) notEnd

theorem identifier_finishes (nested : Nested scanner levels) :
    Finishes scanner ⟨.code, levels, n⟩ scanner.identifier := by
  have taken : ∀ c ∈ scanner.current.takeWhile fun c => isAlpha c || isDigit c, Plain c :=
    fun c mem => plain_of_name (@List.mem_takeWhile_imp _ _ _ c mem)
  exact finishes_plain nested List.takeWhile_append_dropWhile.symm taken (identifierType_ne_eof _)

theorem skipFraction_plain (current : Bytes) :
    ∃ taken, current = taken ++ skipFraction current ∧ ∀ c ∈ taken, Plain c := by
  unfold skipFraction
  split
  next dot =>
    rcases current with - | ⟨c, rest⟩
    · exact ⟨[], rfl, by simp⟩
    · refine ⟨c :: rest.takeWhile isDigit, by simp [List.takeWhile_append_dropWhile], ?_⟩
      intro d mem
      rcases List.mem_cons.1 mem with rfl | mem
      · have eq : d = byte '.' := dot.1
        rw [eq]
        decide
      · exact plain_of_name (by simp [List.mem_takeWhile_imp mem])
  next => exact ⟨[], rfl, by simp⟩

theorem isAlpha_of_upper {c : UInt8} (upper : byte 'A' ≤ c ∧ c ≤ byte 'Z') :
    isAlpha c = true := by
  unfold isAlpha
  rw [decide_eq_true upper.1, decide_eq_true upper.2]
  simp

/-- The letters and digits of a suffix. -/
theorem suffix_plain (current : Bytes) :
    ∀ c ∈ current.take (numberSuffixLength current), Plain c := by
  have names : ∀ kind : NumberKind, ∀ c ∈ ascii kind.info.name,
      (isAlpha c || isDigit c) = true := by
    intro kind
    cases kind <;> decide +kernel
  intro c mem
  unfold numberSuffixLength at mem
  cases found : suffixKind current with
  | none => simp [found] at mem
  | some kind =>
    simp only [found] at mem
    have isPrefix := List.find?_some found
    obtain ⟨more, eq⟩ := List.isPrefixOf_iff_prefix.1 isPrefix
    have all := names kind
    rcases name : ascii kind.info.name with - | ⟨e, name'⟩
    · simp [name] at mem
    rcases current with - | ⟨d, rest⟩
    · simp at mem
    rw [name] at eq mem all
    obtain ⟨first, others⟩ := List.cons.inj (List.cons_append ▸ eq)
    rw [List.length_cons, List.take_succ_cons] at mem
    rcases List.mem_cons.1 mem with rfl | mem
    · by_cases upper : byte 'A' ≤ c ∧ c ≤ byte 'Z'
      · exact plain_of_name (by simp [isAlpha_of_upper upper])
      · rw [if_neg upper] at first
        exact plain_of_name (first ▸ all e (by simp))
    · rw [← others, List.take_left' rfl] at mem
      exact plain_of_name (all c (by simp [mem]))

theorem number_finishes (nested : Nested scanner levels) :
    Finishes scanner ⟨.code, levels, n⟩ scanner.number := by
  have digits : ∀ c ∈ scanner.current.takeWhile isDigit, Plain c := fun c mem =>
    plain_of_name (by rw [@List.mem_takeWhile_imp _ _ _ c mem, Bool.or_true])
  obtain ⟨fraction, split, plain⟩ := skipFraction_plain (scanner.current.dropWhile isDigit)
  have first : scanner.current = (scanner.current.takeWhile isDigit ++ fraction) ++
      skipFraction (scanner.current.dropWhile isDigit) := by
    rw [List.append_assoc, ← split, List.takeWhile_append_dropWhile]
  have both : ∀ c ∈ scanner.current.takeWhile isDigit ++ fraction, Plain c := fun c mem =>
    (List.mem_append.1 mem).elim (digits c) (plain c)
  simp only [number]
  split
  · set rest := skipFraction (scanner.current.dropWhile isDigit)
    have all : scanner.current = (scanner.current.takeWhile isDigit ++ fraction ++
        rest.take (numberSuffixLength rest)) ++ rest.drop (numberSuffixLength rest) := by
      rw [List.append_assoc _ (rest.take _), List.take_append_drop]
      exact first
    exact finishes_plain nested all
      (fun c mem => (List.mem_append.1 mem).elim (both c) (suffix_plain rest c)) (by decide)
  · exact finishes_plain nested first both (by decide)

theorem string_finishes (nested : Nested scanner levels) :
    Finishes scanner ⟨.string, levels, n⟩ scanner.string := by
  simp only [string]
  split
  next atEnd =>
    exact Finishes.error (nested.move _ _) _
  next notEnd =>
    obtain ⟨m, rest, eq, passes⟩ :=
      stringLoop_passes scanner.current scanner.line levels n (by simpa using notEnd)
    have closing : Passes (stringLoop scanner.current scanner.line) ⟨.string, levels, m⟩
        (rest, (stringLoop scanner.current scanner.line).2) ⟨.code, levels, m⟩ := by
      rw [show stringLoop scanner.current scanner.line =
        (byte '"' :: rest, (stringLoop scanner.current scanner.line).2) from Prod.ext eq rfl]
      exact Passes.cons (by grind [LexState.next]) (by grind)
    simp only [advance, eq, List.tail_cons]
    let after : Scanner :=
      { scanner with current := rest, line := (stringLoop scanner.current scanner.line).2 }
    have covers : Covers scanner ⟨.string, levels, n⟩ after ⟨.code, levels, m⟩ :=
      ⟨rfl, passes.trans closing⟩
    exact covers.token (nested.move _ _) (by decide)

theorem interpSegment_finishes (nested : Nested scanner levels) {placeholderType endType : TokenType}
    (notEnd : placeholderType ≠ .eof ∧ endType ≠ .eof) :
    Finishes scanner ⟨.text, levels, n⟩ (scanner.interpSegment placeholderType endType) := by
  simp only [interpSegment]
  split
  next atEnd =>
    exact Finishes.error (nested.move _ _) _
  next more =>
    obtain ⟨m, c, rest, eq, ends, passes⟩ :=
      interpLoop_passes scanner.current scanner.line levels n (by simpa using more)
    have pair : interpLoop scanner.current scanner.line =
        (c :: rest, (interpLoop scanner.current scanner.line).2) := Prod.ext eq rfl
    simp only [advance, peek, eq, List.tail_cons, List.headD_cons]
    split
    next brace =>
      split
      next tooDeep =>
        exact Finishes.error (nested.move _ _) _
      next room =>
        have opening : Passes (interpLoop scanner.current scanner.line) ⟨.text, levels, m⟩
            (rest, (interpLoop scanner.current scanner.line).2) ⟨.code, 0 :: levels, m⟩ := by
          rw [pair]
          exact Passes.cons (by grind [LexState.next]) (by grind)
        have deeper : levels.length < 16 := by
          have := nested.counters.depth_eq
          have := nested.room
          unfold MAX_INTERP_DEPTH at room
          omega
        let after : Scanner :=
          { scanner with
            current := rest
            line := (interpLoop scanner.current scanner.line).2
            interpBraces := Function.update scanner.interpBraces scanner.interpDepth 0
            interpDepth := scanner.interpDepth + 1 }
        have covers : Covers scanner ⟨.text, levels, n⟩ after ⟨.code, 0 :: levels, m⟩ :=
          ⟨rfl, passes.trans opening⟩
        exact covers.token ⟨nested.counters.push, deeper⟩ notEnd.1
    next notBrace =>
      have closing : Passes (interpLoop scanner.current scanner.line) ⟨.text, levels, m⟩
          (rest, (interpLoop scanner.current scanner.line).2) ⟨.code, levels, m⟩ := by
        rw [pair]
        exact Passes.cons (by grind [LexState.next]) (by grind)
      let after : Scanner :=
        { scanner with current := rest, line := (interpLoop scanner.current scanner.line).2 }
      have covers : Covers scanner ⟨.text, levels, n⟩ after ⟨.code, levels, m⟩ :=
        ⟨rfl, passes.trans closing⟩
      exact covers.token (nested.move _ _) notEnd.2

/-- The cursor goes over one byte that is not a newline. -/
theorem covers_advance {c : UInt8} {rest : Bytes} (at_ : scanner.current = c :: rest)
    {entry exit : LexState} (next : entry.next c rest.head? = exit) (notNewline : c ≠ byte '\n')
    (same : exit.escaped = entry.escaped) : Covers scanner entry scanner.advance exit := by
  refine ⟨rfl, ?_⟩
  rw [at_, advance, at_]
  exact Passes.cons next (by rw [same, if_neg notNewline, add_zero])

/-- Over one more byte of plain code, if it is the one asked for. -/
theorem matches_covers (levels : List ℕ) (n : ℕ) {expected : UInt8} (plain : Plain expected) :
    Covers scanner ⟨.code, levels, n⟩ (scanner.matches_ expected).2 ⟨.code, levels, n⟩ := by
  unfold matches_
  split
  next found =>
    obtain ⟨rest, at_⟩ : ∃ rest, scanner.current = expected :: rest := by
      rcases at_ : scanner.current with - | ⟨c, rest⟩ <;> rw [at_] at found
      · simp at found
      · exact ⟨rest, by rw [Option.some.inj found]⟩
    exact covers_advance at_ (LexState.next_plain plain _ _ _) plain.1 rfl
  next => exact ⟨rfl, Passes.refl _ _⟩

theorem matches_nested (nested : Nested scanner levels) (expected : UInt8) :
    Nested (scanner.matches_ expected).2 levels := by
  unfold matches_
  split
  · exact nested.move _ _
  · exact nested

/-- The characters that are a token by themselves. -/
theorem singles_spec {c : UInt8} {type : TokenType} (found : singles.lookup c = some type) :
    type ≠ .eof ∧ c ≠ byte '\n' ∧ c ≠ byte '#' := by
  have rows : ∀ row ∈ singles, row.2 ≠ .eof ∧ row.1 ≠ byte '\n' ∧ row.1 ≠ byte '#' := by decide
  obtain ⟨before, after, eq, -⟩ := List.lookup_eq_some_iff.1 found
  exact rows (c, type) (by simp [eq])

theorem doubles_spec {c second : UInt8} {both alone : TokenType}
    (found : doubles.lookup c = some (second, both, alone)) :
    both ≠ .eof ∧ alone ≠ .eof ∧ c ≠ byte '\n' ∧ c ≠ byte '#' ∧ Plain second := by
  have rows : ∀ row ∈ doubles, row.2.2.1 ≠ .eof ∧ row.2.2.2 ≠ .eof ∧ row.1 ≠ byte '\n' ∧
      row.1 ≠ byte '#' ∧ Plain row.2.1 := by decide
  obtain ⟨before, after, eq, -⟩ := List.lookup_eq_some_iff.1 found
  exact rows (c, second, both, alone) (by simp [eq])

/-- A character that only the code around it can see. -/
theorem covers_code {c : UInt8} {rest : Bytes} (at_ : scanner.current = c :: rest)
    (lexeme : AtLexeme scanner.current) (notInterp : ¬(c = byte '$' ∧ rest.head? = some (byte '"')))
    (notQuote : c ≠ byte '"') (notLeft : c ≠ byte '{') (notRight : c ≠ byte '}') (levels : List ℕ)
    (n : ℕ) : Covers scanner ⟨.code, levels, n⟩ scanner.advance ⟨.code, levels, n⟩ := by
  rw [at_] at lexeme
  obtain ⟨-, -, -, notNewline, slash, hash⟩ := lexeme
  refine covers_advance at_ ?_ notNewline rfl
  simp only [LexState.next, slash, hash, notQuote, notInterp, notLeft, notRight, or_self, if_false]

/-- A character that may have a second one. -/
theorem matched_finishes {before : Scanner}
    (covers : Covers before ⟨.code, levels, n⟩ scanner ⟨.code, levels, n⟩)
    (nested : Nested scanner levels) {second : UInt8} (plain : Plain second) {type : TokenType}
    (notEnd : type ≠ .eof) :
    Finishes before ⟨.code, levels, n⟩
      ((scanner.matches_ second).2.makeToken type, (scanner.matches_ second).2) :=
  (covers.trans (matches_covers levels n plain)).token (matches_nested nested second) notEnd

theorem openBrace_finishes (nested : Nested scanner levels) {rest : Bytes}
    (at_ : scanner.current = byte '{' :: rest) :
    Finishes scanner ⟨.code, levels, n⟩ (scanner.advance.symbol (byte '{')) := by
  have step : (⟨.code, levels, n⟩ : LexState).next (byte '{') rest.head? =
      ⟨.code, LexState.openBrace levels, n⟩ := by grind [LexState.next]
  have covers := covers_advance at_ step (by decide) rfl
  unfold symbol
  rw [if_pos rfl]
  split
  next inside =>
    cases levels with
    | nil => exact absurd rfl (nested.counters.pos_iff.1 inside)
    | cons k outer =>
      let after : Scanner :=
        { scanner.advance with
          interpBraces := Function.update scanner.interpBraces (scanner.interpDepth - 1)
            (scanner.interpBraces (scanner.interpDepth - 1) + 1) }
      have deeper : Levels after.interpBraces after.interpDepth ((k + 1) :: outer) :=
        nested.counters.set (by rw [nested.counters.1, Nat.cast_add, Nat.cast_one])
      have covers' : Covers scanner ⟨.code, k :: outer, n⟩ after ⟨.code, (k + 1) :: outer, n⟩ :=
        ⟨rfl, covers.passes⟩
      exact covers'.token ⟨deeper, nested.room⟩ (by decide)
  next outside =>
    have ground : levels = [] := by
      by_contra some_
      exact outside (nested.counters.pos_iff.2 some_)
    subst ground
    exact covers.token (nested.move _ _) (by decide)

theorem closeBrace_finishes (nested : Nested scanner levels) {rest : Bytes}
    (at_ : scanner.current = byte '}' :: rest) :
    Finishes scanner ⟨.code, levels, n⟩ (scanner.advance.symbol (byte '}')) := by
  have step : (⟨.code, levels, n⟩ : LexState).next (byte '}') rest.head? =
      (⟨.code, levels, n⟩ : LexState).closeBrace := by grind [LexState.next]
  have covers := covers_advance at_ step (by decide)
  unfold symbol
  rw [if_neg (by decide), if_pos rfl]
  split
  next inside =>
    cases levels with
    | nil => exact absurd rfl (nested.counters.pos_iff.1 inside)
    | cons k outer =>
      have counter : scanner.interpBraces (scanner.interpDepth - 1) = k := nested.counters.1
      have room : outer.length ≤ 16 := (Nat.le_succ _).trans nested.room
      dsimp only
      split
      next closes =>
        have zero : k = 0 := by
          have : (k : ℤ) = 0 := counter.symm.trans closes
          omega
        subst zero
        let after : Scanner := { scanner.advance with interpDepth := scanner.interpDepth - 1 }
        have covers' : Covers scanner ⟨.code, 0 :: outer, n⟩ after ⟨.text, outer, n⟩ :=
          ⟨rfl, (covers rfl).passes⟩
        have nested' : Nested after outer := ⟨nested.counters.2, room⟩
        exact (interpSegment_finishes nested' (by decide)).trans covers'
      next stays =>
        obtain ⟨j, rfl⟩ : ∃ j, k = j + 1 := Nat.exists_eq_succ_of_ne_zero (by
          rintro rfl
          exact stays counter)
        let after : Scanner :=
          { scanner.advance with
            interpBraces := Function.update scanner.interpBraces (scanner.interpDepth - 1)
              (scanner.interpBraces (scanner.interpDepth - 1) - 1) }
        have lower : Levels after.interpBraces after.interpDepth (j :: outer) :=
          nested.counters.set (by rw [counter, Nat.cast_add, Nat.cast_one, add_sub_cancel_right])
        have covers' : Covers scanner ⟨.code, (j + 1) :: outer, n⟩ after ⟨.code, j :: outer, n⟩ :=
          ⟨rfl, (covers rfl).passes⟩
        exact covers'.token ⟨lower, nested.room⟩ (by decide)
  next outside =>
    have ground : levels = [] := by
      by_contra some_
      exact outside (nested.counters.pos_iff.2 some_)
    subst ground
    exact (covers rfl).token (nested.move _ _) (by decide)

/-- What the switch does with a character that is read as code. -/
theorem symbol_finishes (nested : Nested scanner levels) {c : UInt8} {rest : Bytes}
    (at_ : scanner.current = c :: rest) (lexeme : AtLexeme scanner.current)
    (notInterp : ¬(c = byte '$' ∧ rest.head? = some (byte '"'))) :
    Finishes scanner ⟨.code, levels, n⟩ (scanner.advance.symbol c) := by
  by_cases left : c = byte '{'
  · subst left
    exact openBrace_finishes nested at_
  by_cases right : c = byte '}'
  · subst right
    exact closeBrace_finishes nested at_
  have nested' : Nested scanner.advance levels := nested.move _ _
  by_cases quote : c = byte '"'
  · subst quote
    have step : (⟨.code, levels, n⟩ : LexState).next (byte '"') rest.head? =
        ⟨.string, levels, n⟩ := by grind [LexState.next]
    have covers := covers_advance at_ step (by decide) rfl
    exact (string_finishes nested').trans covers
  have covers := covers_code at_ lexeme notInterp quote left right levels n
  unfold symbol
  rw [if_neg left, if_neg right, if_neg quote]
  split
  next equals =>
    dsimp only
    split
    next => exact matched_finishes covers nested' (by decide) (by decide)
    next =>
      refine matched_finishes (covers.trans (matches_covers levels n (by decide)))
        (matches_nested nested' _) (by decide) ?_
      split <;> decide
  next =>
    split
    next type _ found => exact covers.token nested' (singles_spec found).1
    next second both alone _ found =>
      obtain ⟨bothOk, aloneOk, -, -, plain⟩ := doubles_spec found
      refine matched_finishes covers nested' plain ?_
      split
      · exact bothOk
      · exact aloneOk
    next => exact Finishes.error nested' _

/-- The token that starts here, which is no blank and no comment. -/
theorem lexemeFrom_finishes (nested : Nested scanner levels) {c : UInt8} {rest : Bytes}
    (at_ : scanner.current = c :: rest) (lexeme : AtLexeme scanner.current) :
    Finishes scanner ⟨.code, levels, n⟩ (scanner.advance.lexemeFrom c) := by
  have nested' : Nested scanner.advance levels := nested.move _ _
  have plain {d : UInt8} {tail : Bytes} (at_ : scanner.current = d :: tail) (ok : Plain d) :
      Covers scanner ⟨.code, levels, n⟩ scanner.advance ⟨.code, levels, n⟩ :=
    covers_advance at_ (LexState.next_plain ok _ _ _) ok.1 rfl
  have following : scanner.advance.peek = rest.headD 0 := by rw [peek, advance, at_, List.tail_cons]
  unfold lexemeFrom
  split
  next name =>
    exact (identifier_finishes nested').trans (plain at_ (plain_of_name (by simp [name])))
  next =>
    split
    next at_sign =>
      refine (identifier_finishes nested').trans (plain at_ ?_)
      rw [at_sign.1]
      decide
    next =>
      split
      next dollar =>
        obtain ⟨rfl, quote⟩ := dollar
        rw [following] at quote
        rcases rest with - | ⟨d, tail⟩
        · exact absurd quote (by decide)
        obtain rfl : d = byte '"' := quote
        have first : Covers scanner ⟨.code, levels, n⟩ scanner.advance ⟨.opening, levels, n⟩ :=
          covers_advance at_ (by simp [LexState.next]) (by decide) rfl
        have second : Covers scanner.advance ⟨.opening, levels, n⟩ scanner.advance.advance
            ⟨.text, levels, n⟩ := by
          have at' : scanner.advance.current = byte '"' :: tail := by
            rw [advance, at_, List.tail_cons]
          exact covers_advance at' rfl (by decide) rfl
        exact (interpSegment_finishes (nested'.move _ _) (by decide)).trans (first.trans second)
      next notInterp =>
        split
        next digit =>
          exact (number_finishes nested').trans (plain at_ (plain_of_name (by simp [digit])))
        next =>
          refine symbol_finishes nested at_ lexeme fun dollar => notInterp ⟨dollar.1, ?_⟩
          rw [following, List.headD_eq_head?_getD, dollar.2, Option.getD_some]

end Tokens

/-! ### Going forward -/

theorem stringLoop_suffix (current : Bytes) (line : ℤ) :
    (stringLoop current line).1 <:+ current := by
  fun_induction stringLoop current line with
  | case1 => exact List.suffix_refl _
  | case2 => exact List.suffix_refl _
  | case3 => exact List.nil_suffix
  | case4 line next rest ordinary line' ih =>
    exact ih.trans ((List.suffix_cons _ _).trans (List.suffix_cons _ _))
  | case5 c line ordinary line' next rest notEscape ih => exact ih.trans (List.suffix_cons _ _)

theorem interpLoop_suffix (current : Bytes) (line : ℤ) :
    (interpLoop current line).1 <:+ current := by
  fun_induction interpLoop current line with
  | case1 => exact List.suffix_refl _
  | case2 => exact List.suffix_refl _
  | case3 => exact List.nil_suffix
  | case4 => exact List.suffix_refl _
  | case5 rest line notQuote ih =>
    exact ih.trans ((List.suffix_cons _ _).trans (List.suffix_cons _ _))
  | case6 => exact List.suffix_refl _
  | case7 next rest line notQuote notBrace line' ih =>
    exact ih.trans ((List.suffix_cons _ _).trans (List.suffix_cons _ _))
  | case8 c next rest line notQuote notBrace line' notEscape ih =>
    exact ih.trans (List.suffix_cons _ _)

theorem skipFraction_suffix (current : Bytes) : skipFraction current <:+ current := by
  unfold skipFraction
  split
  · exact (List.dropWhile_suffix _).trans (List.tail_suffix _)
  · exact List.suffix_refl _

theorem matches_suffix (scanner : Scanner) (expected : UInt8) :
    (scanner.matches_ expected).2.current <:+ scanner.current := by
  unfold matches_
  split
  · exact List.tail_suffix _
  · exact List.suffix_refl _

theorem string_suffix (scanner : Scanner) : scanner.string.2.current <:+ scanner.current := by
  have loop := stringLoop_suffix scanner.current scanner.line
  simp only [string]
  split
  · exact loop
  · exact (List.tail_suffix _).trans loop

theorem interpSegment_suffix (scanner : Scanner) (placeholderType endType : TokenType) :
    (scanner.interpSegment placeholderType endType).2.current <:+ scanner.current := by
  have loop := interpLoop_suffix scanner.current scanner.line
  have tail := (List.tail_suffix _).trans loop
  simp only [interpSegment]
  split
  · exact loop
  · split
    · split
      · exact tail
      · exact tail
    · exact tail

theorem symbol_suffix (scanner : Scanner) (c : UInt8) :
    (scanner.symbol c).2.current <:+ scanner.current := by
  unfold symbol
  split
  · split <;> exact List.suffix_refl _
  · split
    · split
      · dsimp only
        split
        · exact interpSegment_suffix _ _ _
        · exact List.suffix_refl _
      · exact List.suffix_refl _
    · split
      · exact string_suffix scanner
      · split
        · dsimp only
          split
          · exact matches_suffix _ _
          · exact (matches_suffix _ _).trans (matches_suffix _ _)
        · split
          · exact List.suffix_refl _
          · exact matches_suffix _ _
          · exact List.suffix_refl _

theorem lexemeFrom_suffix (scanner : Scanner) (c : UInt8) :
    (scanner.lexemeFrom c).2.current <:+ scanner.current := by
  have name : scanner.identifier.2.current <:+ scanner.current := List.dropWhile_suffix _
  unfold lexemeFrom
  split
  · exact name
  · split
    · exact name
    · split
      · exact (interpSegment_suffix _ _ _).trans (List.tail_suffix _)
      · split
        · have digits := (skipFraction_suffix (scanner.current.dropWhile isDigit)).trans
            (List.dropWhile_suffix _)
          simp only [number]
          split
          · exact (List.drop_suffix _ _).trans digits
          · exact digits
        · exact symbol_suffix scanner c

/-! ### One token -/

/-- The scanner where the next lexeme starts. -/
def atStart (scanner : Scanner) : Scanner :=
  { scanner.skipWhitespace with start := scanner.skipWhitespace.current }

/-- On the way to the next lexeme there are blanks and comments only. -/
theorem atStart_passes (scanner : Scanner) (levels : List ℕ) (n : ℕ) :
    ∃ open_, Passes (scanner.current, scanner.line) ⟨.code, levels, n⟩
        (scanner.atStart.current, scanner.atStart.line) ⟨blankMode open_, levels, n⟩ ∧
      (open_ = true → scanner.atStart.current = []) ∧
      (scanner.atStart.current ≠ [] → AtLexeme scanner.atStart.current) :=
  skipLoop_passes false scanner.current scanner.line levels n

theorem nested_atStart {scanner : Scanner} {levels : List ℕ} (nested : Nested scanner levels) :
    Nested scanner.atStart levels := ⟨nested.counters, nested.room⟩

theorem scanToken_eof {scanner : Scanner} (atEnd : scanner.atStart.current = []) :
    scanner.scanToken = (scanner.atStart.makeToken .eof, scanner.atStart) := by
  have atEnd' : scanner.skipWhitespace.current = [] := atEnd
  simp only [scanToken, atEnd', atStart]

theorem scanToken_lexeme {scanner : Scanner} {c : UInt8} {rest : Bytes}
    (at_ : scanner.atStart.current = c :: rest) :
    scanner.scanToken = scanner.atStart.advance.lexemeFrom c := by
  have at' : scanner.skipWhitespace.current = c :: rest := at_
  simp only [scanToken, at', atStart]

/-- Each token but the last takes a byte of the source. -/
theorem scanToken_forward {scanner : Scanner} {c : UInt8} {rest : Bytes}
    (at_ : scanner.atStart.current = c :: rest) :
    scanner.scanToken.2.current.length < scanner.atStart.current.length := by
  rw [scanToken_lexeme at_]
  refine (lexemeFrom_suffix _ c).length_le.trans_lt ?_
  rw [advance, at_, List.tail_cons, List.length_cons]
  exact Nat.lt_succ_self _

end Scanner

end KirbyLang
