import KirbyLang.Parser

/-!
# Laws of the parser

What holds for each thing the parser does holds for all of it. A law relates the state before to
the state after, and is closed under the things the parser does: it passes a token, reports an
error, changes the depth of blocks, writes down a round of a loop that has taken a token or is the
last one, reads a list whose items go to buffers, and makes a literal.

* `Place`, `Places`: what is known where the parser is, so that a law may ask for less: the token of
  a text is only passed when the text is read or there has been an error, and a name never comes
  directly after a number;
* `Law`, `RecoveryLaw`: without and with leaving panic mode;
* `Law.discipline`: tokens are only taken, and the end is only reached by taking them;
* the rules of the branches and the loops.
-/

namespace KirbyLang.Parsing

open Consuming

variable {libc : Libc}

/-! ### What is left -/

namespace Parser

variable (p : Parser)

@[simp] theorem left_emit (event : Event) : (p.emit event).left = p.left := rfl

@[simp] theorem current_emit (event : Event) : (p.emit event).current = p.current := rfl

@[simp] theorem left_errorAt (token : SourceToken) (message : Bytes) :
    (p.errorAt token message).left = p.left := by
  unfold errorAt
  split <;> rfl

@[simp] theorem current_errorAt (token : SourceToken) (message : Bytes) :
    (p.errorAt token message).current = p.current := by
  unfold errorAt
  split <;> rfl

@[simp] theorem previous_errorAt (token : SourceToken) (message : Bytes) :
    (p.errorAt token message).previous = p.previous := by
  unfold errorAt
  split <;> rfl

@[simp] theorem log_errorAt (token : SourceToken) (message : Bytes) :
    (p.errorAt token message).log = p.log := by
  unfold errorAt
  split <;> rfl

theorem panicMode_errorAt (token : SourceToken) (message : Bytes) :
    (p.errorAt token message).panicMode = true := by
  unfold errorAt
  split
  · assumption
  · rfl

theorem left_skipErrors_le (tokens : List SourceToken) (p : Parser) :
    (skipErrors tokens p).left ≤ tokens.length := by
  induction tokens generalizing p with
  | nil => simp [skipErrors, left, p.isEof]
  | cons token rest ih =>
    unfold skipErrors
    dsimp only
    split
    · exact (ih _).trans (Nat.le_succ _)
    · unfold left
      dsimp only
      split <;> simp

theorem previous_skipErrors (tokens : List SourceToken) (p : Parser) :
    (skipErrors tokens p).previous = p.previous := by
  induction tokens generalizing p with
  | nil => rfl
  | cons token rest ih =>
    unfold skipErrors
    dsimp only
    split
    · rw [ih, previous_errorAt]
    · rfl

theorem log_skipErrors (tokens : List SourceToken) (p : Parser) :
    (skipErrors tokens p).log = p.log := by
  induction tokens generalizing p with
  | nil => rfl
  | cons token rest ih =>
    unfold skipErrors
    dsimp only
    split
    · rw [ih, log_errorAt]
    · rfl

@[simp] theorem log_advance : p.advance.log = p.log := log_skipErrors _ _

theorem previous_advance : p.advance.previous = p.current := previous_skipErrors _ _

theorem left_advance_le : p.advance.left ≤ p.left :=
  (left_skipErrors_le _ _).trans (Nat.le_add_right _ _)

variable {p}

theorem left_advance_lt (h : p.current.type ≠ .eof) : p.advance.left < p.left := by
  have le : p.advance.left ≤ p.tokens.length := left_skipErrors_le _ _
  have eq : p.left = p.tokens.length + 1 := by simp [left, h]
  omega

end Parser

/-! ### Places -/

/-- What is known where the parser is. -/
inductive Place
  /-- The parser only panics after an error. -/
  | any
  /-- A name may come: the token behind the parser is no number, unless there has been an error. -/
  | start
  /-- There has been an error. -/
  | failed

def numberTypes : List TokenType := [.number, .numberSuffixed]

/-- How many bytes the token of a text has before the text, and whether the text is of an interpolated
string. -/
def textForm : TokenType → Option (ℕ × Bool)
  | .string => some (1, false)
  | .interpString | .interpStart => some (2, true)
  | .interpMiddle | .interpEnd => some (1, true)
  | _ => none

/-- A token of this type may be passed everywhere, and a name may come after it. -/
def Plain (type : TokenType) : Prop :=
  textForm type = none ∧ type ∉ numberTypes ∧ type ≠ .identifier ∧ type ≠ .eof

instance (type : TokenType) : Decidable (Plain type) := inferInstanceAs (Decidable (_ ∧ _))

/-- `Plain`, as a test that instance search can evaluate. -/
@[reducible] def isPlain : TokenType → Bool
  | .string | .interpString | .interpStart | .interpMiddle | .interpEnd => false
  | .number | .numberSuffixed | .identifier | .eof => false
  | _ => true

/-- A test whose outcome instance search finds. -/
class Holds (test : Bool) : Prop where
  eq_true : test = true

instance : Holds true := ⟨rfl⟩

theorem Holds.plain {type : TokenType} [holds : Holds (isPlain type)] : Plain type := by
  have test := holds.eq_true
  cases type <;> first | decide | cases test

/-- What the places mean, and how the parser goes between them. -/
structure Places where
  holds : Place → Parser → Prop
  any {place : Place} {p : Parser} : holds place p → holds .any p
  of_failed {place : Place} {p : Parser} : holds .failed p → holds place p
  errorAt {p : Parser} {token : SourceToken} {message : Bytes} :
    holds .any p → holds .failed (p.errorAt token message)
  panic {p : Parser} : holds .any p → p.panicMode = true → holds .failed p
  advance {p : Parser} : holds .any p → holds .any p.advance
  advance_failed {p : Parser} : holds .failed p → holds .failed p.advance
  start {p : Parser} : holds .any p → p.previous.type ∉ numberTypes → holds .start p
  /-- What changes neither the token behind the parser nor that there has been an error. -/
  keep {place : Place} {p q : Parser} : holds place p → q.previous = p.previous →
    q.hadError = p.hadError → (q.panicMode = true → p.panicMode = true) → holds place q

/-- Whether the current token may be passed without being read. -/
def Places.Passes (places : Places) (p : Parser) : Prop :=
  places.holds .failed p ∨
    textForm p.current.type = none ∧ (p.current.type = .identifier → places.holds .start p)

/-- Nothing is known anywhere. -/
def Places.free : Places where
  holds _ _ := True
  any _ := trivial
  of_failed _ := trivial
  errorAt _ := trivial
  panic _ _ := trivial
  advance _ := trivial
  advance_failed _ := trivial
  start _ _ := trivial
  keep _ _ _ _ := trivial

namespace Places

variable {places : Places} {place : Place} {p : Parser}

theorem emit (h : places.holds place p) (event : Event) : places.holds place (p.emit event) :=
  places.keep h rfl rfl id

theorem advance_start (h : places.holds .any p) (notNumber : p.current.type ∉ numberTypes) :
    places.holds .start p.advance :=
  places.start (places.advance h) (by rwa [Parser.previous_advance])

theorem error (h : places.holds .any p) (token : SourceToken) (message : Bytes) :
    places.holds place (p.errorAt token message) :=
  places.of_failed (places.errorAt h)

end Places

/-- Only errors are reported. -/
inductive Reports : Parser → Parser → Prop
  | none (p : Parser) : Reports p p
  | error {p q : Parser} {token : SourceToken} {message : Bytes} :
    Reports (p.errorAt token message) q → Reports p q

theorem Reports.keeps {p q : Parser} (h : Reports p q) :
    q.left = p.left ∧ q.current = p.current ∧ q.previous = p.previous ∧ q.log = p.log ∧
      (p.panicMode = true → q.panicMode = true) := by
  induction h with
  | none p => exact ⟨rfl, rfl, rfl, rfl, id⟩
  | error _ ih =>
    obtain ⟨left, current, previous, log, panic⟩ := ih
    simp only [Parser.left_errorAt, Parser.current_errorAt, Parser.previous_errorAt,
      Parser.log_errorAt] at left current previous log
    exact ⟨left, current, previous, log, fun _ => panic (Parser.panicMode_errorAt _ _ _)⟩

theorem Places.reports {places : Places} {place : Place} {p q : Parser} (h : Reports p q)
    (start : places.holds place p) : places.holds place q := by
  induction h with
  | none => exact start
  | error _ ih => exact ih (places.error (places.any start) _ _)

/-- Reading a text only reports errors. -/
theorem stringChars_reports (isInterp : Bool) (chars : Bytes) (p : Parser) :
    ∃ decoded q, stringChars isInterp chars p = some (decoded, q) ∧ Reports p q := by
  have pushed : ∀ {c : UInt8} {rest : Bytes} {p : Parser},
      (∃ decoded q, stringChars isInterp rest p = some (decoded, q) ∧ Reports p q) →
        ∃ decoded q, (do return c :: (← stringChars isInterp rest)) p = some (decoded, q) ∧
          Reports p q := by
    rintro c rest p ⟨decoded, q, eq, reports⟩
    exact ⟨c :: decoded, q, Discipline.bind_eq eq, reports⟩
  fun_induction stringChars isInterp chars generalizing p with
  | case1 => exact ⟨[], p, rfl, .none p⟩
  | case2 => exact ⟨[], _, rfl, .error (.none _)⟩
  | case3 c => exact ⟨[c], p, rfl, .none p⟩
  | case4 _ _ _ _ ih => exact pushed (ih p)
  | case5 next rest _ ih =>
    obtain ⟨decoded, q, eq, reports⟩ := ih (p.errorAt p.previous (invalidEscape next))
    exact ⟨decoded, q, eq, .error reports⟩
  | case6 _ _ _ _ ih => exact pushed (ih p)
  | case7 _ _ _ _ _ _ ih =>
    obtain ⟨decoded, q, eq, reports⟩ := ih (p.errorAt p.previous _)
    exact ⟨decoded, q, eq, .error reports⟩
  | case8 _ _ _ _ _ ih => exact pushed (ih p)

theorem reports_of_stringChars {isInterp : Bool} {chars decoded : Bytes} {p q : Parser}
    (h : stringChars isInterp chars p = some (decoded, q)) : Reports p q := by
  obtain ⟨decoded', q', eq, reports⟩ := stringChars_reports isInterp chars p
  obtain ⟨-, rfl⟩ : decoded = decoded' ∧ q = q' := by simpa using h.symm.trans eq
  exact reports

/-! ### Laws -/

/-- An item of a list is put in its buffers at this index. -/
def Parser.putItem (p : Parser) (list : ItemList) (index : ℕ) : Parser :=
  list.buffers.foldl (fun p buffer => p.emit (.write buffer index)) p

/-- The first items of a list are read, this many. Each has been put in the list's buffers at the
number of items before it, and may be put there once more. -/
inductive ReadsList (rel : Parser → Parser → Prop) (list : ItemList) (p : Parser) :
    ℕ → Parser → Prop
  | start : ReadsList rel list p 0 p
  | goes {count : ℕ} {q r : Parser} : ReadsList rel list p count q → rel q r →
    ReadsList rel list p count r
  | put {count : ℕ} {q : Parser} : ReadsList rel list p count q →
    ReadsList rel list p (count + 1) (q.putItem list count)
  | again {count : ℕ} {q : Parser} {buffer : Buffer} : ReadsList rel list p (count + 1) q →
    buffer ∈ list.buffers → ReadsList rel list p (count + 1) (q.emit (.write buffer count))

/-- A relation of states that everything the parser does keeps, leaving panic mode apart. -/
structure Law (libc : Libc) (places : Places) (rel : Parser → Parser → Prop) : Prop where
  refl (p : Parser) : rel p p
  trans {p q r : Parser} : rel p q → rel q r → rel p r
  /-- What has failed has failed. -/
  failed {p q : Parser} : rel p q → places.holds .failed p → places.holds .failed q
  advance {p : Parser} : places.holds .any p → places.Passes p → rel p p.advance
  /-- A token that no expression starts with. -/
  reject {p : Parser} (token : SourceToken) (message : Bytes) : places.holds .any p →
    rel p (p.advance.errorAt token message)
  /-- The token of a text is passed and the text is read. -/
  text {p q : Parser} {skip : ℕ} {isInterp : Bool} {decoded : Bytes} : places.holds .any p →
    textForm p.current.type = some (skip, isInterp) →
    stringChars isInterp (inner p.current skip 1) p.advance = some (decoded, q) → rel p q
  errorAt (p : Parser) (token : SourceToken) (message : Bytes) : rel p (p.errorAt token message)
  depth (p : Parser) (depth : ℤ) : rel p { p with blockDepth := depth }
  round (p : Parser) (kind : LoopKind) {before after : ℕ} {again : Bool} :
    (again = true → after < before) → rel p (p.emit (.round kind before after again))
  list {p q : Parser} {list : ItemList} {length : ℕ} : ReadsList rel list p length q →
    rel p (q.emit (.list list length))
  field (p : Parser) {count : ℕ} : count < 255 → rel p (p.emit (.write .fields count))
  number {p q : Parser} {node : AstNode} : p.previous.type ∈ numberTypes →
    number libc p = some (node, q) → rel p q

/-- A law that leaving panic mode keeps too. -/
structure RecoveryLaw (libc : Libc) (places : Places) (rel : Parser → Parser → Prop) : Prop
    extends Law libc places rel where
  leavePanic (p : Parser) : rel p { p with panicMode := false }

namespace ReadsList

variable {rel rel' : Parser → Parser → Prop} {list : ItemList} {p q : Parser} {count : ℕ}

theorem imp (h : ReadsList rel list p count q) (imp : ∀ p q, rel p q → rel' p q) :
    ReadsList rel' list p count q := by
  induction h with
  | start => exact .start
  | goes _ goes ih => exact ih.goes (imp _ _ goes)
  | put _ ih => exact ih.put
  | again _ mem ih => exact ih.again mem

/-- What a write to a buffer keeps too is kept by the items of a list. -/
theorem rel_of (h : ReadsList rel list p count q) (refl : ∀ p, rel p p)
    (trans : ∀ {p q r}, rel p q → rel q r → rel p r)
    (write : ∀ p buffer index, rel p (Parser.emit p (.write buffer index))) : rel p q := by
  induction h with
  | start => exact refl p
  | goes _ goes ih => exact trans ih goes
  | @put count q _ ih =>
    refine trans ih ?_
    have put : ∀ (buffers : List Buffer) (q : Parser),
        rel q (buffers.foldl (fun p buffer => p.emit (.write buffer count)) q) := by
      intro buffers
      induction buffers with
      | nil => exact refl
      | cons buffer _ further => exact fun q => trans (write q buffer count) (further _)
    exact put list.buffers q
  | again _ _ ih => exact trans ih (write _ _ _)

end ReadsList

/-- Tokens are only taken, and the end is only reached by taking them. -/
def Takes (p q : Parser) : Prop :=
  q.left ≤ p.left ∧ (q.current.type = .eof → q.left < p.left ∨ p.current.type = .eof)

namespace Takes

theorem refl (p : Parser) : Takes p p := ⟨le_rfl, .inr⟩

theorem trans {p q r : Parser} (h : Takes p q) (h' : Takes q r) : Takes p r := by
  obtain ⟨le, atEnd⟩ := h
  obtain ⟨le', atEnd'⟩ := h'
  refine ⟨le'.trans le, fun eof => ?_⟩
  rcases atEnd' eof with less | eof'
  · exact .inl (less.trans_le le)
  · exact (atEnd eof').imp_left le'.trans_lt

/-- What changes neither the tokens nor the current token. -/
theorem of_eq {p q : Parser} (left : q.left = p.left) (current : q.current = p.current) :
    Takes p q :=
  ⟨left.le, fun eof => .inr (current ▸ eof)⟩

theorem advance (p : Parser) : Takes p p.advance := by
  refine ⟨p.left_advance_le, fun _ => ?_⟩
  by_cases eof : p.current.type = .eof
  · exact .inr eof
  · exact .inl (Parser.left_advance_lt eof)

theorem reports {p q : Parser} (h : Reports p q) : Takes p q := .of_eq h.keeps.1 h.keeps.2.1

end Takes

namespace Law

variable {places : Places} {rel : Parser → Parser → Prop} (law : Law libc places rel)
  {place place' place'' : Place} {bound : ℕ} {α σ : Type}

/-- The law together with how tokens are taken. -/
def discipline : Discipline Parser where
  goes p q := rel p q ∧ Takes p q
  left := Parser.left
  atEnd p := p.current.type = .eof
  refl p := ⟨law.refl p, .refl p⟩
  trans h h' := ⟨law.trans h.1 h'.1, h.2.trans h'.2⟩
  left_le h := h.2.1
  atEnd_of h := h.2.2

/-- From every state at the first place with fewer tokens left, the action returns at the second
place and obeys the law. -/
def Returns (place place' : Place) (bound : ℕ) (m : Parse α) : Prop :=
  law.discipline.Returns (places.holds place) (places.holds place') bound m

/-- It also takes a token, unless it was at the end. -/
def Consumes (place place' : Place) (bound : ℕ) (m : Parse α) : Prop :=
  law.discipline.Consumes (places.holds place) (places.holds place') bound m

variable {law}

theorem Consumes.returns {m : Parse α} (h : law.Consumes place place' bound m) :
    law.Returns place place' bound m :=
  Discipline.Consumes.returns h

/-- What returns only after an error may be said to return at any place. -/
theorem Returns.to {m : Parse α} (h : law.Returns place .failed bound m) :
    law.Returns place place' bound m :=
  Discipline.Returns.imp h (fun _ => id) fun _ => places.of_failed

theorem Returns.to_any {m : Parse α} (h : law.Returns place place' bound m) :
    law.Returns place .any bound m :=
  Discipline.Returns.imp h (fun _ => id) fun _ => places.any

/-- What starts after an error ends after one. -/
theorem Returns.stays {m : Parse α} (h : law.Returns .failed place' bound m) :
    law.Returns .failed .failed bound m := by
  intro p here hp
  obtain ⟨a, q, eq, goes, -⟩ := h p here hp
  exact ⟨a, q, eq, goes, law.failed goes.1 here⟩

theorem Returns.of_failed {m : Parse α} (h : law.Returns place place' bound m) :
    law.Returns .failed place' bound m :=
  Discipline.Returns.imp h (fun _ => places.of_failed) fun _ => id

theorem Consumes.of_failed {m : Parse α} (h : law.Consumes place place' bound m) :
    law.Consumes .failed place' bound m :=
  Discipline.Consumes.imp h (fun _ => places.of_failed) fun _ => id

theorem Returns.mono {bound' : ℕ} {m : Parse α} (h : law.Returns place place' bound m)
    (le : bound' ≤ bound) : law.Returns place place' bound' m :=
  Discipline.Returns.mono h le

theorem Consumes.mono {bound' : ℕ} {m : Parse α} (h : law.Consumes place place' bound m)
    (le : bound' ≤ bound) : law.Consumes place place' bound' m :=
  Discipline.Consumes.mono h le

/-- Before a token that is not the end, an action that consumes takes one. -/
theorem Consumes.takes {m : Parse α} (h : law.Consumes place place' bound m) {p : Parser}
    (here : places.holds place p) (hp : p.left < bound) (token : p.current.type ≠ .eof) :
    ∃ a q, m p = some (a, q) ∧ law.discipline.goes p q ∧ places.holds place' q ∧
      q.left < p.left := by
  obtain ⟨a, q, eq, goes, there, less⟩ := h p here hp
  exact ⟨a, q, eq, goes, there, less.resolve_right token⟩

theorem Returns.bind {β : Type} {m : Parse α} {f : α → Parse β}
    (hm : law.Returns place place' bound m) (hf : ∀ a, law.Returns place' place'' bound (f a)) :
    law.Returns place place'' bound (m >>= f) :=
  Discipline.Returns.bind hm hf

theorem Consumes.bind {β : Type} {m : Parse α} {f : α → Parse β}
    (hm : law.Consumes place place' bound m) (hf : ∀ a, law.Returns place' place'' bound (f a)) :
    law.Consumes place place'' bound (m >>= f) :=
  Discipline.Consumes.bind hm hf

theorem Returns.bind_consumes {β : Type} {m : Parse α} {f : α → Parse β}
    (hm : law.Returns place place' bound m) (hf : ∀ a, law.Consumes place' place'' bound (f a)) :
    law.Consumes place place'' bound (m >>= f) :=
  Discipline.Returns.bind_consumes hm hf

variable (law)

theorem returns_pure (a : α) : law.Returns place place bound (Pure.pure a : Parse α) :=
  Discipline.Returns.pure a

/-! ### What does not fail -/

theorem returns_previous : law.Returns place place bound previous := fun p here _ =>
  ⟨_, p, rfl, law.discipline.refl p, here⟩

theorem returns_current : law.Returns place place bound current := fun p here _ =>
  ⟨_, p, rfl, law.discipline.refl p, here⟩

theorem errorAt_goes (p : Parser) (token : SourceToken) (message : Bytes) :
    law.discipline.goes p (p.errorAt token message) :=
  ⟨law.errorAt p _ _, .of_eq (by simp) (by simp)⟩

/-- An error is reported. -/
theorem returns_error (token : Parser → SourceToken) (message : Bytes) :
    law.Returns place .failed bound (modify fun p => p.errorAt (token p) message) :=
  fun p here _ => ⟨(), _, rfl, law.errorAt_goes p _ message, places.errorAt (places.any here)⟩

theorem returns_errorAtCurrent (message : String) :
    law.Returns place .failed bound (errorAtCurrent message) :=
  law.returns_error (·.current) _

theorem returns_parseErrorBytes (message : Bytes) :
    law.Returns place .failed bound (parseErrorBytes message) :=
  law.returns_error (·.previous) message

theorem returns_parseError (message : String) :
    law.Returns place .failed bound (parseError message) :=
  law.returns_parseErrorBytes _

theorem advance_goes {p : Parser} (here : places.holds .any p) (passes : places.Passes p) :
    law.discipline.goes p p.advance :=
  ⟨law.advance here passes, .advance p⟩

/-- A plain token is passed. -/
theorem pass_plain {p : Parser} (here : places.holds place p) (plain : Plain p.current.type) :
    law.discipline.goes p p.advance ∧ places.holds .start p.advance ∧ p.advance.left < p.left :=
  ⟨law.advance_goes (places.any here) (.inr ⟨plain.1, fun name => absurd name plain.2.2.1⟩),
    places.advance_start (places.any here) plain.2.1, Parser.left_advance_lt plain.2.2.2⟩

/-- A name is passed where one may come. -/
theorem pass_name {p : Parser} (here : places.holds .start p) (name : p.current.type = .identifier) :
    law.discipline.goes p p.advance ∧ places.holds .start p.advance :=
  ⟨law.advance_goes (places.any here) (.inr ⟨by rw [name]; rfl, fun _ => here⟩),
    places.advance_start (places.any here) (by rw [name]; decide)⟩

/-- After an error every token is passed. -/
theorem consumes_advance : law.Consumes .failed .failed bound Parsing.advance :=
  fun p here _ => by
    refine ⟨(), p.advance, rfl, law.advance_goes (places.any here) (.inl here),
      places.advance_failed here, ?_⟩
    by_cases eof : p.current.type = .eof
    · exact .inr eof
    · exact .inl (Parser.left_advance_lt eof)

theorem returns_setDepth (depth : Parser → ℤ) :
    law.Returns place place bound (modify fun p => { p with blockDepth := depth p }) :=
  fun p here _ => ⟨(), { p with blockDepth := depth p }, rfl, ⟨law.depth p _, .of_eq rfl rfl⟩,
    places.keep here rfl rfl id⟩

variable {law}

theorem returns_when {condition : Bool} {m : Parse Unit}
    (h : law.Returns place .failed bound m) : law.Returns place place bound (when condition m) :=
  Discipline.Returns.ite h.to (law.returns_pure ())

/-! ### Branches -/

theorem returns_branch {condition : Parser → Bool} {yes no : Parse α}
    (hyes : law.Returns place place' bound yes) (hno : law.Returns place place' bound no) :
    law.Returns place place' bound (branch condition yes no) := by
  intro p here hp
  unfold branch
  split
  · exact hyes p here hp
  · exact hno p here hp

theorem consumes_branch {condition : Parser → Bool} {yes no : Parse α}
    (hyes : law.Consumes place place' bound yes) (hno : law.Consumes place place' bound no) :
    law.Consumes place place' bound (branch condition yes no) := by
  intro p here hp
  unfold branch
  split
  · exact hyes p here hp
  · exact hno p here hp

theorem returns_ifCheck {type : TokenType} {yes no : Parse α}
    (hyes : law.Returns place place' bound yes) (hno : law.Returns place place' bound no) :
    law.Returns place place' bound (ifCheck type yes no) :=
  returns_branch hyes hno

/-- What follows a plain token may assume that fewer tokens are left. -/
theorem afterPlain {m : Parse α} (h : law.Returns .start place' bound m) {p : Parser}
    (here : places.holds place p) (hp : p.left < bound + 1) (plain : Plain p.current.type) :
    ∃ a q, (do Parsing.advance; m) p = some (a, q) ∧ law.discipline.goes p q ∧
      places.holds place' q ∧ q.left < p.left := by
  obtain ⟨goes, next, less⟩ := law.pass_plain here plain
  obtain ⟨a, q, eq, goes', there⟩ := h p.advance next (less.trans_le (Nat.lt_succ_iff.mp hp))
  exact ⟨a, q, eq, law.discipline.trans goes goes', there, goes'.2.1.trans_lt less⟩

/-- A branch that passes a plain token. -/
theorem returns_branch_advance {condition : Parser → Bool} {yes no : Parse α}
    (plain : ∀ p, condition p = true → Plain p.current.type)
    (hyes : law.Returns .start place' bound yes) (hno : law.Returns place place' bound no) :
    law.Returns place place' bound (branch condition (do Parsing.advance; yes) no) := by
  intro p here hp
  by_cases holds : condition p = true
  · obtain ⟨a, q, eq, goes, there, -⟩ :=
      afterPlain hyes here (hp.trans (Nat.lt_succ_self bound)) (plain p holds)
    exact ⟨a, q, (branch_pos holds).trans eq, goes, there⟩
  · rw [branch_neg holds]
    exact hno p here hp

/-- What follows the token may assume that fewer tokens are left. -/
theorem consumes_branch_advance {condition : Parser → Bool} {yes no : Parse α}
    (plain : ∀ p, condition p = true → Plain p.current.type)
    (hyes : law.Returns .start place' bound yes)
    (hno : law.Consumes place place' (bound + 1) no) :
    law.Consumes place place' (bound + 1) (branch condition (do Parsing.advance; yes) no) := by
  intro p here hp
  by_cases holds : condition p = true
  · obtain ⟨a, q, eq, goes, there, less⟩ := afterPlain hyes here hp (plain p holds)
    exact ⟨a, q, (branch_pos holds).trans eq, goes, there, .inl less⟩
  · rw [branch_neg holds]
    exact hno p here hp

theorem returns_ifMatch {type : TokenType} {yes no : Parse α}
    (hyes : law.Returns .start place' bound yes) (hno : law.Returns place place' bound no)
    [Holds (isPlain type)] : law.Returns place place' bound (ifMatch type yes no) :=
  returns_branch_advance (fun _ h => eq_of_beq h ▸ Holds.plain) hyes hno

theorem returns_ifAssigned {canAssign : Bool} {yes no : Parse α}
    (hyes : law.Returns .start place' bound yes) (hno : law.Returns place place' bound no) :
    law.Returns place place' bound (ifAssigned canAssign yes no) :=
  returns_branch_advance (fun p h => by
    rw [Bool.and_eq_true, beq_iff_eq] at h
    rw [h.2]
    decide) hyes hno

theorem consumes_ifMatch {type : TokenType} {yes no : Parse α}
    (hyes : law.Returns .start place' bound yes)
    (hno : law.Consumes place place' (bound + 1) no) [Holds (isPlain type)] :
    law.Consumes place place' (bound + 1) (ifMatch type yes no) :=
  consumes_branch_advance (fun _ h => eq_of_beq h ▸ Holds.plain) hyes hno

theorem returns_ifMatch_succ {type : TokenType} {yes no : Parse α}
    (hyes : law.Returns .start place' bound yes)
    (hno : law.Returns place place' (bound + 1) no) [Holds (isPlain type)] :
    law.Returns place place' (bound + 1) (ifMatch type yes no) := by
  intro p here hp
  by_cases same : p.current.type = type
  · obtain ⟨a, q, eq, goes, there, -⟩ := afterPlain hyes here hp (same ▸ Holds.plain)
    exact ⟨a, q, (ifMatch_pos same).trans eq, goes, there⟩
  · rw [ifMatch_neg same]
    exact hno p here hp

variable (law)

/-- A token that is matched is taken. -/
theorem match_goes (type : TokenType) {p : Parser} (here : places.holds place p)
    [Holds (isPlain type)] :
    ∃ matched q, match_ type p = some (matched, q) ∧ law.discipline.goes p q ∧
      (matched = true → q.left < p.left ∧ places.holds .start q) ∧ places.holds .any q := by
  by_cases same : p.current.type = type
  · obtain ⟨goes, next, less⟩ := law.pass_plain here (same ▸ Holds.plain)
    exact ⟨true, p.advance, ifMatch_pos same, goes, fun _ => ⟨less, next⟩, places.any next⟩
  · exact ⟨false, p, ifMatch_neg same, law.discipline.refl p, by simp, places.any here⟩

theorem returns_match_ {type : TokenType} [Holds (isPlain type)] :
    law.Returns .start .start bound (match_ type) :=
  returns_ifMatch (law.returns_pure true) (law.returns_pure false)

theorem returns_consume (type : TokenType) (message : String) [Holds (isPlain type)] :
    law.Returns place .start bound (consume type message) := by
  intro p here hp
  by_cases same : p.current.type = type
  · obtain ⟨goes, next, -⟩ := law.pass_plain here (same ▸ Holds.plain)
    exact ⟨(), p.advance, ifCheck_pos same, goes, next⟩
  · obtain ⟨a, q, eq, goes, there⟩ := law.returns_errorAtCurrent message p here hp
    exact ⟨a, q, (ifCheck_neg same).trans eq, goes, places.of_failed there⟩

theorem returns_consumeName (message : String) :
    law.Returns .start .start bound (consume .identifier message) := by
  intro p here hp
  by_cases same : p.current.type = .identifier
  · obtain ⟨goes, next⟩ := law.pass_name here same
    exact ⟨(), p.advance, ifCheck_pos same, goes, next⟩
  · obtain ⟨a, q, eq, goes, there⟩ := law.returns_errorAtCurrent message p here hp
    exact ⟨a, q, (ifCheck_neg same).trans eq, goes, places.of_failed there⟩

theorem returns_consumeDeclarationIdentifier (message : String) :
    law.Returns .start .start bound (consumeDeclarationIdentifier message) :=
  (law.returns_consumeName _).bind fun _ => law.returns_previous.bind fun _ =>
    returns_when (law.returns_parseError _)

/-! ### Loops -/

variable {law}

theorem recorded_eq {kind : LoopKind} {body : σ → Parse (σ × Bool)} {state state' : σ}
    {again : Bool} {p q : Parser} (eq : body state p = some ((state', again), q)) :
    recorded kind body state p =
      some ((state', again), q.emit (.round kind p.left q.left again)) := by
  show ((body state p).bind _) = _
  rw [eq]
  rfl

/-- A round of a loop. -/
theorem goes_recorded (kind : LoopKind) (body : σ → Parse (σ × Bool)) (state : σ) {state' : σ}
    {again : Bool} {p q : Parser} (eq : body state p = some ((state', again), q))
    (goes : law.discipline.goes p q) (further : again = true → q.left < p.left) :
    ∃ event, recorded kind body state p = some ((state', again), q.emit event) ∧
      law.discipline.goes p (q.emit event) := by
  exact ⟨.round kind p.left q.left again, recorded_eq eq,
    ⟨law.trans goes.1 (law.round q kind further), goes.2.trans (.of_eq rfl rfl)⟩⟩

/-- A loop that takes a token before each further round. -/
theorem returns_runLoop {kind : LoopKind} {body : σ → Parse (σ × Bool)} {state : σ}
    (hbody : ∀ state p, places.holds place p → p.left < bound → ∃ state' again q,
      body state p = some ((state', again), q) ∧ law.discipline.goes p q ∧
        (again = true → q.left < p.left ∧ places.holds place q) ∧
        (again = false → places.holds place' q)) :
    law.Returns place place' bound (runLoop kind body state) := by
  intro p here hp
  have round : ∀ state p, places.holds place p ∧ p.left < bound → ∃ state' again q,
      recorded kind body state p = some ((state', again), q) ∧ law.discipline.goes p q ∧
        (again = true → q.left < p.left ∧ places.holds place q ∧ q.left < bound) ∧
        (again = false → places.holds place' q) := by
    intro state p start
    obtain ⟨state', again, q, eq, goes, further, last⟩ := hbody state p start.1 start.2
    obtain ⟨event, eq', goes'⟩ := goes_recorded kind body state eq goes fun h => (further h).1
    exact ⟨state', again, q.emit event, eq', goes', fun h => ⟨(further h).1,
      places.emit (further h).2 event, (further h).1.trans start.2⟩,
      fun h => places.emit (last h) event⟩
  exact loop_returns Parser.left law.discipline.goes
    (fun _ p => places.holds place p ∧ p.left < bound) (fun _ => places.holds place')
    law.discipline.trans round
    (p.left + 1) state p ⟨here, hp⟩ (Nat.lt_succ_self _)

theorem commaRound_eq {item : σ → Parse σ} {state state' : σ} {p q : Parser}
    (eq : item state p = some (state', q)) :
    commaRound item state p =
      if q.current.type = .comma then some ((state', true), q.advance)
      else some ((state', false), q) := by
  rw [commaRound, Discipline.bind_eq eq]
  split
  · next comma =>
    rw [Discipline.bind_eq (ifMatch_pos comma)]
    rfl
  · next other =>
    rw [Discipline.bind_eq (ifMatch_neg other)]
    rfl

/-- A round of a list is the last one unless it takes a comma. -/
theorem commaRound_goes {item : σ → Parse σ}
    (hitem : ∀ state, law.Returns .start .any bound (item state)) (state : σ) (p : Parser)
    (here : places.holds .start p) (hp : p.left < bound) :
    ∃ state' again q, commaRound item state p = some ((state', again), q) ∧
      law.discipline.goes p q ∧ (again = true → q.left < p.left ∧ places.holds .start q) ∧
      (again = false → places.holds .any q) := by
  obtain ⟨state', q, eq, goes, there⟩ := hitem state p here hp
  have run := commaRound_eq eq
  split at run
  · next comma =>
    obtain ⟨goes', next, less⟩ := law.pass_plain there (by rw [comma]; decide)
    exact ⟨state', true, q.advance, run, law.discipline.trans goes goes', fun _ =>
      ⟨less.trans_le goes.2.1, next⟩, by simp⟩
  · exact ⟨state', false, q, run, goes, by simp, fun _ => there⟩

/-- `do item while (match(p, TOKEN_COMMA))`. -/
theorem returns_commaLoop {kind : LoopKind} {item : σ → Parse σ} {state : σ}
    (hitem : ∀ state, law.Returns .start .any bound (item state)) :
    law.Returns .start .any bound (commaLoop kind item state) :=
  returns_runLoop (commaRound_goes hitem)

/-- The items of a list before the last one. -/
theorem commaLoop_step {kind : LoopKind} {item : σ → Parse σ} {state state' : σ}
    (hitem : ∀ state, law.Returns .start .any bound (item state)) {p q : Parser}
    (here : places.holds .start p) (hp : p.left < bound) (eq : item state p = some (state', q))
    (comma : q.current.type = .comma) :
    ∃ event, commaLoop kind item state p = commaLoop kind item state' (q.advance.emit event) := by
  have run := commaRound_eq eq
  rw [if_pos comma] at run
  obtain ⟨state'', again, r, run', goes, further, -⟩ := commaRound_goes hitem state p here hp
  obtain ⟨⟨rfl, rfl⟩, rfl⟩ : (state' = state'' ∧ true = again) ∧ q.advance = r := by
    simpa using run.symm.trans run'
  obtain ⟨less, next⟩ := further rfl
  obtain ⟨event, first, -⟩ := goes_recorded kind _ state run goes fun h => (further h).1
  refine ⟨event, ?_⟩
  rw [commaLoop, runLoop, loop_again first]
  refine loop_enough Parser.left (fun p => places.holds .start p ∧ p.left < bound)
    (fun state p start => ?_) _ _ state' _ ⟨places.emit next event, less.trans hp⟩ less
    (Nat.lt_succ_self _)
  obtain ⟨state'', again, r, eq, goes, further, -⟩ :=
    commaRound_goes hitem state p start.1 start.2
  obtain ⟨event, eq', -⟩ := goes_recorded kind _ state eq goes fun h => (further h).1
  exact ⟨state'', again, r.emit event, eq', fun h => ⟨(further h).1,
    places.emit (further h).2 event, (further h).1.trans start.2⟩⟩

/-- The last item of a list. -/
theorem commaLoop_last {kind : LoopKind} {item : σ → Parse σ} {state state' : σ}
    (hitem : ∀ state, law.Returns .start .any bound (item state)) {p q : Parser}
    (here : places.holds .start p) (hp : p.left < bound) (eq : item state p = some (state', q))
    (other : q.current.type ≠ .comma) :
    ∃ event, commaLoop kind item state p = some (state', q.emit event) := by
  have run := commaRound_eq eq
  rw [if_neg other] at run
  obtain ⟨state'', again, r, run', goes, further, -⟩ := commaRound_goes hitem state p here hp
  obtain ⟨⟨rfl, rfl⟩, rfl⟩ : (state' = state'' ∧ false = again) ∧ q = r := by
    simpa using run.symm.trans run'
  obtain ⟨event, first, -⟩ := goes_recorded kind _ state run goes fun h => (further h).1
  exact ⟨event, loop_last first⟩

/-! ### Lists -/

/-- The next item of a list is read, from every state where the items before it have been. -/
def ReadsItem (_law : Law libc places rel) (list : ItemList) (bound : ℕ)
    (item : List α → Parse (List α)) : Prop :=
  ∀ items p, places.holds .start p → p.left < bound → ∃ items' q, item items p = some (items', q) ∧
    Takes p q ∧ places.holds .any q ∧
    ∀ start, ReadsList rel list start items.length p → ReadsList rel list start items'.length q

theorem ReadsItem.returns {list : ItemList} {item : List α → Parse (List α)}
    (h : law.ReadsItem list bound item) (all : ∀ p q, rel p q) (items : List α) :
    law.Returns .start .any bound (item items) := by
  intro p here hp
  obtain ⟨items', q, eq, takes, there, -⟩ := h items p here hp
  exact ⟨items', q, eq, ⟨all p q, takes⟩, there⟩

/-- An item that goes to one buffer. -/
theorem readsItem_readItem {β : Type} {list : ItemList} {buffer : Buffer}
    (single : list.buffers = [buffer]) {item : List α → Parse β} (f : β → α)
    (h : ∀ items, law.Returns .start .any bound (item items)) :
    law.ReadsItem list bound fun items => do
      let a ← readItem buffer items.length (item items)
      return items ++ [f a] := by
  intro items p here hp
  obtain ⟨a, q, eq, goes, there⟩ := h items p here hp
  have put : q.putItem list items.length = q.emit (.write buffer items.length) := by
    rw [Parser.putItem, single]
    rfl
  refine ⟨items ++ [f a], q.emit (.write buffer items.length), ?_, goes.2.trans (.of_eq rfl rfl),
    places.emit there _, fun start before => ?_⟩
  · have read : readItem buffer items.length (item items) p =
        some (a, q.emit (.write buffer items.length)) := by
      rw [readItem, Discipline.bind_eq eq]
      rfl
    exact (Discipline.bind_eq read).trans rfl
  · rw [List.length_append, ← put]
    exact (before.goes goes.1).put

/-- A round of the loop over a list. -/
theorem itemRound_goes {list : ItemList} {kind : LoopKind} {item : List α → Parse (List α)}
    (hitem : law.ReadsItem list bound item) {start : Parser} (items : List α) (p : Parser)
    (before : places.holds .start p ∧ p.left < bound ∧ ReadsList rel list start items.length p) :
    ∃ items' again q, recorded kind (commaRound item) items p = some ((items', again), q) ∧
      Takes p q ∧
      (again = true → q.left < p.left ∧ places.holds .start q ∧ q.left < bound ∧
        ReadsList rel list start items'.length q) ∧
      (again = false → places.holds .any q ∧ ReadsList rel list start items'.length q) := by
  obtain ⟨here, hp, before⟩ := before
  obtain ⟨items', q, eq, takes, there, after⟩ := hitem items p here hp
  have read := after start before
  have run := commaRound_eq eq
  split at run
  · next comma =>
    obtain ⟨goes, next, less⟩ := law.pass_plain there (by rw [comma]; decide)
    have fewer : q.advance.left < p.left := less.trans_le takes.1
    refine ⟨items', true, _, recorded_eq run, (takes.trans goes.2).trans (.of_eq rfl rfl), fun _ =>
      ⟨fewer, places.emit next _, fewer.trans hp, ?_⟩, by simp⟩
    exact read.goes (law.trans goes.1 (law.round _ kind fun _ => fewer))
  · exact ⟨items', false, _, recorded_eq run, takes.trans (.of_eq rfl rfl), by simp, fun _ =>
      ⟨places.emit there _, read.goes (law.round q kind (by simp))⟩⟩

theorem returns_itemLoop {list : ItemList} {kind : LoopKind} {item : List α → Parse (List α)}
    (hitem : law.ReadsItem list bound item) :
    law.Returns .start .any bound (itemLoop list kind item) := by
  intro p here hp
  obtain ⟨items, q, eq, takes, there, read⟩ := loop_returns Parser.left Takes
    (fun items q => places.holds .start q ∧ q.left < bound ∧ ReadsList rel list p items.length q)
    (fun items q => places.holds .any q ∧ ReadsList rel list p items.length q) Takes.trans
    (itemRound_goes hitem) (p.left + 1) [] p ⟨here, hp, .start⟩ (Nat.lt_succ_self _)
  refine ⟨items, q.emit (.list list items.length), ?_,
    ⟨law.list read, takes.trans (.of_eq rfl rfl)⟩, places.emit there _⟩
  rw [itemLoop, Discipline.bind_eq (show commaLoop kind item [] p = some (items, q) from eq)]
  rfl

section While

variable {kind : LoopKind} {condition : Parser → Bool} {body : σ → Parse (σ × Bool)}
  {state state' : σ}

/-- A round that takes a token wherever the condition holds, and comes back to the place unless it
breaks out. -/
def RoundTakes (law : Law libc places rel) (place place' : Place) (bound : ℕ)
    (condition : Parser → Bool) (body : σ → Parse (σ × Bool)) : Prop :=
  ∀ state p, places.holds place p → p.left < bound → condition p = true →
    ∃ r q, body state p = some (r, q) ∧ law.discipline.goes p q ∧ q.left < p.left ∧
      (r.2 = false → places.holds place q) ∧ places.holds place' q

/-- A round of a loop whose body takes a token wherever the condition holds. -/
theorem whileRound_goes (hemit : ∀ p event, condition (Parser.emit p event) = condition p)
    (hbody : law.RoundTakes place place' bound condition body) (state : σ) (p : Parser)
    (start : places.holds place p ∧ p.left < bound ∧ condition p = true) :
    ∃ state' again q,
      recorded kind (whileRound condition body) state p = some ((state', again), q) ∧
        (law.discipline.goes p q ∧ q.left < p.left) ∧
        (again = true →
          q.left < p.left ∧ places.holds place q ∧ q.left < bound ∧ condition q = true) ∧
        (again = false → places.holds place' q) := by
  obtain ⟨⟨state', stop⟩, q, eq, goes, less, back, there⟩ :=
    hbody state p start.1 start.2.1 start.2.2
  have once : whileRound condition body state p = some ((state', !stop && condition q), q) :=
    Discipline.bind_eq eq
  obtain ⟨event, eq', goes'⟩ := goes_recorded kind _ state once goes fun _ => less
  refine ⟨state', !stop && condition q, q.emit event, eq', ⟨goes', less⟩, fun again => ?_,
    fun _ => places.emit there event⟩
  rw [Bool.and_eq_true, Bool.not_eq_true'] at again
  exact ⟨less, places.emit (back again.1) event, less.trans start.2.1,
    (hemit q event).trans again.2⟩

/-- `while` with a body that takes a token wherever the condition holds. -/
theorem whileLoop_takes (hemit : ∀ p event, condition (Parser.emit p event) = condition p)
    (hbody : law.RoundTakes place place' bound condition body) {p : Parser}
    (here : places.holds place p) (hp : p.left < bound) (start : condition p = true) :
    ∃ state' q, whileLoop kind condition body state p = some (state', q) ∧
      (law.discipline.goes p q ∧ q.left < p.left) ∧ places.holds place' q := by
  rw [whileLoop, branch_pos start]
  exact loop_returns Parser.left (fun p q => law.discipline.goes p q ∧ q.left < p.left) _ _
    (fun h h' => ⟨law.discipline.trans h.1 h'.1, h'.2.trans h.2⟩) (whileRound_goes hemit hbody)
    (p.left + 1) state p ⟨here, hp, start⟩ (Nat.lt_succ_self _)

theorem returns_whileLoop (hemit : ∀ p event, condition (Parser.emit p event) = condition p)
    (hbody : law.RoundTakes place place' bound condition body)
    (weaker : ∀ p, places.holds place p → places.holds place' p) :
    law.Returns place place' bound (whileLoop kind condition body state) := by
  intro p here hp
  by_cases start : condition p = true
  · obtain ⟨state', q, eq, goes, there⟩ := whileLoop_takes hemit hbody here hp start
    exact ⟨state', q, eq, goes.1, there⟩
  · exact ⟨state, p, branch_neg start, law.discipline.refl p, weaker p here⟩

/-- The loop from its second round on. -/
theorem whileLoop_step (hemit : ∀ p event, condition (Parser.emit p event) = condition p)
    (hbody : law.RoundTakes place place' bound condition body) {p q : Parser}
    (here : places.holds place p) (hp : p.left < bound) (holds : condition p = true)
    (eq : body state p = some ((state', false), q)) :
    ∃ event, whileLoop kind condition body state p =
      whileLoop kind condition body state' (q.emit event) := by
  obtain ⟨r, q', eq', goes, less, back, -⟩ := hbody state p here hp holds
  obtain ⟨rfl, rfl⟩ : (state', false) = r ∧ q = q' := by simpa using eq.symm.trans eq'
  have once : whileRound condition body state p = some ((state', condition q), q) := by
    rw [whileRound, Discipline.bind_eq eq]
    rfl
  obtain ⟨event, first, -⟩ := goes_recorded kind _ state once goes fun _ => less
  refine ⟨event, ?_⟩
  rw [whileLoop, branch_pos holds, runLoop]
  by_cases again : condition q = true
  · rw [again] at first
    rw [loop_again first, whileLoop, branch_pos ((hemit q event).trans again), runLoop]
    refine loop_enough Parser.left
      (fun p => places.holds place p ∧ p.left < bound ∧ condition p = true)
      (fun state p start => ?_) _ _ state' (q.emit event)
      ⟨places.emit (back rfl) event, less.trans hp, (hemit q event).trans again⟩ less
      (Nat.lt_succ_self _)
    obtain ⟨state'', again, r, eq, -, further, -⟩ := whileRound_goes hemit hbody state p start
    exact ⟨state'', again, r, eq, further⟩
  · rw [Bool.not_eq_true] at again
    rw [again] at first
    rw [loop_last first, whileLoop, branch_neg (by rw [hemit, again]; decide)]
    rfl

end While

end Law

end KirbyLang.Parsing
