import KirbyLang.ParserKnot

/-!
# Rounds and buffers of the parser

Two laws of the parser, both about what its runs write down.

* `parse_terminates`: parsing returns, and each round of a loop passes a token or is the last one;
* `items_written`: a list of arguments, parameters or generic parameters puts its items at the
  indices below its length, and nothing else is put in its buffers;
* `buffersSafe_iff`: so the writes to the buffers are in bounds exactly if no such list has more
  than 256 items. The error at the 256th item does not end the list; a struct literal has a guard at the
  write.
-/

namespace KirbyLang.Parsing

variable {libc : Libc}

/-! ### Rounds -/

/-- Each round of a loop but its last one passes a token. -/
def RoundsProgress (log : List Event) : Prop :=
  ∀ kind before after again, .round kind before after again ∈ log → again = true → after < before

/-- What is not a round asks for nothing. -/
theorem roundsProgress_cons {log : List Event} {event : Event} (h : RoundsProgress log)
    (round : ∀ kind before after again, event = .round kind before after again → again = true →
      after < before) : RoundsProgress (event :: log) := by
  intro kind before after again mem
  rcases List.mem_cons.mp mem with eq | mem
  · exact round kind before after again eq.symm
  · exact h kind before after again mem

theorem roundsProgress_law :
    RecoveryLaw libc .free fun p q => RoundsProgress p.log → RoundsProgress q.log where
  refl _ := id
  trans h h' := h' ∘ h
  failed _ := id
  advance _ _ h := by rwa [Parser.log_advance]
  reject token message _ h := by rwa [Parser.log_errorAt, Parser.log_advance]
  text _ _ eq h := by rwa [(reports_of_stringChars eq).keeps.2.2.2.1, Parser.log_advance]
  errorAt p token message h := by rwa [Parser.log_errorAt]
  depth _ _ := id
  leavePanic _ := id
  round p kind before after again progress h := by
    refine roundsProgress_cons h ?_
    rintro _ _ _ _ ⟨⟩
    exact progress
  list h hp := by
    refine roundsProgress_cons (h.rel_of (fun _ => id) (fun h h' => h' ∘ h) ?_ hp) nofun
    exact fun p buffer index hp => roundsProgress_cons hp nofun
  field p _ _ h := roundsProgress_cons h nofun
  number _ h hp := by
    obtain ⟨literal, r, eq, rfl, -⟩ := number_eq_some h
    refine roundsProgress_cons ?_ nofun
    rcases numberLiteral_eq_some eq with rfl | ⟨message, rfl⟩
    · exact hp
    · rwa [Parser.log_errorAt]

/-- `parse` returns for every sequence of tokens with an end, and each round of its loops passes a
token or is the last round of its loop. -/
theorem parse_terminates (libc : Libc) (stream : TokenStream) :
    ∃ ast p, parseTokens libc stream = some (ast, p) ∧
      ∀ kind before after again, .round kind before after again ∈ p.log →
        after < before ∨ again = false := by
  obtain ⟨ast, p, eq, progress⟩ := parseTokens_returns roundsProgress_law
    (show Places.free.holds .start (initParser stream) from trivial)
  refine ⟨ast, p, eq, fun kind before after again mem => ?_⟩
  have start : RoundsProgress (initParser stream).log := by
    rw [initParser, Parser.log_advance]
    exact nofun
  cases again with
  | false => exact .inr rfl
  | true => exact .inl (progress start kind before after true mem rfl)

/-! ### Buffers -/

/-- Every write is at an index of its buffer. -/
def WritesInBounds (log : List Event) : Prop :=
  ∀ buffer index, .write buffer index ∈ log → index < buffer.size

/-- No list has more items than its buffers have room for. -/
def ListsFit (log : List Event) : Prop :=
  ∀ list length, .list list length ∈ log → ∀ buffer ∈ list.buffers, length ≤ buffer.size

/-- An item of a list is put at this index of the buffer. -/
def Listed (log : List Event) (buffer : Buffer) (index : ℕ) : Prop :=
  ∃ list length, .list list length ∈ log ∧ buffer ∈ list.buffers ∧ index < length

/-- What is written to the buffers are the items of the lists, and of one more list that has this
many items so far. A struct literal writes no field past the 255th. -/
structure ItemsWritten (list : ItemList) (count : ℕ) (log : List Event) : Prop where
  items : ∀ buffer index, buffer ≠ .fields → (.write buffer index ∈ log ↔
    Listed log buffer index ∨ buffer ∈ list.buffers ∧ index < count)
  fields : ∀ index, .write .fields index ∈ log → index < 255

section ItemsWritten

variable {list : ItemList} {count index : ℕ} {log log' : List Event} {buffer : Buffer}
  {event : Event}

@[simp] theorem not_listed_nil : ¬Listed [] buffer index := by simp [Listed]

@[simp] theorem listed_append :
    Listed (log ++ log') buffer index ↔ Listed log buffer index ∨ Listed log' buffer index := by
  simp only [Listed, List.mem_append]
  grind

theorem listed_cons (other : ∀ list length, event ≠ .list list length) :
    Listed (event :: log) buffer index ↔ Listed log buffer index := by
  simp only [Listed, List.mem_cons]
  grind

theorem listed_cons_list {length : ℕ} : Listed (.list list length :: log) buffer index ↔
    buffer ∈ list.buffers ∧ index < length ∨ Listed log buffer index := by
  simp [Listed, or_and_right, exists_or]

theorem ItemList.not_fields (list : ItemList) : .fields ∉ list.buffers := by
  cases list <;> decide

namespace ItemsWritten

theorem nil : ItemsWritten list 0 [] := ⟨by simp, by simp⟩

/-- What is no write to a buffer and no list. -/
theorem cons (h : ItemsWritten list count log)
    (noWrite : ∀ buffer index, event ≠ .write buffer index)
    (noList : ∀ list length, event ≠ .list list length) :
    ItemsWritten list count (event :: log) := by
  constructor
  · intro buffer index notFields
    simp [listed_cons noList, h.items buffer index notFields, (noWrite buffer index).symm]
  · intro index mem
    rcases List.mem_cons.mp mem with eq | mem
    · exact absurd eq.symm (noWrite _ _)
    · exact h.fields index mem

/-- Lists that are read while an item is. -/
theorem append (h : ItemsWritten list count log) {list' : ItemList}
    (h' : ItemsWritten list' 0 log') : ItemsWritten list count (log' ++ log) := by
  constructor
  · intro buffer index notFields
    simp only [List.mem_append, listed_append, h.items buffer index notFields,
      h'.items buffer index notFields, Nat.not_lt_zero, and_false, or_false]
    tauto
  · intro index mem
    exact (List.mem_append.mp mem).elim (h'.fields index) (h.fields index)

/-- The next item is put in the buffers of its list. -/
theorem put (h : ItemsWritten list count log) :
    ItemsWritten list (count + 1) ((list.buffers.map (.write · count)).reverse ++ log) := by
  have noList : ∀ buffer index,
      ¬Listed ((list.buffers.map (Event.write · count)).reverse) buffer index := by
    simp [Listed]
  constructor
  · intro buffer index notFields
    have last : index < count + 1 ↔ index = count ∨ index < count := by omega
    simp only [List.mem_append, listed_append, noList, h.items buffer index notFields, last,
      List.mem_reverse, List.mem_map, Event.write.injEq, false_or]
    grind
  · intro index mem
    rcases List.mem_append.mp mem with mem | mem
    · obtain ⟨buffer, isBuffer, eq⟩ := List.mem_map.mp (List.mem_reverse.mp mem)
      cases eq
      exact absurd isBuffer list.not_fields
    · exact h.fields index mem

/-- An item is put in a buffer of its list once more. -/
theorem again (h : ItemsWritten list (count + 1) log) (mem : buffer ∈ list.buffers) :
    ItemsWritten list (count + 1) (.write buffer count :: log) := by
  constructor
  · intro buffer' index notFields
    have before := h.items buffer' index notFields
    simp only [List.mem_cons, listed_cons (show ∀ list length, Event.write buffer count ≠
      .list list length by simp), before, Event.write.injEq]
    grind
  · intro index written
    rcases List.mem_cons.mp written with eq | written
    · cases eq
      exact absurd mem list.not_fields
    · exact h.fields index written

/-- The list has been read. -/
theorem closed (h : ItemsWritten list count log) :
    ItemsWritten list 0 (.list list count :: log) := by
  constructor
  · intro buffer index notFields
    simp only [List.mem_cons, h.items buffer index notFields, listed_cons_list, reduceCtorEq]
    grind
  · intro index mem
    exact h.fields index (by simpa using mem)

/-- A list is read on past its buffers exactly if something is written there. -/
theorem safe_iff (h : ItemsWritten list 0 log) : WritesInBounds log ↔ ListsFit log := by
  constructor
  · intro safe list length mem buffer isBuffer
    by_contra! long
    -- the first item that has no room is written right behind the buffer
    have notFields : buffer ≠ .fields := fun eq => list.not_fields (eq ▸ isBuffer)
    have written := (h.items buffer buffer.size notFields).mpr
      (.inl ⟨list, length, mem, isBuffer, long⟩)
    exact absurd (safe buffer buffer.size written) (Nat.lt_irrefl _)
  · intro fit buffer index written
    -- field values have a guard at the write, and are in no list
    by_cases isFields : buffer = .fields
    · subst isFields
      exact (h.fields index written).trans (by decide)
    · rcases (h.items buffer index isFields).mp written with
        ⟨list, length, mem, isBuffer, less⟩ | none
      · exact less.trans_le (fit list length mem buffer isBuffer)
      · exact absurd none.2 (Nat.not_lt_zero _)

end ItemsWritten

end ItemsWritten

theorem Parser.log_putItem (p : Parser) (list : ItemList) (index : ℕ) :
    (p.putItem list index).log = (list.buffers.map (.write · index)).reverse ++ p.log := by
  cases list <;> rfl

/-- What a part of a run writes down: the items of the lists it reads. -/
def Fills (p q : Parser) : Prop := ∃ events, q.log = events ++ p.log ∧ ItemsWritten .args 0 events

theorem ItemsWritten.any {log : List Event} {list list' : ItemList} (h : ItemsWritten list 0 log) :
    ItemsWritten list' 0 log :=
  ⟨by simpa using h.items, h.fields⟩

theorem Fills.of_log_eq {p q : Parser} (h : q.log = p.log) : Fills p q := ⟨[], h, .nil⟩

/-- What is written while a list is read: the items of it so far, and of the lists in its items. -/
theorem ReadsList.itemsWritten {list : ItemList} {p q : Parser} {count : ℕ}
    (h : ReadsList Fills list p count q) :
    ∃ events, q.log = events ++ p.log ∧ ItemsWritten list count events := by
  induction h with
  | start => exact ⟨[], rfl, .nil⟩
  | goes _ goes ih =>
    obtain ⟨events, eq, written⟩ := ih
    obtain ⟨events', eq', written'⟩ := goes
    exact ⟨events' ++ events, by rw [eq', eq, List.append_assoc], written.append written'⟩
  | put _ ih =>
    obtain ⟨events, eq, written⟩ := ih
    exact ⟨_, by rw [Parser.log_putItem, eq, ← List.append_assoc], written.put⟩
  | again _ mem ih =>
    obtain ⟨events, eq, written⟩ := ih
    exact ⟨_ :: events, congrArg (List.cons _) eq, written.again mem⟩

theorem fills_law : RecoveryLaw libc .free Fills where
  refl p := .of_log_eq rfl
  trans := by
    rintro p q r ⟨events, eq, written⟩ ⟨events', eq', written'⟩
    exact ⟨events' ++ events, by rw [eq', eq, List.append_assoc], written.append written'⟩
  failed _ := id
  advance _ _ := .of_log_eq (Parser.log_advance _)
  reject token message _ := .of_log_eq ((Parser.log_errorAt _ _ _).trans (Parser.log_advance _))
  text _ _ eq := .of_log_eq
    ((reports_of_stringChars eq).keeps.2.2.2.1.trans (Parser.log_advance _))
  errorAt p token message := .of_log_eq (p.log_errorAt token message)
  depth _ _ := .of_log_eq rfl
  leavePanic _ := .of_log_eq rfl
  round p kind before after again _ :=
    ⟨[.round kind before after again], rfl, .cons .nil nofun nofun⟩
  list h := by
    obtain ⟨events, eq, written⟩ := h.itemsWritten
    exact ⟨_ :: events, congrArg (List.cons _) eq, written.closed.any⟩
  field p count room := by
    refine ⟨[.write .fields count], rfl, ?_, ?_⟩
    · intro buffer index notFields
      simp [notFields, listed_cons]
    · intro index mem
      obtain rfl : index = count := by simpa using mem
      exact room
  number := by
    intro p q node _ h
    obtain ⟨literal, r, eq, rfl, -⟩ := number_eq_some h
    refine ⟨[.number p.previous literal], ?_, .cons .nil nofun nofun⟩
    rcases numberLiteral_eq_some eq with rfl | ⟨message, rfl⟩
    · rfl
    · simp [Parser.emit]

/-- What parsing writes down. -/
theorem parse_fills (libc : Libc) (source : Bytes) :
    ∃ ast p, parse libc source = some (ast, p) ∧ ItemsWritten .args 0 p.log := by
  obtain ⟨ast, p, eq, events, log, written⟩ :=
    parseTokens_returns fills_law (show Places.free.holds .start (initParser (lexStream source)) from
      trivial)
  have start : (initParser (lexStream source)).log = [] := by rw [initParser, Parser.log_advance]
  rw [start, List.append_nil] at log
  exact ⟨ast, p, eq, log ▸ written⟩

/-- A list of this many items writes each index below this number to each of its buffers, and what
is written to these buffers is written so. -/
theorem items_written {libc : Libc} {source : Bytes} {ast : List AstNode} {p : Parser}
    (h : parse libc source = some (ast, p)) {buffer : Buffer} (notFields : buffer ≠ .fields)
    (index : ℕ) : .write buffer index ∈ p.log ↔
      ∃ list length, .list list length ∈ p.log ∧ buffer ∈ list.buffers ∧ index < length := by
  obtain ⟨ast', p', eq, written⟩ := parse_fills libc source
  obtain ⟨rfl, rfl⟩ : ast = ast' ∧ p = p' := by simpa using h.symm.trans eq
  simpa [Listed] using written.items buffer index notFields

/-- Every write to a buffer is in bounds exactly if no list of arguments, parameters or generic
parameters has more items than its buffers have room for. -/
theorem buffersSafe_iff (libc : Libc) (source : Bytes) :
    ∃ ast p, parse libc source = some (ast, p) ∧ (WritesInBounds p.log ↔ ListsFit p.log) := by
  obtain ⟨ast, p, eq, written⟩ := parse_fills libc source
  exact ⟨ast, p, eq, written.safe_iff⟩

/-- A call with 257 arguments. -/
def longCall : Bytes :=
  ascii "f(a" ++ (List.replicate 256 (ascii ",a")).flatten ++ ascii ");"

/-- The 257th argument of a call is written behind its buffer. -/
theorem not_buffersSafe_longCall :
    ¬ ∀ ast p, parse plainLibc longCall = some (ast, p) → WritesInBounds p.log := by
  intro safe
  have written : ∃ r, parse plainLibc longCall = some r ∧
      r.2.log.contains (.write .args 256) = true := by
    rw [← Option.map_eq_some_iff]
    decide +kernel
  obtain ⟨⟨ast, p⟩, eq, mem⟩ := written
  have inside := safe ast p eq .args 256 (List.contains_iff_mem.mp mem)
  simp [Buffer.size] at inside

end KirbyLang.Parsing
