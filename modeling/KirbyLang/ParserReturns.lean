import KirbyLang.ParserLaws

/-!
# The parser returns

Every function of the parser returns and obeys every law, whatever the tokens are: what is left
bounds the rounds of its loops and the calls inside each other. `Below` is what a function assumes
of the functions it comes back to when it calls them with less left.

* `number_goes`, `text_goes`: literals;
* `returns_parseType`;
* `Below`: expressions, but for the functions that leave panic mode.
-/

namespace KirbyLang.Parsing

open Consuming

variable {libc : Libc} {places : Places} {rel : Parser → Parser → Prop} {bound : ℕ}
  {place : Place}

/-! ### Number literals -/

theorem number_eq {p q : Parser} {literal : NumberLiteral}
    (h : numberLiteral libc p.previous p = some (literal, q)) :
    number libc p = some (.literal p.previous.line (.number literal),
      q.emit (.number p.previous literal)) := by
  rw [number, Discipline.bind_eq (show previous p = some (p.previous, p) from rfl),
    Discipline.bind_eq h]
  rfl

theorem number_eq_some {p q : Parser} {node : AstNode} (h : number libc p = some (node, q)) :
    ∃ literal r, numberLiteral libc p.previous p = some (literal, r) ∧
      q = r.emit (.number p.previous literal) ∧
      node = .literal p.previous.line (.number literal) := by
  rcases eq : numberLiteral libc p.previous p with _ | ⟨literal, r⟩
  · rw [number, Discipline.bind_eq (show previous p = some (p.previous, p) from rfl)] at h
    simp [StateT.bind, Bind.bind, eq] at h
  · rw [number_eq eq] at h
    cases h
    exact ⟨literal, r, rfl, rfl, rfl⟩

/-- At most an error is reported. -/
theorem numberLiteral_eq_some {token : SourceToken} {p q : Parser} {literal : NumberLiteral}
    (h : numberLiteral libc token p = some (literal, q)) :
    q = p ∨ ∃ message, q = p.errorAt p.previous message := by
  have reported : ∀ (condition : Bool) (message : Bytes) (literal' : NumberLiteral),
      (do when condition (parseErrorBytes message); return literal' : Parse NumberLiteral) p =
        some (literal, q) → q = p ∨ ∃ message, q = p.errorAt p.previous message := by
    intro condition message literal' h
    cases condition <;> cases h
    · exact .inl rfl
    · exact .inr ⟨message, rfl⟩
  unfold numberLiteral at h
  dsimp only at h
  split at h
  · cases h
    exact .inl rfl
  · split at h
    · exact reported _ _ _ h
    · split at h
      · cases h
        exact .inl rfl
      · exact reported _ _ _ h

theorem numberLiteral_reports (token : SourceToken) (p : Parser) :
    ∃ literal q, numberLiteral libc token p = some (literal, q) ∧ Reports p q := by
  have reported : ∀ (condition : Bool) (message : Bytes) (literal : NumberLiteral), ∃ literal' q,
      (do when condition (parseErrorBytes message); return literal : Parse NumberLiteral) p =
        some (literal', q) ∧ Reports p q := by
    intro condition message literal
    cases condition with
    | false => exact ⟨literal, p, rfl, .none p⟩
    | true => exact ⟨literal, _, rfl, .error (.none _)⟩
  unfold numberLiteral
  dsimp only
  split
  · exact ⟨_, p, rfl, .none p⟩
  · split
    · exact reported _ _ _
    · split
      · exact ⟨_, p, rfl, .none p⟩
      · exact reported _ _ _

theorem stringLiteral_eq {chars decoded : Bytes} {isInterp : Bool} {p q : Parser}
    (h : stringChars isInterp chars p = some (decoded, q)) :
    stringLiteral chars isInterp p = some (.literal p.previous.line (.string decoded), q) := by
  rw [stringLiteral, Discipline.bind_eq (show previous p = some (p.previous, p) from rfl),
    Discipline.bind_eq h]
  rfl

namespace Law

variable (law : Law libc places rel)

/-! ### Literals -/

theorem number_goes {p : Parser} (here : places.holds .any p)
    (isNumber : p.previous.type ∈ numberTypes) :
    ∃ node q, Parsing.number libc p = some (node, q) ∧ law.discipline.goes p q ∧
      places.holds .any q := by
  obtain ⟨literal, q, eq, reports⟩ := @numberLiteral_reports libc p.previous p
  have run := number_eq eq
  exact ⟨_, _, run, ⟨law.number isNumber run, (Takes.reports reports).trans (.of_eq rfl rfl)⟩,
    places.emit (places.reports reports here) _⟩

/-- The token of a text is passed and the text is read. -/
theorem text_goes {p : Parser} {skip : ℕ} {isInterp : Bool} (here : places.holds .any p)
    (form : textForm p.current.type = some (skip, isInterp)) :
    ∃ decoded q, stringChars isInterp (inner p.current skip 1) p.advance = some (decoded, q) ∧
      law.discipline.goes p q ∧ places.holds .start q ∧ q.left < p.left := by
  obtain ⟨decoded, q, eq, reports⟩ :=
    stringChars_reports isInterp (inner p.current skip 1) p.advance
  have notNumber : p.current.type ∉ numberTypes := by
    intro isNumber
    rcases List.mem_pair.mp isNumber with eq | eq <;> rw [eq] at form <;> cases form
  have notEnd : p.current.type ≠ .eof := by
    intro eof
    rw [eof] at form
    cases form
  exact ⟨decoded, q, eq, ⟨law.text here form eq, (Takes.advance p).trans (.reports reports)⟩,
    places.reports reports (places.advance_start here notNumber),
    reports.keeps.1.trans_lt (Parser.left_advance_lt notEnd)⟩

theorem interpText_goes {p : Parser} {skip : ℕ} (parts : List AstNode)
    (here : places.holds .any p) (form : textForm p.current.type = some (skip, true)) :
    ∃ parts' q, interpText parts skip p.advance = some (parts', q) ∧ law.discipline.goes p q ∧
      places.holds .start q ∧ q.left < p.left := by
  obtain ⟨decoded, q, eq, rest⟩ := law.text_goes here form
  have start : interpText parts skip p.advance =
      (if 0 < p.current.length - skip - 1 then (do
        return parts ++ [← stringLiteral (inner p.current skip 1) true] : Parse (List AstNode))
      else pure parts) p.advance := by
    rw [interpText, Discipline.bind_eq (show previous p.advance = some (p.advance.previous, _) from
      rfl), Parser.previous_advance]
  by_cases full : 0 < p.current.length - skip - 1
  · rw [if_pos full, Discipline.bind_eq (stringLiteral_eq eq)] at start
    exact ⟨_, q, start, rest⟩
  · rw [if_neg full] at start
    have empty : inner p.current skip 1 = [] := by
      rw [inner, Nat.eq_zero_of_not_pos full]
      rfl
    rw [empty] at eq
    cases eq
    exact ⟨parts, p.advance, start, rest⟩

/-! ### Types -/

theorem returns_arrayLength (text : Bytes) (value : ℤ) :
    law.Returns place place bound (arrayLength text value) := by
  fun_induction arrayLength text value with
  | case1 => exact law.returns_pure _
  | case2 => exact (law.returns_parseError _).to.bind fun _ => law.returns_pure _
  | case3 => exact (law.returns_parseError _).to.bind fun _ => law.returns_pure _
  | case4 _ _ _ _ _ _ ih => exact ih

theorem returns_parseArrayLengthPlaceholder :
    law.Returns place place bound parseArrayLengthPlaceholder :=
  law.returns_previous.bind fun _ => Discipline.Returns.ite (law.returns_pure _) <|
    Discipline.Returns.ite (law.returns_pure _) <|
      (law.returns_parseError _).to.bind fun _ => law.returns_pure _

/-- A number is passed. -/
theorem returns_consumeNumber (message : String) :
    law.Returns place .any bound (consume .number message) := by
  intro p here hp
  by_cases same : p.current.type = .number
  · have passes : places.Passes p := .inr (by rw [same]; exact ⟨rfl, nofun⟩)
    exact ⟨(), p.advance, ifCheck_pos same, law.advance_goes (places.any here) passes,
      places.advance (places.any here)⟩
  · obtain ⟨a, q, eq, goes, there⟩ := law.returns_errorAtCurrent message p here hp
    exact ⟨a, q, (ifCheck_neg same).trans eq, goes, places.of_failed there⟩

theorem returns_arrayTypeLength : law.Returns .start .any bound arrayTypeLength := by
  have placeholder : law.Returns .start .any bound parseArrayLengthPlaceholder :=
    law.returns_parseArrayLengthPlaceholder.to_any
  have number : law.Returns .start .any bound (do
      consume .number "Expect array length after ';'."
      parseArrayLength) :=
    (law.returns_consumeNumber _).bind fun _ => law.returns_previous.bind fun _ =>
      law.returns_arrayLength _ _
  intro p here hp
  by_cases named : (p.allowLengthPlaceholders && p.current.type == .identifier) = true
  · obtain ⟨goes, next⟩ := law.pass_name here (by simp at named; exact named.2)
    obtain ⟨a, q, eq, goes', there⟩ := placeholder p.advance next (goes.2.1.trans_lt hp)
    exact ⟨a, q, (branch_pos named).trans eq, law.discipline.trans goes goes', there⟩
  · obtain ⟨a, q, eq, rest⟩ := number p here hp
    exact ⟨a, q, (branch_neg named).trans eq, rest⟩

variable {law}

section Types

variable {parseType : Parse TypeNode}

theorem returns_functionType (h : law.Returns .start .start bound parseType) :
    law.Returns .start .start bound (functionType parseType) :=
  law.returns_previous.bind fun _ => (law.returns_consume _ _).bind fun _ =>
    (returns_ifCheck (law.returns_pure _).to_any (returns_commaLoop fun _ =>
      (h.bind fun _ => law.returns_pure _).to_any)).bind fun _ =>
        (law.returns_consume _ _).bind fun _ => (law.returns_consume _ _).bind fun _ =>
          h.bind fun _ => law.returns_pure _

theorem returns_listType (h : law.Returns .start .start bound parseType) :
    law.Returns .start .start bound (listType parseType) :=
  law.returns_previous.bind fun _ => h.bind fun _ =>
    returns_ifMatch (law.returns_arrayTypeLength.bind fun _ => (law.returns_consume _ _).bind
      fun _ => law.returns_pure _)
        ((law.returns_consume _ _).bind fun _ => law.returns_pure _)

theorem returns_namedType (h : law.Returns .start .start bound parseType) :
    law.Returns .start .start (bound + 1) (namedType parseType) :=
  (law.returns_consumeName _).bind fun _ => law.returns_previous.bind fun _ =>
    (returns_ifMatch_succ ((returns_commaLoop fun _ =>
      (h.bind fun _ => law.returns_pure _).to_any).bind fun _ =>
        (law.returns_consume _ _).bind fun _ => law.returns_pure _) (law.returns_pure _)).bind
          fun _ => law.returns_pure _

theorem returns_typeExpression (h : law.Returns .start .start bound parseType) :
    law.Returns .start .start (bound + 1) (typeExpression parseType) :=
  returns_ifMatch_succ (returns_functionType h) <|
    returns_ifMatch_succ (returns_listType h) (returns_namedType h)

end Types

variable (law)

/-- As many types inside each other as tokens are left are enough. -/
theorem returns_typeRounds (depth : ℕ) : law.Returns .start .start depth (typeRounds depth) := by
  induction depth with
  | zero => exact fun _ _ h => absurd h (Nat.not_lt_zero _)
  | succ depth ih => exact returns_typeExpression ih

theorem returns_parseType : law.Returns .start .start bound parseType :=
  fun p here _ => law.returns_typeRounds (p.left + 1) p here (Nat.lt_succ_self _)

theorem returns_parseTypeAnnotation : law.Returns .start .start bound parseTypeAnnotation :=
  returns_ifMatch (law.returns_parseType.bind fun _ => law.returns_pure _) (law.returns_pure _)

theorem returns_keepField (fields : List (Token × AstNode)) (name : Token)
    (value : Option AstNode) : law.Returns place place bound (keepField fields name value) := by
  intro p here _
  unfold keepField
  split
  · next room => exact ⟨_, p.emit _, rfl, ⟨law.field p room, .of_eq rfl rfl⟩, places.emit here _⟩
  · exact ⟨_, p, rfl, law.discipline.refl p, here⟩

end Law

/-! ### Expressions -/

/-- What is assumed of the functions that are come back to with less left than the bound. An
expression may end with a number, a statement does not. -/
structure Below (law : Law libc places rel) (bound : ℕ) (calls : Recursion) : Prop where
  parsePrecedence {precedence : Precedence} :
    precedence ≠ .none → law.Consumes .start .any bound (calls.parsePrecedence precedence)
  statementExpression : law.Consumes .start .any bound calls.statementExpression
  statement : law.Consumes .start .start bound calls.statement
  declaration : law.Consumes .start .start bound calls.declaration

namespace Below

open Law

variable {law : Law libc places rel} {calls : Recursion} (below : Below law bound calls)

include below

theorem returns_expression : law.Returns .start .any bound (expression calls) :=
  (below.parsePrecedence (by decide)).returns

theorem returns_interpPlaceholder (parts : List AstNode) :
    law.Returns .start .any bound (interpPlaceholder calls parts) :=
  returns_branch ((law.returns_errorAtCurrent _).to.bind fun _ => law.returns_pure _)
    (below.returns_expression.bind fun _ => law.returns_pure _)

/-- What follows the first text. A round is the last one unless it passes the token of the text
after its placeholder. -/
theorem returns_interpRounds (parts : List AstNode) :
    law.Returns .start .any bound (runLoop .interpolation (interpRound calls) parts) := by
  refine returns_runLoop fun parts p here hp => ?_
  obtain ⟨parts', q, eq, goes, there⟩ := below.returns_interpPlaceholder parts p here hp
  by_cases middle : q.current.type = .interpMiddle
  · obtain ⟨parts'', r, eq', goes', next, less⟩ :=
      law.interpText_goes parts' there (by rw [middle]; rfl)
    refine ⟨parts'', true, r, ?_, law.discipline.trans goes goes',
      fun _ => ⟨less.trans_le goes.2.1, next⟩, by simp⟩
    rw [interpRound, Discipline.bind_eq eq, ifMatch_pos middle, Discipline.bind_eq eq']
    rfl
  · have final : ∃ parts'' r, interpEnd parts' q = some (parts'', r) ∧ law.discipline.goes q r ∧
        places.holds .any r := by
      by_cases last : q.current.type = .interpEnd
      · obtain ⟨parts'', r, eq', goes', next, -⟩ :=
          law.interpText_goes parts' there (by rw [last]; rfl)
        exact ⟨parts'', r, (ifMatch_pos last).trans eq', goes', places.any next⟩
      · exact ⟨parts', _, ifMatch_neg last, law.errorAt_goes q _ _, places.error there _ _⟩
    obtain ⟨parts'', r, eq', goes', next⟩ := final
    refine ⟨parts'', false, r, ?_, law.discipline.trans goes goes', by simp, fun _ => next⟩
    rw [interpRound, Discipline.bind_eq eq, ifMatch_neg middle, Discipline.bind_eq eq']
    rfl

/-- An interpolated string from its first token on. -/
theorem interpolation_goes {p : Parser} (here : places.holds .any p) (hp : p.left < bound + 1)
    (first : p.current.type = .interpStart) :
    ∃ node q, interpolation calls p.advance = some (node, q) ∧ law.discipline.goes p q ∧
      places.holds .any q ∧ q.left < p.left := by
  obtain ⟨parts, q, eq, goes, next, less⟩ := law.interpText_goes [] here (by rw [first]; rfl)
  obtain ⟨parts', r, eq', goes', there⟩ :=
    below.returns_interpRounds parts q next (less.trans_le (Nat.lt_succ_iff.mp hp))
  refine ⟨.interpString p.advance.previous.line (parts'.map fun _ => .undefined) parts', r, ?_,
    law.discipline.trans goes goes', there, goes'.2.1.trans_lt less⟩
  rw [interpolation, Discipline.bind_eq (show previous p.advance = some (p.advance.previous, _) from
    rfl), Discipline.bind_eq eq, Discipline.bind_eq eq']
  rfl

theorem returns_grouping : law.Returns .start .any bound (grouping calls) :=
  law.returns_previous.bind fun _ => returns_ifMatch (law.returns_pure _).to_any <|
    below.returns_expression.bind fun _ =>
      ((law.returns_consume _ _).bind fun _ => law.returns_pure _).to_any

theorem returns_unary : law.Returns .start .any bound (unary calls) :=
  law.returns_previous.bind fun _ => (below.parsePrecedence (by decide)).returns.bind fun _ =>
    law.returns_pure _

theorem returns_variable_ (canAssign : Bool) :
    law.Returns .start .any bound (variable_ calls canAssign) :=
  law.returns_previous.bind fun _ =>
    returns_ifAssigned (below.returns_expression.bind fun _ => law.returns_pure _)
      (law.returns_pure _).to_any

theorem returns_arrayLiteral : law.Returns .start .any bound (arrayLiteral calls) :=
  law.returns_previous.bind fun _ =>
    (returns_ifCheck (law.returns_pure _).to_any (returns_commaLoop fun _ =>
      below.returns_expression.bind fun _ => law.returns_pure _)).bind fun _ =>
        ((law.returns_consume _ _).bind fun _ => law.returns_pure _).to_any

theorem returns_binary (left : Option AstNode) :
    law.Returns .start .any bound (binary calls left) :=
  law.returns_previous.bind fun _ =>
    (below.parsePrecedence (Precedence.next_ne_none _)).returns.bind fun _ => law.returns_pure _

/-- `and`, `or` and `??`. -/
theorem returns_logical {precedence : Precedence} (h : precedence ≠ .none)
    (node : SourceToken → Option AstNode → AstNode) :
    law.Returns .start .any bound (do
      let right ← calls.parsePrecedence precedence
      return node (← previous) right) :=
  (below.parsePrecedence h).returns.bind fun _ => law.returns_previous.bind fun _ =>
    law.returns_pure _

theorem readsItem_argument : law.ReadsItem .args bound (argument calls) :=
  readsItem_readItem rfl _ fun _ => (returns_when (law.returns_errorAtCurrent _)).bind fun _ =>
    below.returns_expression

theorem returns_call (left : Option AstNode) : law.Returns .start .any bound (call calls left) :=
  law.returns_previous.bind fun _ =>
    (returns_ifCheck (law.returns_pure _).to_any (returns_itemLoop below.readsItem_argument)).bind
      fun _ => law.returns_current.bind fun _ =>
        ((law.returns_consume _ _).bind fun _ => law.returns_pure _).to_any

theorem returns_dot (left : Option AstNode) (canAssign : Bool) :
    law.Returns .start .any bound (dot calls left canAssign) :=
  (law.returns_consumeName _).bind fun _ => law.returns_previous.bind fun _ =>
    returns_ifAssigned (below.returns_expression.bind fun _ => law.returns_pure _)
      (law.returns_pure _).to_any

theorem returns_index_ (left : Option AstNode) (canAssign : Bool) :
    law.Returns .start .any bound (index_ calls left canAssign) :=
  law.returns_previous.bind fun _ => below.returns_expression.bind fun _ =>
    (law.returns_consume _ _).bind fun _ =>
      returns_ifAssigned (below.returns_expression.bind fun _ => law.returns_pure _)
        (law.returns_pure _).to_any

theorem returns_initField (fields : List (Token × AstNode)) :
    law.Returns .start .any bound (initField calls fields) :=
  (returns_when (law.returns_errorAtCurrent _)).bind fun _ => (law.returns_consumeName _).bind
    fun _ => law.returns_previous.bind fun _ => (returns_when (law.returns_parseError _)).bind
      fun _ => (law.returns_consume _ _).bind fun _ => below.returns_expression.bind fun _ =>
        law.returns_keepField _ _ _

/-- A round is the last one unless it passes a comma. -/
theorem returns_initFields : law.Returns .start .any bound (initFields calls) := by
  refine returns_ifCheck (law.returns_pure _).to_any (returns_runLoop fun fields p here hp => ?_)
  by_cases brace : p.current.type = .rightBrace
  · exact ⟨fields, false, p, ifCheck_pos brace, law.discipline.refl p, by simp,
      fun _ => places.any here⟩
  · obtain ⟨fields', q, eq, goes, there⟩ := below.returns_initField fields p here hp
    obtain ⟨again, r, eq', goes', further, last⟩ := law.match_goes .comma there
    refine ⟨fields', again, r, ?_, law.discipline.trans goes goes', fun h =>
      ⟨(further h).1.trans_le goes.2.1, (further h).2⟩, fun _ => last⟩
    rw [initRound, ifCheck_neg brace, Discipline.bind_eq eq, Discipline.bind_eq eq']
    rfl

theorem returns_struct_ (left : Option AstNode) :
    law.Returns .start .any bound (struct_ calls left) :=
  (returns_when (law.returns_parseError _)).bind fun _ => below.returns_initFields.bind fun _ =>
    ((law.returns_consume _ _).bind fun _ => law.returns_previous.bind fun _ =>
      law.returns_pure _).to_any

end Below

end KirbyLang.Parsing
