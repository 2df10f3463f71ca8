import KirbyLang.ParserReturns

/-!
# Statements, recovery and the knot

The functions of the parser that leave panic mode, and with them the rest: `parse` returns and obeys
every law. A body in braces goes on as long as it is not at its end, so each of its items must take
a token. An item of a block takes one by itself, and so does a method with a body; a field of a
struct and a signature of a trait that is rejected where it starts takes none, but leaves the parser
panicking there, and recovery takes one.

* `returns_synchronize`, `recover_takes`;
* `Law.keeping`: what does not recover keeps the parser panicking while it takes nothing;
* `consumes_parseBlock`, `structMember_takes`, `implMember_takes`, `traitMember_takes`;
* `parser_below`, `program_returns`.
-/

namespace KirbyLang.Parsing

open Consuming

variable {libc : Libc} {places : Places} {rel : Parser → Parser → Prop} {place place' : Place}
  {bound : ℕ} {calls : Recursion}

/-! ### Recovery -/

namespace RecoveryLaw

open Law

variable (law : RecoveryLaw libc places rel)

theorem leavePanic_goes (p : Parser) : law.discipline.goes p { p with panicMode := false } :=
  ⟨law.leavePanic p, .of_eq rfl rfl⟩

theorem returns_leavePanic :
    law.Returns place place bound (modify fun p => { p with panicMode := false }) :=
  fun p here _ => ⟨(), _, rfl, law.leavePanic_goes p, places.keep here rfl rfl nofun⟩

theorem discardToken_takes :
    law.RoundTakes .failed .failed bound beforeBoundary discardToken := by
  intro u p here _ before
  simp only [beforeBoundary, Bool.and_eq_true, bne_iff_ne, ne_eq] at before
  have next : places.holds .failed p.advance := places.advance_failed here
  exact ⟨((), false), p.advance, rfl, law.advance_goes (places.any here) (.inl here),
    Parser.left_advance_lt before.1.1, fun _ => next, next⟩

theorem returns_synchronize : law.Returns .failed .failed bound synchronize :=
  law.returns_leavePanic.bind fun _ =>
    returns_whileLoop (fun _ _ => rfl) law.discardToken_takes fun _ => id

/-- `synchronize` takes a token or leaves the current one. -/
theorem synchronize_goes {p : Parser} (here : places.holds .failed p) :
    ∃ q, synchronize p = some ((), q) ∧ law.discipline.goes p q ∧ places.holds .failed q ∧
      (q.left < p.left ∨ q.current = p.current) := by
  let start : Parser := { p with panicMode := false }
  have here' : places.holds .failed start := places.keep here rfl rfl nofun
  have first : synchronize p = whileLoop .synchronize beforeBoundary discardToken () start := rfl
  by_cases before : beforeBoundary start = true
  · obtain ⟨_, q, eq, ⟨goes, less⟩, there⟩ := whileLoop_takes (fun _ _ => rfl)
      law.discardToken_takes here' (Nat.lt_succ_self start.left) before
    exact ⟨q, first.trans eq, law.discipline.trans (law.leavePanic_goes p) goes, there, .inl less⟩
  · exact ⟨start, first.trans (branch_neg before), law.leavePanic_goes p, here', .inr rfl⟩

/-- The parser only panics after an error. -/
theorem returns_ifPanicking {m : Parse Unit} (h : law.Returns .failed .failed bound m) :
    law.Returns place place bound (branch (·.panicMode) m (pure ())) := by
  intro p here hp
  by_cases panic : p.panicMode = true
  · obtain ⟨a, q, eq, goes, there⟩ := h p (places.panic (places.any here) panic) hp
    exact ⟨a, q, (branch_pos panic).trans eq, goes, places.of_failed there⟩
  · exact ⟨(), p, branch_neg panic, law.discipline.refl p, here⟩

theorem returns_synchronizeIfPanicking : law.Returns place place bound synchronizeIfPanicking :=
  law.returns_ifPanicking law.returns_synchronize

theorem returns_recoverInBraceBody : law.Returns place place bound recoverInBraceBody :=
  law.returns_ifPanicking (law.returns_current.bind fun _ => law.returns_synchronize.bind fun _ =>
    returns_branch (law.consumes_advance.returns.bind fun _ => law.returns_synchronize)
      (law.returns_pure _))

/-- Inside a body, recovery takes a token. -/
theorem recover_takes {p : Parser} (here : places.holds place p) (panic : p.panicMode = true)
    (inside : inBody p = true) :
    ∃ q, recoverInBraceBody p = some ((), q) ∧ law.discipline.goes p q ∧
      places.holds .failed q ∧ q.left < p.left := by
  obtain ⟨q, eq, goes, there, moved⟩ :=
    law.synchronize_goes (places.panic (places.any here) panic)
  have run : recoverInBraceBody p = branch (fun r => r.current.type != .eof &&
      r.current.type != .rightBrace && r.current.start == p.current.start)
      (do advance; synchronize) (pure ()) q := by
    rw [recoverInBraceBody, branch_pos panic,
      Discipline.bind_eq (show current p = some (p.current, p) from rfl), Discipline.bind_eq eq]
  by_cases again : (q.current.type != .eof && q.current.type != .rightBrace &&
      q.current.start == p.current.start) = true
  · have token : q.current.type ≠ .eof := by
      simp only [Bool.and_eq_true, bne_iff_ne, ne_eq] at again
      exact again.1.1
    have less := Parser.left_advance_lt token
    have passed := law.advance_goes (places.any there) (.inl there)
    obtain ⟨r, eq', goes', there', -⟩ := law.synchronize_goes (places.advance_failed there)
    exact ⟨r, (run.trans (branch_pos again)).trans eq',
      law.discipline.trans goes (law.discipline.trans passed goes'), there',
      (goes'.2.1.trans_lt less).trans_le goes.2.1⟩
  · refine ⟨q, run.trans (branch_neg again), goes, there, ?_⟩
    rcases moved with less | same
    · exact less
    · rw [same] at again
      simp [inBody] at again inside
      tauto

end RecoveryLaw

/-! ### Items of a body -/

theorem token_of_inBody {p : Parser} (inside : inBody p = true) : p.current.type ≠ .eof := by
  simp only [inBody, Bool.and_eq_true, bne_iff_ne, ne_eq] at inside
  exact inside.2

section Attempts

variable {α β : Type}

/-- An item of a body takes a token or leaves the parser panicking where it is. -/
def Law.Attempts (law : Law libc places rel) (bound : ℕ) (m : Parse α) : Prop :=
  ∀ p, places.holds .start p → p.left < bound → inBody p = true → ∃ a q, m p = some (a, q) ∧
    law.discipline.goes p q ∧ places.holds .start q ∧
    (q.left < p.left ∨ q.current = p.current ∧ q.panicMode = true)

variable {law : Law libc places rel}

theorem Law.Consumes.attempts {m : Parse α} (h : law.Consumes .start .start bound m) :
    law.Attempts bound m := by
  intro p here hp inside
  obtain ⟨a, q, eq, goes, there, less⟩ := h.takes here hp (token_of_inBody inside)
  exact ⟨a, q, eq, goes, there, .inl less⟩

theorem Law.Attempts.map {m : Parse α} (h : law.Attempts bound m) (f : α → β) :
    law.Attempts bound (do return f (← m)) := by
  intro p here hp inside
  obtain ⟨a, q, eq, rest⟩ := h p here hp inside
  exact ⟨f a, q, Discipline.bind_eq eq, rest⟩

theorem Law.attempts_errorAtCurrent (message : String) :
    law.Attempts bound (errorAtCurrent message) := fun p here _ _ =>
  ⟨(), p.errorAt p.current (ascii message), rfl, law.errorAt_goes _ _ _,
    places.error (places.any here) _ _, .inr ⟨by simp, p.panicMode_errorAt _ _⟩⟩

theorem Law.attempts_ifCheck {type : TokenType} {yes no : Parse α} (hyes : law.Attempts bound yes)
    (hno : law.Attempts bound no) : law.Attempts bound (ifCheck type yes no) := by
  intro p here hp inside
  by_cases same : p.current.type = type
  · rw [ifCheck_pos same]
    exact hyes p here hp inside
  · rw [ifCheck_neg same]
    exact hno p here hp inside

/-- After a token that is taken, it does not matter whether more is. -/
theorem Law.attempts_ifMatch {type : TokenType} {yes no : Parse α}
    (hyes : law.Returns .start .start bound yes) (hno : law.Attempts bound no)
    [Holds (isPlain type)] : law.Attempts bound (ifMatch type yes no) := by
  intro p here hp inside
  by_cases same : p.current.type = type
  · obtain ⟨a, q, eq, goes, there, less⟩ :=
      Law.afterPlain hyes here (hp.trans (Nat.lt_succ_self _)) (same ▸ Holds.plain)
    exact ⟨a, q, (ifMatch_pos same).trans eq, goes, there, .inl less⟩
  · rw [ifMatch_neg same]
    exact hno p here hp inside

theorem Law.attempts_match {type : TokenType} {f : Bool → Parse α}
    (hyes : law.Returns .start .start bound (f true)) (hno : law.Attempts bound (f false))
    [Holds (isPlain type)] : law.Attempts bound (do f (← match_ type)) := by
  intro p here hp inside
  by_cases same : p.current.type = type
  · rw [Discipline.bind_eq (ifMatch_pos same)]
    obtain ⟨a, q, eq, goes, there, less⟩ :=
      Law.afterPlain hyes here (hp.trans (Nat.lt_succ_self _)) (same ▸ Holds.plain)
    exact ⟨a, q, eq, goes, there, .inl less⟩
  · rw [Discipline.bind_eq (ifMatch_neg same)]
    exact hno p here hp inside

end Attempts

/-- With recovery after it, an item of a body takes a token. -/
theorem RecoveryLaw.bodyRound_takes (law : RecoveryLaw libc places rel) {σ : Type}
    {item : σ → Parse σ} (h : ∀ state, law.Attempts bound (item state)) :
    law.RoundTakes .start .start bound inBody (bodyRound item) := by
  intro state p here hp inside
  obtain ⟨state', q, eq, goes, there, done⟩ := h state p here hp inside
  have recovered : ∃ r, recoverInBraceBody q = some ((), r) ∧ law.discipline.goes p r ∧
      places.holds .start r ∧ r.left < p.left := by
    rcases done with less | ⟨same, panic⟩
    · obtain ⟨_, r, eq', goes', there'⟩ :=
        law.returns_recoverInBraceBody q there (Nat.lt_succ_self _)
      exact ⟨r, eq', law.discipline.trans goes goes', there', goes'.2.1.trans_lt less⟩
    · obtain ⟨r, eq', goes', there', less⟩ := law.recover_takes there panic
        (show inBody q = true by rw [inBody, same]; exact inside)
      exact ⟨r, eq', law.discipline.trans goes goes', places.of_failed there',
        less.trans_le goes.2.1⟩
  obtain ⟨r, eq', goes', there', less⟩ := recovered
  refine ⟨(state', false), r, ?_, goes', less, fun _ => there', there'⟩
  rw [bodyRound, Discipline.bind_eq eq, Discipline.bind_eq eq']
  rfl

/-! ### What does not recover -/

/-- While nothing is taken, the current token stays and so does panic mode. -/
def Keeps (p q : Parser) : Prop :=
  Takes p q ∧ (q.left < p.left ∨ p.current.type = .eof ∨
    q.current = p.current ∧ (p.panicMode = true → q.panicMode = true))

namespace Keeps

theorem of_eq {p q : Parser} (left : q.left = p.left) (current : q.current = p.current)
    (panic : p.panicMode = true → q.panicMode = true) : Keeps p q :=
  ⟨.of_eq left current, .inr (.inr ⟨current, panic⟩)⟩

theorem trans {p q r : Parser} (h : Keeps p q) (h' : Keeps q r) : Keeps p r := by
  refine ⟨h.1.trans h'.1, ?_⟩
  rcases h.2 with less | eof | ⟨same, panic⟩
  · exact .inl (h'.1.1.trans_lt less)
  · exact .inr (.inl eof)
  · rcases h'.2 with less | eof | ⟨same', panic'⟩
    · exact .inl (less.trans_le h.1.1)
    · exact .inr (.inl (same ▸ eof))
    · exact .inr (.inr ⟨same'.trans same, panic' ∘ panic⟩)

theorem advance (p : Parser) : Keeps p p.advance := by
  refine ⟨.advance p, ?_⟩
  by_cases eof : p.current.type = .eof
  · exact .inr (.inl eof)
  · exact .inl (Parser.left_advance_lt eof)

theorem errorAt (p : Parser) (token : SourceToken) (message : Bytes) :
    Keeps p (p.errorAt token message) :=
  of_eq (by simp) (by simp) fun _ => p.panicMode_errorAt token message

theorem reports {p q : Parser} (h : Reports p q) : Keeps p q :=
  of_eq h.keeps.1 h.keeps.2.1 h.keeps.2.2.2.2

end Keeps

/-- A law together with keeping panic mode is a law. -/
theorem Law.keeping (law : Law libc places rel) :
    Law libc places fun p q => rel p q ∧ Keeps p q where
  refl p := ⟨law.refl p, .of_eq rfl rfl id⟩
  trans h h' := ⟨law.trans h.1 h'.1, h.2.trans h'.2⟩
  failed h := law.failed h.1
  advance here passes := ⟨law.advance here passes, .advance _⟩
  reject token message here :=
    ⟨law.reject token message here, (Keeps.advance _).trans (.errorAt _ _ _)⟩
  text here form eq := ⟨law.text here form eq,
    (Keeps.advance _).trans (.reports (reports_of_stringChars eq))⟩
  errorAt p token message := ⟨law.errorAt p token message, .errorAt p token message⟩
  depth p depth := ⟨law.depth p depth, .of_eq rfl rfl id⟩
  round p kind _ _ _ h := ⟨law.round p kind h, .of_eq rfl rfl id⟩
  list h := by
    refine ⟨law.list (h.imp fun _ _ => And.left), ?_⟩
    exact ((h.imp fun _ _ => And.right).rel_of (fun _ => .of_eq rfl rfl id) .trans
      fun _ _ _ => .of_eq rfl rfl id).trans (.of_eq rfl rfl id)
  field p _ h := ⟨law.field p h, .of_eq rfl rfl id⟩
  number {p _ _} isNumber h := by
    refine ⟨law.number isNumber h, ?_⟩
    obtain ⟨literal, r, eq, rfl, -⟩ := number_eq_some h
    rcases numberLiteral_eq_some eq with rfl | ⟨message, rfl⟩
    · exact .of_eq rfl rfl id
    · exact .errorAt p _ message

/-! ### Functions -/

namespace Law

variable (law : Law libc places rel)

/-- A statement does not end with a number. -/
theorem returns_finishExpressionStatement (expr : Option AstNode) (line : ℤ) :
    law.Returns .any .start bound (finishExpressionStatement expr line) := by
  have ended : law.Returns .start .start bound (ifMatch .semicolon (pure ()) (pure ())) :=
    returns_ifMatch (law.returns_pure _) (law.returns_pure _)
  have open_ : law.Returns .any .start bound
      (ifMatch .semicolon (pure ()) (parseError "Expect ';' after expression.")) :=
    returns_ifMatch (law.returns_pure _) (law.returns_parseError _).to
  have both : law.Returns .any .start bound
      (branch (fun p => p.previous.type == .rightBrace || p.previous.type == .semicolon)
        (ifMatch .semicolon (pure ()) (pure ()))
        (ifMatch .semicolon (pure ()) (parseError "Expect ';' after expression."))) := by
    intro p here hp
    by_cases closed : (p.previous.type == .rightBrace || p.previous.type == .semicolon) = true
    · have start : places.holds .start p := by
        refine places.start here fun isNumber => ?_
        rcases List.mem_pair.mp isNumber with eq | eq <;> simp [eq] at closed
      obtain ⟨a, q, eq, rest⟩ := ended p start hp
      exact ⟨a, q, (branch_pos closed).trans eq, rest⟩
    · obtain ⟨a, q, eq, rest⟩ := open_ p here hp
      exact ⟨a, q, (branch_neg closed).trans eq, rest⟩
  exact both.bind fun _ => law.returns_pure _

theorem returns_breakStatement : law.Returns place .start bound breakStatement :=
  law.returns_previous.bind fun _ => (law.returns_consume _ _).bind fun _ => law.returns_pure _

theorem returns_continueStatement : law.Returns place .start bound continueStatement :=
  law.returns_previous.bind fun _ => (law.returns_consume _ _).bind fun _ => law.returns_pure _

theorem returns_parameterName (count : ℕ) :
    law.Returns .start .start bound (parameterName count) :=
  (returns_when (law.returns_errorAtCurrent _)).bind fun _ =>
    (returns_ifCheck (law.returns_errorAtCurrent _).to (law.returns_pure _)).bind fun _ =>
      (law.returns_consumeDeclarationIdentifier _).bind fun _ => law.returns_previous

/-- The type of a parameter is put in its buffer twice if there is one. -/
theorem readsItem_parameter : law.ReadsItem .params bound parameter := by
  intro params p here hp
  obtain ⟨name, q, eq, goes, there⟩ := law.returns_parameterName params.length p here hp
  let named := (q.emit (.write .params params.length)).emit (.write .paramTypes params.length)
  have there' : places.holds .start named := places.emit (places.emit there _) _
  have takes : Takes p named := goes.2.trans (.of_eq rfl rfl)
  have read : ∀ start, ReadsList rel .params start params.length p →
      ReadsList rel .params start (params.length + 1) named :=
    fun start before => (before.goes goes.1).put
  have run : parameter params p = ifMatch .colon
      (do
        let type ← parseType
        emit (.write .paramTypes params.length)
        return params ++ [(name.toToken, some type)])
      (return params ++ [(name.toToken, none)]) named := by
    rw [parameter, Discipline.bind_eq eq]
    rfl
  by_cases colon : named.current.type = .colon
  · obtain ⟨passed, next, less⟩ := law.pass_plain there' (by rw [colon]; decide)
    obtain ⟨type, r, eq', goes', last⟩ := law.returns_parseType named.advance next less
    have typed := law.discipline.trans passed goes'
    refine ⟨params ++ [(name.toToken, some type)], r.emit (.write .paramTypes params.length), ?_,
      takes.trans (typed.2.trans (.of_eq rfl rfl)), places.any (places.emit last _),
      fun start before => ?_⟩
    · rw [run, ifMatch_pos colon, Discipline.bind_eq eq']
      rfl
    · rw [List.length_append]
      exact ((read start before).goes typed.1).again (by simp [ItemList.buffers])
  · refine ⟨_, named, run.trans (ifMatch_neg colon), takes, places.any there',
      fun start before => ?_⟩
    rw [List.length_append]
    exact read start before

theorem returns_selfParameter (isMethod : Bool) :
    law.Returns .start .start bound (selfParameter isMethod) := by
  intro p here hp
  by_cases same : p.current.type = .self_
  · have reported : ∃ q, when (!isMethod) (errorAtCurrent
        "Only methods in an 'impl' block can declare a 'self' parameter.") p = some ((), q) ∧
        Reports p q := by
      cases isMethod with
      | true => exact ⟨p, rfl, .none p⟩
      | false => exact ⟨_, rfl, .error (.none _)⟩
    obtain ⟨q, eq, reports⟩ := reported
    obtain ⟨_, q', eq', goes, there⟩ := returns_when (law.returns_errorAtCurrent
      "Only methods in an 'impl' block can declare a 'self' parameter.") p here hp
    obtain rfl : q = q' := by simpa using eq.symm.trans eq'
    obtain ⟨passed, next, -⟩ := law.pass_plain there (by rw [reports.keeps.2.1, same]; decide)
    refine ⟨true, q.advance, ?_, law.discipline.trans goes passed, next⟩
    rw [selfParameter, ifCheck_pos same, Discipline.bind_eq eq]
    rfl
  · exact ⟨false, p, ifCheck_neg same, law.discipline.refl p, here⟩

theorem returns_functionHead (isMethod : Bool) :
    law.Returns place .start bound (functionHead isMethod) := by
  have list : law.Returns .start .any bound (itemLoop .params .parameters parameter) :=
    returns_itemLoop law.readsItem_parameter
  exact (law.returns_consume _ _).bind fun _ => (law.returns_selfParameter _).bind fun _ =>
    (returns_ifCheck (law.returns_pure _).to_any (Discipline.Returns.ite
      (returns_ifMatch list (law.returns_pure _).to_any) list)).bind fun _ =>
        (law.returns_consume _ _).bind fun _ => law.returns_parseTypeAnnotation.bind fun _ =>
          law.returns_pure _

theorem returns_functionSignature (name : SourceToken) :
    law.Returns place .start bound (functionSignature name) :=
  (law.returns_functionHead _).bind fun _ => (law.returns_consume _ _).bind fun _ =>
    law.returns_previous.bind fun _ => law.returns_pure _

/-- A signature in a trait after its `fun`. -/
theorem returns_signature (methods : List AstNode) : law.Returns .start .start bound (do
    consumeDeclarationIdentifier "Expect method name."
    let methodName ← previous
    return methods ++ [(← functionSignature methodName).toNode]) :=
  (law.returns_consumeDeclarationIdentifier _).bind fun _ => law.returns_previous.bind fun _ =>
    (law.returns_functionSignature _).bind fun _ => law.returns_pure _

theorem readsItem_genericParam : law.ReadsItem .genericParams bound genericParam :=
  readsItem_readItem rfl _ fun _ => ((returns_when (law.returns_errorAtCurrent _)).bind fun _ =>
    (law.returns_consumeDeclarationIdentifier _).bind fun _ => law.returns_previous).to_any

theorem returns_parseGenericParamList : law.Returns .start .start bound parseGenericParamList :=
  returns_ifMatch ((returns_itemLoop law.readsItem_genericParam).bind fun _ =>
    (law.returns_consume _ _).bind fun _ => law.returns_pure _) (law.returns_pure _)

end Law

/-! ### Blocks -/

/-- An item with recovery after it. -/
theorem RecoveryLaw.synchronized (law : RecoveryLaw libc places rel) {α β : Type} {m : Parse α}
    {p q : Parser} {a : α} (eq : m p = some (a, q)) (there : places.holds place q) (f : α → β) :
    ∃ r, (do
        let a ← m
        synchronizeIfPanicking
        return f a) p = some (f a, r) ∧ law.discipline.goes q r ∧ places.holds place r := by
  obtain ⟨_, r, eq', goes, there'⟩ :=
    law.returns_synchronizeIfPanicking q there (Nat.lt_succ_self q.left)
  refine ⟨r, ?_, goes, there'⟩
  rw [Discipline.bind_eq eq, Discipline.bind_eq eq']
  rfl

/-- The loop over a body and its closing brace. -/
theorem Law.consumes_body (law : Law libc places rel) {σ β : Type} {kind : LoopKind}
    {body : σ → Parse (σ × Bool)} {state : σ} {message : String} {f : σ → Parse β}
    (hbody : law.RoundTakes .start place bound inBody body)
    (hf : ∀ state, law.Returns .start place' bound (f state)) :
    law.Consumes .start place' bound (do
      let state ← whileLoop kind inBody body state
      consume .rightBrace message
      f state) := by
  have rest : ∀ place state, law.Returns place place' bound (do
      consume .rightBrace message
      f state) :=
    fun place state => (law.returns_consume _ _).bind fun _ => hf state
  intro p here hp
  by_cases inside : inBody p = true
  · obtain ⟨state', q, eq, ⟨goes, less⟩, there⟩ :=
      whileLoop_takes (fun _ _ => rfl) hbody here hp inside
    obtain ⟨b, r, eq', goes', last⟩ := rest place state' q there (less.trans hp)
    exact ⟨b, r, (Discipline.bind_eq eq).trans eq', law.discipline.trans goes goes', last,
      .inl (goes'.2.1.trans_lt less)⟩
  · have first : whileLoop kind inBody body state p = some (state, p) := branch_neg inside
    rw [Discipline.bind_eq first]
    by_cases eof : p.current.type = .eof
    · obtain ⟨b, r, eq, goes, last⟩ := rest .start state p here hp
      exact ⟨b, r, eq, goes, last, .inr eof⟩
    · have brace : p.current.type = .rightBrace := by simpa [inBody, eof] using inside
      obtain ⟨passed, next, less⟩ := law.pass_plain here (by rw [brace]; decide)
      obtain ⟨b, r, eq, goes, last⟩ := hf state p.advance next (less.trans hp)
      exact ⟨b, r, (Discipline.bind_eq (ifCheck_pos brace)).trans eq,
        law.discipline.trans passed goes, last, .inl (goes.2.1.trans_lt less)⟩

namespace Below

open Law

variable (law : RecoveryLaw libc places rel) (below : Below law.toLaw bound calls)

include below

/-- The value of a block ends the block, whatever is behind the parser. -/
theorem blockItem_takes : law.RoundTakes .start .any bound inBody (blockItem calls) := by
  intro items p here hp inside
  by_cases starts : isExpressionStart p = true
  · obtain ⟨expr, q, eq, goes, there, less⟩ :=
      below.statementExpression.takes here hp (token_of_inBody inside)
    have first : blockItem calls items p = ifCheck .rightBrace (return ((items.1, expr), true)) (do
        let node ← finishExpressionStatement expr p.current.line
        synchronizeIfPanicking
        return ((items.1 ++ [node], none), false)) q := by
      rw [blockItem, branch_pos starts,
        Discipline.bind_eq (show current p = some (p.current, p) from rfl), Discipline.bind_eq eq]
    by_cases brace : q.current.type = .rightBrace
    · exact ⟨((items.1, expr), true), q, first.trans (ifCheck_pos brace), goes, less, by simp, there⟩
    · obtain ⟨node, r, eq', goes', there'⟩ := law.returns_finishExpressionStatement expr
        p.current.line q there (less.trans hp)
      obtain ⟨t, eq'', goes'', there''⟩ :=
        law.synchronized eq' there' fun node => ((items.1 ++ [node], (none : Option AstNode)), false)
      exact ⟨_, t, (first.trans (ifCheck_neg brace)).trans eq'',
        law.discipline.trans goes (law.discipline.trans goes' goes''),
        (goes''.2.1.trans goes'.2.1).trans_lt less, fun _ => there'', places.any there''⟩
  · obtain ⟨node, q, eq, goes, there, less⟩ :=
      below.declaration.takes here hp (token_of_inBody inside)
    obtain ⟨r, eq', goes', there'⟩ :=
      law.synchronized eq there fun node => ((items.1 ++ [node], (none : Option AstNode)), false)
    exact ⟨_, r, (branch_neg starts).trans eq', law.discipline.trans goes goes',
      goes'.2.1.trans_lt less, fun _ => there', places.any there'⟩

theorem consumes_parseBlock : law.Consumes .start .start bound (parseBlock calls) :=
  (law.returns_setDepth _).bind_consumes fun _ =>
    law.consumes_body (below.blockItem_takes law) fun _ =>
      law.returns_previous.bind fun _ => (law.returns_setDepth _).bind fun _ => law.returns_pure _

theorem returns_blockExpr : law.Returns .start .start bound (blockExpr calls) :=
  law.returns_previous.bind fun _ => (below.consumes_parseBlock law).returns.bind fun _ =>
    law.returns_pure _

theorem consumes_functionBody (isLambda : Bool) (fn : FunctionNode) :
    law.Consumes .start .start bound (functionBody calls isLambda fn) := by
  have expression_ : law.Returns .start .start bound (do
      let exprBody ← expression calls
      consume .semicolon "Expect ';' after function body expression."
      return { fn with exprBody, info.bodyEndLine := (← previous).line }) :=
    below.returns_expression.bind fun _ => (law.returns_consume _ _).bind fun _ =>
      law.returns_previous.bind fun _ => law.returns_pure _
  have block : law.Consumes .start .start bound (do
      consume .leftBrace "Expect '\x7b' before function body."
      let body ← parseBlock calls
      return { fn with
        stmts := body.stmts
        value := body.value
        info.bodyEndLine := body.endLine }) :=
    (law.returns_consume _ _).bind_consumes fun _ => (below.consumes_parseBlock law).bind fun _ =>
      law.returns_pure _
  intro p here hp
  by_cases assigned : (!isLambda && p.current.type == .equal) = true
  · have plain : Plain p.current.type := by
      rw [Bool.and_eq_true, beq_iff_eq] at assigned
      rw [assigned.2]
      decide
    obtain ⟨a, q, eq, goes, there, less⟩ :=
      afterPlain expression_ here (hp.trans (Nat.lt_succ_self bound)) plain
    exact ⟨a, q, (branch_pos assigned).trans eq, goes, there, .inl less⟩
  · obtain ⟨a, q, eq, rest⟩ := block p here hp
    exact ⟨a, q, (branch_neg assigned).trans eq, rest⟩

theorem consumes_functionTail (name : SourceToken) (isMethod isLambda : Bool) :
    law.Consumes place .start bound (functionTail calls name isMethod isLambda) :=
  (law.returns_functionHead _).bind_consumes fun _ => below.consumes_functionBody law _ _

theorem consumes_methodDeclaration (isMethod : Bool) :
    law.Consumes .start .start bound (methodDeclaration calls isMethod) :=
  law.returns_previous.bind_consumes fun _ => law.returns_parseGenericParamList.bind_consumes
    fun _ => (below.consumes_functionTail law _ _ _).bind fun _ => law.returns_pure _

theorem returns_functionDeclaration :
    law.Returns .start .start bound (functionDeclaration calls) :=
  (law.returns_consumeDeclarationIdentifier _).bind fun _ =>
    (below.consumes_methodDeclaration law _).returns.bind fun _ => law.returns_pure _

theorem returns_lambda : law.Returns place .start bound (lambda calls) :=
  law.returns_previous.bind fun _ => (below.consumes_functionTail law _ _ _).returns.bind fun _ =>
    law.returns_pure _

/-! ### Statements -/

theorem returns_returnStatement : law.Returns .start .start bound (returnStatement calls) :=
  law.returns_previous.bind fun _ => (returns_ifCheck (law.returns_pure _).to_any
    below.returns_expression).bind fun _ => (law.returns_consume _ _).bind fun _ =>
      law.returns_pure _

theorem returns_varDeclaration (isMutable : Bool) :
    law.Returns .start .start bound (varDeclaration calls isMutable) :=
  (law.returns_consumeDeclarationIdentifier _).bind fun _ => law.returns_previous.bind fun _ =>
    law.returns_parseTypeAnnotation.bind fun _ => (returns_ifMatch below.returns_expression
      (law.returns_pure _).to_any).bind fun _ => (returns_when (law.returns_parseError _)).bind
        fun _ => (law.returns_consume _ _).bind fun _ => law.returns_previous.bind fun _ =>
          law.returns_pure _

theorem consumes_expressionStatement :
    law.Consumes .start .start bound (expressionStatement calls) :=
  law.returns_current.bind_consumes fun _ => below.statementExpression.bind fun _ =>
    law.returns_finishExpressionStatement _ _

theorem returns_whileStatement : law.Returns place .start bound (whileStatement calls) :=
  law.returns_previous.bind fun _ => (law.returns_consume _ _).bind fun _ =>
    below.returns_expression.bind fun _ => (law.returns_consume _ _).bind fun _ =>
      below.statement.returns.bind fun _ => law.returns_pure _

theorem returns_forInit : law.Returns .start .start bound (forInit calls) :=
  returns_ifMatch (law.returns_pure _) <|
    returns_ifMatch ((below.returns_varDeclaration law _).bind fun _ => law.returns_pure _) <|
      returns_ifMatch ((below.returns_varDeclaration law _).bind fun _ => law.returns_pure _) <|
        (below.consumes_expressionStatement law).returns.bind fun _ => law.returns_pure _

theorem returns_forStatement : law.Returns place .start bound (forStatement calls) :=
  law.returns_previous.bind fun _ => (law.returns_consume _ _).bind fun _ =>
    (below.returns_forInit law).bind fun _ => (returns_ifCheck (law.returns_pure _).to_any
      below.returns_expression).bind fun _ => (law.returns_consume _ _).bind fun _ =>
        (returns_ifCheck (law.returns_pure _).to_any below.returns_expression).bind fun _ =>
          (law.returns_consume _ _).bind fun _ => below.statement.returns.bind fun _ =>
            law.returns_pure _

theorem consumes_statement (expr : law.Consumes .start .any (bound + 1) calls.statementExpression) :
    law.Consumes .start .start (bound + 1) (Parsing.statement calls) :=
  consumes_ifMatch (below.returns_whileStatement law) <|
    consumes_ifMatch (below.returns_forStatement law) <|
      consumes_ifMatch (below.returns_returnStatement law) <|
        consumes_ifMatch law.returns_breakStatement <|
          consumes_ifMatch law.returns_continueStatement <|
            law.returns_current.bind_consumes fun _ => expr.bind fun _ =>
              law.returns_finishExpressionStatement _ _

theorem returns_ifBranch : law.Returns .start .any bound (ifBranch calls) := by
  have semicolon : law.Returns .any .any bound (branch
      (fun p => p.current.type == .semicolon && p.peek.type == .else_) advance (pure ())) :=
    returns_branch_advance (fun p h => by
      rw [Bool.and_eq_true, beq_iff_eq] at h
      rw [h.1]
      decide) (law.returns_pure _).to_any (law.returns_pure _)
  exact returns_ifMatch ((below.returns_returnStatement law).bind fun _ =>
      law.returns_pure _).to_any <|
    returns_ifMatch (law.returns_breakStatement.bind fun _ => law.returns_pure _).to_any <|
      returns_ifMatch (law.returns_continueStatement.bind fun _ => law.returns_pure _).to_any <|
        returns_ifMatch ((below.returns_whileStatement law).bind fun _ =>
            law.returns_pure _).to_any <|
          returns_ifMatch ((below.returns_forStatement law).bind fun _ =>
              law.returns_pure _).to_any <|
            below.returns_expression.bind fun _ => semicolon.bind fun _ => law.returns_pure _

theorem returns_ifExpr : law.Returns place .any bound (ifExpr calls) :=
  law.returns_previous.bind fun _ => (law.returns_consume _ _).bind fun _ =>
    below.returns_expression.bind fun _ => (law.returns_consume _ _).bind fun _ =>
      (below.returns_ifBranch law).bind fun _ => (returns_ifMatch (below.returns_ifBranch law)
        (law.returns_pure _)).bind fun _ => law.returns_pure _

theorem consumes_statementExpression
    (expr : law.Consumes .start .any (bound + 1) (calls.parsePrecedence .assignment)) :
    law.Consumes .start .any (bound + 1) (Parsing.statementExpression calls) :=
  consumes_ifMatch ((below.returns_ifExpr law).bind fun _ => law.returns_pure _) <|
    consumes_ifMatch ((below.returns_blockExpr law).bind fun _ => law.returns_pure _).to_any expr

/-! ### Precedence climbing -/

/-- The prefix functions that read a number or a text from its token. -/
def readFns : List PrefixFn := [.string, .number, .interpString, .interpolation]

/-- The other prefix functions. -/
theorem returns_runPrefix (canAssign : Bool) {prefixFn : PrefixFn} (other : prefixFn ∉ readFns) :
    law.Returns .start .any bound (runPrefix libc calls canAssign prefixFn) := by
  cases prefixFn with
  | grouping => exact below.returns_grouping
  | blockExpr => exact (below.returns_blockExpr law).to_any
  | arrayLiteral => exact below.returns_arrayLiteral
  | unary => exact below.returns_unary
  | variable_ => exact below.returns_variable_ canAssign
  | literal => exact (law.returns_previous.bind fun _ => law.returns_pure _).to_any
  | lambda => exact (below.returns_lambda law).to_any
  | ifExpr => exact below.returns_ifExpr law
  | self_ => exact (law.returns_previous.bind fun _ => law.returns_pure _).to_any
  | _ => exact absurd (by decide) other

omit below in
/-- The tokens of the prefix functions. -/
theorem rules_prefix {type : TokenType} {prefixFn : PrefixFn}
    (rule : (rules type).prefixRule = some prefixFn) :
    type ≠ .eof ∧ (prefixFn ∉ readFns → textForm type = none ∧ type ∉ numberTypes) ∧
      (prefixFn = .string → textForm type = some (1, false)) ∧
      (prefixFn = .number → textForm type = none ∧ type ∈ numberTypes) ∧
      (prefixFn = .interpString → textForm type = some (2, true)) ∧
      (prefixFn = .interpolation → type = .interpStart) := by
  cases type <;> simp [rules] at rule <;> subst rule <;>
    simp [readFns, textForm, numberTypes]

/-- The first token of an expression with what its prefix function reads. -/
theorem prefix_goes (canAssign : Bool) {prefixFn : PrefixFn} {p : Parser}
    (here : places.holds .start p) (hp : p.left < bound + 1)
    (rule : (rules p.current.type).prefixRule = some prefixFn) :
    ∃ node q, runPrefix libc calls canAssign prefixFn p.advance = some (node, q) ∧
      law.discipline.goes p q ∧ places.holds .any q ∧ q.left < p.left := by
  obtain ⟨notEnd, other, string, number, interpString, interpolation⟩ := rules_prefix rule
  have less := Parser.left_advance_lt notEnd
  by_cases reads : prefixFn ∈ readFns
  · have text : ∀ {skip : ℕ} {isInterp : Bool},
        textForm p.current.type = some (skip, isInterp) → ∃ node q, (do
          stringLiteral (inner (← previous) skip 1) isInterp) p.advance = some (node, q) ∧
            law.discipline.goes p q ∧ places.holds .any q ∧ q.left < p.left := by
      intro skip isInterp form
      obtain ⟨decoded, q, eq, goes, there, less⟩ := law.text_goes (places.any here) form
      refine ⟨.literal p.advance.previous.line (.string decoded), q, ?_, goes, places.any there,
        less⟩
      rw [Discipline.bind_eq (show previous p.advance = some (p.advance.previous, _) from rfl),
        Parser.previous_advance]
      exact (stringLiteral_eq eq).trans (by rw [Parser.previous_advance])
    cases prefixFn with
    | string => exact text (string rfl)
    | interpString => exact text (interpString rfl)
    | interpolation =>
      exact below.interpolation_goes (places.any here) hp (interpolation rfl)
    | number =>
      obtain ⟨plain, isNumber⟩ := number rfl
      have passed := law.advance_goes (places.any here) (.inr ⟨plain, fun _ => here⟩)
      obtain ⟨node, q, eq, goes, there⟩ := law.number_goes (places.advance (places.any here))
        (by rwa [Parser.previous_advance])
      exact ⟨node, q, eq, law.discipline.trans passed goes, there, goes.2.1.trans_lt less⟩
    | _ => exact absurd reads (by decide)
  · obtain ⟨plain, notNumber⟩ := other reads
    have passed := law.advance_goes (places.any here) (.inr ⟨plain, fun _ => here⟩)
    obtain ⟨node, q, eq, goes, there⟩ := below.returns_runPrefix law canAssign reads p.advance
      (places.advance_start (places.any here) notNumber) (less.trans_le (Nat.lt_succ_iff.mp hp))
    exact ⟨node, q, eq, law.discipline.trans passed goes, there, goes.2.1.trans_lt less⟩

theorem returns_runInfix (left : Option AstNode) (canAssign : Bool) (infixFn : InfixFn) :
    law.Returns .start .any bound (runInfix calls left canAssign infixFn) := by
  have some_ : ∀ {m : Parse AstNode}, law.Returns .start .any bound m →
      law.Returns .start .any bound (do return some (← m)) :=
    fun h => h.bind fun _ => law.returns_pure _
  cases infixFn with
  | call => exact some_ (below.returns_call left)
  | struct_ => exact below.returns_struct_ left
  | index => exact some_ (below.returns_index_ left canAssign)
  | dot => exact some_ (below.returns_dot left canAssign)
  | binary => exact some_ (below.returns_binary left)
  | and_ => exact some_ (below.returns_logical (by decide) _)
  | or_ => exact some_ (below.returns_logical (by decide) _)
  | nullish => exact some_ (below.returns_logical (by decide) _)
  | cast =>
    exact some_ (law.returns_previous.bind fun _ => law.returns_parseType.bind fun _ =>
      law.returns_pure _).to_any

omit below in
theorem infixRound_eq {p q : Parser} {infixFn : InfixFn} {canAssign : Bool}
    {left node : Option AstNode} (rule : (rules p.current.type).infixRule = some infixFn)
    (run : runInfix calls left canAssign infixFn p.advance = some (node, q)) :
    infixRound calls canAssign left p = some ((node, false), q) := by
  have start : infixRound calls canAssign left p = (do
      return (← runInfix calls left canAssign infixFn, false) : Parse _) p.advance := by
    rw [infixRound, Discipline.bind_eq (show Parsing.advance p = some ((), p.advance) from rfl),
      Discipline.bind_eq (show previous p.advance = some (p.advance.previous, _) from rfl),
      Parser.previous_advance, rule]
  rw [start, Discipline.bind_eq run]
  rfl

omit below in
theorem plain_of_operator {type : TokenType} (h : (rules type).precedence ≠ .none) :
    Plain type := by
  cases type <;> first | decide | exact absurd rfl h

/-- A round takes the operator. -/
theorem infixRound_takes {precedence : Precedence} (h : precedence ≠ .none) (canAssign : Bool) :
    law.RoundTakes .any .any bound (goesOn precedence) (infixRound calls canAssign) := by
  intro left p here hp on
  have operator : (rules p.current.type).precedence ≠ .none := by
    intro none
    simp only [goesOn, none, decide_eq_true_eq] at on
    cases precedence <;> simp [Precedence.toNat] at on h
  obtain ⟨infixFn, rule⟩ := rules_infix operator
  obtain ⟨passed, next, less⟩ := law.pass_plain here (plain_of_operator operator)
  obtain ⟨node, q, eq, goes, there⟩ :=
    below.returns_runInfix law left canAssign infixFn p.advance next (less.trans hp)
  exact ⟨(node, false), q, infixRound_eq rule eq, law.discipline.trans passed goes,
    goes.2.1.trans_lt less, fun _ => there, there⟩

/-- At the end there is no prefix function, and nothing is come back to. -/
theorem consumes_parsePrecedence {precedence : Precedence} (h : precedence ≠ .none) :
    law.Consumes .start .any (bound + 1) (Parsing.parsePrecedence libc calls precedence) := by
  intro p here hp
  have previous_eq : previous p.advance = some (p.current, p.advance) := by
    rw [previous, Parser.previous_advance]
  rcases rule : (rules p.current.type).prefixRule with _ | prefixFn
  · have start : Parsing.parsePrecedence libc calls precedence p =
        (do parseError "Expect expression."; return none : Parse _) p.advance := by
      show climb libc calls precedence p.advance = _
      rw [climb, Discipline.bind_eq previous_eq, rule]
    refine ⟨none, _, start, ⟨law.reject _ _ (places.any here),
      (Takes.advance p).trans (.of_eq (by simp) (by simp))⟩,
      places.error (places.advance (places.any here)) _ _, ?_⟩
    by_cases eof : p.current.type = .eof
    · exact .inr eof
    · exact .inl ((Parser.left_errorAt _ _ _).trans_lt (Parser.left_advance_lt eof))
  · have start : Parsing.parsePrecedence libc calls precedence p =
        climbFrom libc calls precedence prefixFn p.advance := by
      show climb libc calls precedence p.advance = _
      rw [climb, Discipline.bind_eq previous_eq, rule]
    obtain ⟨node, q, eq, goes, there, less⟩ :=
      below.prefix_goes law (canAssignAt precedence) here hp rule
    have rest : law.Returns .any .any bound (do
        let left ← climbLoop calls precedence (canAssignAt precedence) (some node)
        ifAssigned (canAssignAt precedence) (parseError "Invalid assignment target.") (pure ())
        return left) :=
      (returns_whileLoop (fun _ _ => rfl) (below.infixRound_takes law h _) fun _ => id).bind
        fun _ => (returns_ifAssigned (law.returns_parseError _).to (law.returns_pure _)).bind
          fun _ => law.returns_pure _
    obtain ⟨left, r, eq', goes', there'⟩ :=
      rest q there (less.trans_le (Nat.lt_succ_iff.mp hp))
    exact ⟨left, r, start.trans ((Discipline.bind_eq eq).trans eq'),
      law.discipline.trans goes goes', there', .inl (goes'.2.1.trans_lt less)⟩

/-! ### Declarations -/

theorem consumes_structMethod : law.Consumes .start .start bound (structMethod calls) :=
  (law.returns_errorAtCurrent _).bind_consumes fun _ => law.consumes_advance.bind fun _ =>
    (returns_ifCheck (law.consumes_advance.returns.bind fun _ =>
      ((below.consumes_methodDeclaration law _).returns.bind fun _ =>
        law.returns_pure _).of_failed) (law.returns_pure _).to).bind fun _ =>
          law.returns_leavePanic

omit below in
theorem returns_structField (isMutable isPublic : Bool) :
    law.Returns .start .start bound (structField isMutable isPublic) :=
  (law.returns_consumeDeclarationIdentifier _).bind fun _ => law.returns_previous.bind fun _ =>
    law.returns_parseTypeAnnotation.bind fun _ => (returns_ifMatch (law.returns_parseError _).to
      (law.returns_pure _)).bind fun _ => (law.returns_consume _ _).bind fun _ =>
        law.returns_previous.bind fun _ => law.returns_pure _

theorem returns_structItem (fields : List AstNode) (isPublic : Bool) :
    law.Returns .start .start bound (structItem calls fields isPublic) :=
  returns_ifMatch ((returns_structField law _ _).bind fun _ => law.returns_pure _) <|
    returns_ifMatch ((returns_structField law _ _).bind fun _ => law.returns_pure _) <|
      returns_ifCheck ((below.consumes_structMethod law).returns.bind fun _ => law.returns_pure _)
        ((law.returns_errorAtCurrent _).to.bind fun _ => law.returns_pure _)

theorem attempts_structMember (fields : List AstNode) :
    law.Attempts bound (structMember calls fields) := by
  refine attempts_match (below.returns_structItem law fields true) ?_
  refine attempts_ifMatch ((returns_structField law _ _).bind fun _ => law.returns_pure _) ?_
  refine attempts_ifMatch ((returns_structField law _ _).bind fun _ => law.returns_pure _) ?_
  exact attempts_ifCheck
    ((below.consumes_structMethod law).bind fun _ => law.returns_pure fields).attempts
    ((law.attempts_errorAtCurrent _).map fun _ => fields)

/-- A field is passed after an error. -/
theorem consumes_implField : law.Consumes place .failed bound (implField calls) := by
  have assigned : law.Returns .failed .failed bound (ifMatch .equal (do
      let _ ← expression calls
      pure ()) (pure ())) :=
    (returns_ifMatch (below.returns_expression.bind fun _ => law.returns_pure _)
      (law.returns_pure _).to_any).stays
  have ended : law.Returns .failed .failed bound (ifMatch .semicolon (pure ()) (pure ())) :=
    (returns_ifMatch (law.returns_pure _).to_any (law.returns_pure _).to_any).stays
  exact (law.returns_errorAtCurrent _).bind_consumes fun _ => law.consumes_advance.bind fun _ =>
    (returns_ifCheck (law.consumes_advance.returns.bind fun _ => assigned.bind fun _ => ended)
      (law.returns_pure _)).bind fun _ => law.returns_leavePanic

theorem consumes_implMember (hasTraitName : Bool) (methods : List AstNode) :
    law.Consumes .start .start bound (implMember calls hasTraitName methods) := by
  have method (isPublic : Bool) : law.Consumes .start .start bound (implMethod calls isPublic) :=
    (law.returns_consume _ _).bind_consumes fun _ =>
      (law.returns_consumeDeclarationIdentifier _).bind_consumes fun _ =>
        (below.consumes_methodDeclaration law _).bind fun _ => law.returns_pure _
  exact law.returns_match_.bind_consumes fun _ => consumes_branch
    ((below.consumes_implField law).bind fun _ => (law.returns_pure _).to)
    ((method _).bind fun _ => law.returns_pure _)

omit below in
/-- A signature that is rejected where it starts leaves the parser panicking there: what follows
does not recover. -/
theorem attempts_traitMember (methods : List AstNode) :
    law.Attempts bound (traitMember methods) := by
  intro p here hp inside
  by_cases keyword : p.current.type = .fun_
  · obtain ⟨a, q, eq, goes, there, less⟩ := afterPlain (law.returns_signature methods) here
      (hp.trans (Nat.lt_succ_self bound)) (by rw [keyword]; decide)
    exact ⟨a, q, (Discipline.bind_eq (ifCheck_pos keyword)).trans eq, goes, there, .inl less⟩
  · let rejected := p.errorAt p.current (ascii "Expect method signature in trait body.")
    obtain ⟨a, q, eq, ⟨⟨goes, keeps⟩, takes⟩, there⟩ := law.keeping.returns_signature methods
      rejected (places.error (places.any here) _ _) (Nat.lt_succ_self _)
    have same : rejected.left = p.left ∧ rejected.current = p.current := by simp [rejected]
    refine ⟨a, q, (Discipline.bind_eq (ifCheck_neg keyword)).trans eq,
      ⟨law.trans (law.errorAt p _ _) goes, .trans (.of_eq same.1 same.2) takes⟩, there, ?_⟩
    rcases keeps.2 with less | eof | ⟨same', panic⟩
    · exact .inl (less.trans_le same.1.le)
    · exact absurd (same.2 ▸ eof) (token_of_inBody inside)
    · exact .inr ⟨same'.trans same.2, panic (p.panicMode_errorAt _ _)⟩

theorem returns_structDeclaration : law.Returns .start .start bound (structDeclaration calls) :=
  (law.returns_consumeDeclarationIdentifier _).bind fun _ => law.returns_previous.bind fun _ =>
    law.returns_parseGenericParamList.bind fun _ => (law.returns_consume _ _).bind fun _ =>
      (law.consumes_body (law.bodyRound_takes (below.attempts_structMember law)) fun _ =>
        law.returns_previous.bind fun _ => law.returns_pure _).returns

theorem returns_implDeclaration : law.Returns .start .start bound (implDeclaration calls) :=
  (law.returns_consumeName _).bind fun _ => law.returns_previous.bind fun _ =>
    law.returns_parseGenericParamList.bind fun _ =>
      (returns_ifMatch ((law.returns_consumeName _).bind fun _ => law.returns_previous.bind fun _ =>
        law.returns_pure _) (law.returns_pure _)).bind fun _ => (law.returns_consume _ _).bind
          fun _ => (law.consumes_body (law.bodyRound_takes fun _ =>
            (below.consumes_implMember law _ _).attempts) fun _ =>
              law.returns_previous.bind fun _ => law.returns_pure _).returns

omit below in
theorem returns_traitDeclaration : law.Returns .start .start bound traitDeclaration :=
  (law.returns_consumeDeclarationIdentifier _).bind fun _ => law.returns_previous.bind fun _ =>
    (returns_ifMatch ((law.returns_consumeName _).bind fun _ => law.returns_previous.bind fun _ =>
      law.returns_pure _) (law.returns_pure _)).bind fun _ => (law.returns_consume _ _).bind
        fun _ => (law.consumes_body (law.bodyRound_takes (attempts_traitMember law)) fun _ =>
          law.returns_previous.bind fun _ => law.returns_pure _).returns

omit below in
theorem returns_typeAliasDeclaration : law.Returns .start .start bound typeAliasDeclaration :=
  (law.returns_consumeDeclarationIdentifier _).bind fun _ => law.returns_previous.bind fun _ =>
    law.returns_parseGenericParamList.bind fun _ => (law.returns_consume _ _).bind fun _ =>
      law.returns_parseType.bind fun _ => (law.returns_consume _ _).bind fun _ =>
        law.returns_pure _

theorem consumes_declaration (other : law.Consumes .start .start (bound + 1) calls.statement) :
    law.Consumes .start .start (bound + 1) (Parsing.declaration calls) := by
  have item : law.Consumes .start .start (bound + 1) (declarationItem calls) :=
    consumes_ifMatch (below.returns_structDeclaration law) <|
      consumes_ifMatch (below.returns_implDeclaration law) <|
        consumes_ifMatch (returns_traitDeclaration law) <|
          consumes_ifMatch (returns_typeAliasDeclaration law) <|
            consumes_branch_advance
              (fun p h => by
                rw [Bool.and_eq_true, beq_iff_eq] at h
                rw [h.1]
                decide)
              (below.returns_functionDeclaration law) <|
                consumes_ifMatch (below.returns_varDeclaration law _) <|
                  consumes_ifMatch (below.returns_varDeclaration law _) other
  exact (returns_ifCheck ((law.returns_errorAtCurrent _).bind fun _ =>
    law.consumes_advance.returns).to (law.returns_pure _)).bind_consumes fun _ =>
      (returns_branch (law.returns_errorAtCurrent _).to (law.returns_pure _)).bind_consumes
        fun _ => item.bind fun _ => law.returns_synchronizeIfPanicking.bind fun _ =>
          law.returns_pure _

end Below

/-! ### The knot -/

/-- How many calls inside each other the functions of the parser need. -/
structure Suffices (law : Law libc places rel) (depth : ℕ) (calls : Recursion) : Prop where
  parsePrecedence {bound : ℕ} {precedence : Precedence} : 4 * bound ≤ depth + 3 →
    precedence ≠ .none → law.Consumes .start .any bound (calls.parsePrecedence precedence)
  statementExpression {bound : ℕ} : 4 * bound ≤ depth + 2 →
    law.Consumes .start .any bound calls.statementExpression
  statement {bound : ℕ} : 4 * bound ≤ depth + 1 →
    law.Consumes .start .start bound calls.statement
  declaration {bound : ℕ} : 4 * bound ≤ depth →
    law.Consumes .start .start bound calls.declaration

theorem Suffices.below {law : Law libc places rel} {depth : ℕ} (h : Suffices law depth calls)
    (enough : 4 * bound ≤ depth) : Below law bound calls where
  parsePrecedence := h.parsePrecedence (by omega)
  statementExpression := h.statementExpression (by omega)
  statement := h.statement (by omega)
  declaration := h.declaration enough

/-- With nothing below the bound nothing is asked for. -/
theorem Law.consumes_zero (law : Law libc places rel) {α : Type} (m : Parse α) :
    law.Consumes place place' 0 m :=
  fun _ _ h => absurd h (Nat.not_lt_zero _)

theorem parser_suffices (law : RecoveryLaw libc places rel) (depth : ℕ) :
    Suffices law.toLaw depth (parser libc depth) := by
  induction depth with
  | zero =>
    have zero : ∀ {bound : ℕ} {place place' : Place} {α : Type} (m : Parse α), 4 * bound ≤ 3 →
        law.Consumes place place' bound m := by
      intro bound place place' α m le
      obtain rfl : bound = 0 := by omega
      exact law.consumes_zero m
    exact ⟨fun le _ => zero _ le, fun le => zero _ (by omega), fun le => zero _ (by omega),
      fun le => zero _ (by omega)⟩
  | succ depth ih =>
    constructor <;> intro bound
    · intro precedence enough h
      cases bound with
      | zero => exact law.consumes_zero _
      | succ bound => exact (ih.below (by omega)).consumes_parsePrecedence law h
    · intro enough
      cases bound with
      | zero => exact law.consumes_zero _
      | succ bound =>
        exact (ih.below (by omega)).consumes_statementExpression law
          (ih.parsePrecedence (by omega) (by decide))
    · intro enough
      cases bound with
      | zero => exact law.consumes_zero _
      | succ bound =>
        exact (ih.below (by omega)).consumes_statement law (ih.statementExpression (by omega))
    · intro enough
      cases bound with
      | zero => exact law.consumes_zero _
      | succ bound =>
        exact (ih.below (by omega)).consumes_declaration law (ih.statement (by omega))

/-- The loop of `parse` returns and obeys every law. -/
theorem program_returns (law : RecoveryLaw libc places rel) {p : Parser}
    (here : places.holds .start p) : ∃ ast q, program libc p = some (ast, q) ∧ rel p q := by
  have round : law.RoundTakes .start .start (p.left + 1) (·.current.type != .eof)
      (programRound (parser libc (callDepth p.left))) := by
    intro ast q here hq inside
    have below : 4 * (p.left + 1) ≤ callDepth p.left := by simp [callDepth, Nat.mul_add]
    obtain ⟨node, r, eq, goes, there, less⟩ :=
      ((parser_suffices law _).declaration below).takes here hq (by simpa using inside)
    exact ⟨(ast ++ [node], false), r, Discipline.bind_eq eq, goes, less, fun _ => there, there⟩
  obtain ⟨ast, q, eq, goes, -⟩ := Law.returns_whileLoop (fun _ _ => rfl) round (fun _ => id) p here
    (Nat.lt_succ_self p.left)
  exact ⟨ast, q, eq, goes.1⟩

/-- The law of what returns. -/
theorem trivialLaw (libc : Libc) : RecoveryLaw libc .free fun _ _ => True where
  refl _ := trivial
  trans _ _ := trivial
  failed _ _ := trivial
  advance _ _ := trivial
  reject _ _ _ := trivial
  text _ _ _ := trivial
  errorAt _ _ _ := trivial
  depth _ _ := trivial
  round _ _ _ _ _ _ := trivial
  list _ := trivial
  field _ _ _ := trivial
  number _ _ := trivial
  leavePanic _ := trivial

/-- `parse` returns for every sequence of tokens, and obeys every law. -/
theorem parseTokens_returns (law : RecoveryLaw libc places rel) {stream : TokenStream}
    (here : places.holds .start (initParser stream)) :
    ∃ ast q, parseTokens libc stream = some (ast, q) ∧ rel (initParser stream) q :=
  program_returns law here

end KirbyLang.Parsing
