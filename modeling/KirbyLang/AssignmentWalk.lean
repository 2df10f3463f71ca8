import KirbyLang.AssignmentRuns

/-!
# What a walk keeps

A walk never takes a report back, and it only takes a name out of the set where the tree assigns
that name (`daaCheck_keeps`).
-/

namespace KirbyLang

/-! ### Sets of names -/

theorem tokensEqual_iff {a b : Token} : tokensEqual a b = true ↔ a.text = b.text := beq_iff_eq

@[simp] theorem daaSetContains_iff {daa : DaaSet} {name : Token} :
    daaSetContains daa name = true ↔ ∃ n ∈ daa, n.text = name.text := by
  simp [daaSetContains, tokensEqual_iff]

theorem daaSetContains_add {daa : DaaSet} {name n : Token} :
    daaSetContains (daaSetAdd daa name) n = true ↔
      daaSetContains daa n = true ∨ name.text = n.text := by
  simp [daaSetAdd, or_and_right, exists_or]

theorem daaSetContains_union {into daa : DaaSet} {n : Token} :
    daaSetContains (daaSetUnionInto into daa) n = true ↔
      daaSetContains into n = true ∨ daaSetContains daa n = true := by
  unfold daaSetUnionInto
  induction daa generalizing into with
  | nil => simp
  | cons name daa ih =>
    rw [List.foldl_cons, ih]
    split
    · rename_i hin
      rw [daaSetContains_iff] at hin
      obtain ⟨m, hm, hmname⟩ := hin
      simp only [daaSetContains_iff, List.mem_cons, exists_eq_or_imp]
      constructor
      · rintro (h | h)
        · exact Or.inl h
        · exact Or.inr (Or.inr h)
      · rintro (h | h | h)
        · exact Or.inl h
        · exact Or.inl ⟨m, hm, hmname.trans h⟩
        · exact Or.inr h
    · rw [daaSetContains_add]
      simp only [daaSetContains_iff, List.mem_cons, exists_eq_or_imp, or_assoc]

/-- Removing a name keeps every other name. -/
theorem daaSetContains_remove {daa : DaaSet} {name n : Token} (hne : name.text ≠ n.text)
    (h : daaSetContains daa n = true) : daaSetContains (daaSetRemove daa name) n = true := by
  rw [daaSetContains_iff] at h ⊢
  obtain ⟨m, hm, hmn⟩ := h
  unfold daaSetRemove
  split
  · exact ⟨m, hm, hmn⟩
  rename_i i hi
  obtain ⟨hlt, hname, -⟩ := List.findIdx?_eq_some_iff_getElem.mp hi
  rw [tokensEqual_iff] at hname
  refine ⟨m, ?_, hmn⟩
  obtain ⟨j, hj, rfl⟩ := List.mem_iff_getElem.mp hm
  have hij : i ≠ j := by
    rintro rfl
    exact hne (hname.symm.trans hmn)
  rw [List.mem_iff_getElem]
  by_cases hlast : j = daa.length - 1
  · refine ⟨i, by rw [List.length_dropLast, List.length_set]; omega, ?_⟩
    rw [List.getElem_dropLast, List.getElem_set_self]
    subst hlast
    rw [List.getLastD_eq_getLast?, List.getLast?_eq_getElem?, List.getElem?_eq_getElem hj]
    rfl
  · refine ⟨j, by rw [List.length_dropLast, List.length_set]; omega, ?_⟩
    rw [List.getElem_dropLast, List.getElem_set_ne hij]

/-- How often a name is in the set. -/
def occurrences (daa : DaaSet) (name : Token) : ℕ := daa.countP (tokensEqual · name)

theorem daaSetContains_iff_occurrences {daa : DaaSet} {name : Token} :
    daaSetContains daa name = true ↔ 0 < occurrences daa name := by
  simp [daaSetContains, occurrences, List.countP_pos_iff]

theorem tokensEqual_congr {a b : Token} (h : tokensEqual a b = true) (name : Token) :
    tokensEqual name a = tokensEqual name b := by
  rw [tokensEqual_iff] at h
  unfold tokensEqual
  rw [h]

theorem tokensEqual_congr_left {a b : Token} (h : tokensEqual a b = true) (name : Token) :
    tokensEqual a name = tokensEqual b name := by
  rw [tokensEqual_iff] at h
  unfold tokensEqual
  rw [h]

theorem occurrences_congr {a b : Token} (h : tokensEqual a b = true) (daa : DaaSet) :
    occurrences daa a = occurrences daa b := by
  unfold occurrences
  congr 1
  funext name
  exact tokensEqual_congr h name

theorem occurrences_add (daa : DaaSet) (added name : Token) :
    occurrences (daaSetAdd daa added) name =
      if tokensEqual added name then occurrences daa name + 1 else occurrences daa name := by
  unfold occurrences daaSetAdd
  rw [List.countP_append, List.countP_singleton]
  split <;> rfl

/-- A removal takes out one occurrence. -/
theorem occurrences_remove (daa : DaaSet) (removed name : Token) :
    occurrences (daaSetRemove daa removed) name =
      if tokensEqual removed name then occurrences daa name - 1 else occurrences daa name := by
  unfold daaSetRemove
  cases hfind : daa.findIdx? (tokensEqual · removed) with
  | none =>
    have hnone : occurrences daa removed = 0 := by
      unfold occurrences
      rw [List.countP_eq_zero]
      intro n hn
      simpa using List.findIdx?_eq_none_iff.mp hfind n hn
    dsimp only
    split
    · rename_i hsame
      rw [← occurrences_congr hsame, hnone]
    · rfl
  | some i =>
    obtain ⟨hlt, hname, -⟩ := List.findIdx?_eq_some_iff_getElem.mp hfind
    dsimp only
    obtain ⟨init, last, rfl⟩ : ∃ init last, daa = init ++ [last] := by
      rcases List.eq_nil_or_concat daa with rfl | ⟨init, last, rfl⟩
      · cases hlt
      · exact ⟨init, last, List.concat_eq_append⟩
    rw [List.getLastD_concat]
    unfold occurrences
    by_cases hlast : i < init.length
    · -- the last name moves to the place of the first occurrence
      have hsame : tokensEqual init[i] name = tokensEqual removed name := by
        rw [List.getElem_append_left hlast] at hname
        exact tokensEqual_congr_left hname name
      have hle := @List.boole_getElem_le_countP _ (tokensEqual · name) _ _ hlast
      rw [List.set_append_left _ _ hlast, List.dropLast_concat, List.countP_set hlast,
        List.countP_append, List.countP_singleton]
      rw [hsame] at hle ⊢
      by_cases hremoved : tokensEqual removed name = true
      · rw [if_pos hremoved] at hle ⊢
        rw [if_pos hremoved]
        omega
      · rw [if_neg hremoved, if_neg hremoved, Nat.sub_zero]
    · have hi : i = init.length := by
        rw [List.length_append, List.length_singleton] at hlt
        omega
      subst hi
      have hsame : tokensEqual last name = tokensEqual removed name := by
        rw [List.getElem_concat_length rfl] at hname
        exact tokensEqual_congr_left hname name
      rw [List.set_append_right _ _ le_rfl, Nat.sub_self, List.set_cons_zero,
        List.dropLast_concat, List.countP_append, List.countP_singleton, hsame]
      split <;> omega

/-- Joining keeps one occurrence of each name. -/
theorem occurrences_union (into daa : DaaSet) (name : Token) :
    occurrences (daaSetUnionInto into daa) name =
      if 0 < occurrences into name then occurrences into name
      else min (occurrences daa name) 1 := by
  unfold daaSetUnionInto
  induction daa generalizing into with
  | nil =>
    rw [List.foldl_nil]
    split
    · rfl
    · rename_i hzero
      rw [Nat.eq_zero_of_not_pos hzero]
      rfl
  | cons added daa ih =>
    rw [List.foldl_cons, ih]
    have hcons : occurrences (added :: daa) name =
        occurrences daa name + if tokensEqual added name then 1 else 0 := List.countP_cons
    rw [hcons]
    by_cases hsame : tokensEqual added name = true
    · rw [if_pos hsame]
      by_cases hin : daaSetContains into added = true
      · have hpos : 0 < occurrences into name := by
          rw [← occurrences_congr hsame]
          exact daaSetContains_iff_occurrences.mp hin
        rw [if_pos hin, if_pos hpos, if_pos hpos]
      · have hzero : occurrences into name = 0 := by
          rw [← occurrences_congr hsame]
          exact Nat.eq_zero_of_not_pos fun h => hin (daaSetContains_iff_occurrences.mpr h)
        rw [if_neg hin, occurrences_add, if_pos hsame, hzero]
        simp
    · have hkept : occurrences (if daaSetContains into added then into else daaSetAdd into added)
          name = occurrences into name := by
        split
        · rfl
        · rw [occurrences_add, if_neg hsame]
      rw [hkept, if_neg hsame, Nat.add_zero]

/-! ### Walks -/

theorem daaCheckIf_run {condition thenBranch : DaaCheck} {elseBranch : Option DaaCheck}
    {s start : DaaState} {thenEnd elseEnd : Bool × DaaState}
    (hstart : (condition.asExpr.run s).2 = start) (hthen : thenBranch.asStmt.run start = thenEnd)
    (helse : (daaCheckOptionStmt elseBranch).run ⟨start.daa, thenEnd.2.errors⟩ = elseEnd) :
    (daaCheckIf condition thenBranch elseBranch).run s =
      if thenEnd.1 && elseEnd.1 then (true, ⟨start.daa, elseEnd.2.errors⟩)
      else if thenEnd.1 then (false, elseEnd.2)
      else if elseEnd.1 then (false, ⟨thenEnd.2.daa, elseEnd.2.errors⟩)
      else (false, ⟨daaSetUnionInto (daaSetUnionInto [] thenEnd.2.daa) elseEnd.2.daa,
        elseEnd.2.errors⟩) := by
  subst hstart hthen helse
  generalize hstart : (condition.asExpr.run s).2 = start
  generalize hthen : thenBranch.asStmt.run start = thenEnd
  generalize helse : (daaCheckOptionStmt elseBranch).run ⟨start.daa, thenEnd.2.errors⟩ = elseEnd
  have hrun : (daaCheckIf condition thenBranch elseBranch).run s =
      (if thenEnd.1 && elseEnd.1 then (do setDaa start.daa; return true)
      else do
        if thenEnd.1 then setDaa elseEnd.2.daa
        else if elseEnd.1 then setDaa thenEnd.2.daa
        else setDaa (daaSetUnionInto (daaSetUnionInto [] thenEnd.2.daa) elseEnd.2.daa)
        return false : DaaM Bool).run elseEnd.2 := by
    subst hstart hthen helse
    rfl
  rw [hrun]
  cases thenEnd.1 <;> cases elseEnd.1 <;> rfl

/-- What holds of the steps of a walk holds of walks made of them. -/
structure WalkRules (Q : {α : Type} → DaaM α → Prop) : Prop where
  pure_ : ∀ {α : Type} (x : α), Q (pure x : DaaM α)
  bind : ∀ {α β : Type} {check : DaaM α} {next : α → DaaM β}, Q check → (∀ x, Q (next x)) →
    Q (check >>= next)
  discard : ∀ {α : Type} {check : DaaM α}, Q check → Q (discard check)
  clone : ∀ {check : DaaM Unit}, Q check → Q (onClone check)
  if_ : ∀ {condition thenBranch : DaaCheck} {elseBranch : Option DaaCheck}, Q condition.asExpr →
    Q thenBranch.asStmt → Q (daaCheckOptionStmt elseBranch) →
      Q (daaCheckIf condition thenBranch elseBranch)

/-- Both walks of a node. -/
def DaaCheck.Both (Q : {α : Type} → DaaM α → Prop) (check : DaaCheck) : Prop :=
  Q check.asExpr ∧ Q check.asStmt

namespace WalkRules

variable {Q : {α : Type} → DaaM α → Prop} (rules : WalkRules Q)

include rules

theorem ofExpr {asExpr : DaaM Unit} (h : Q asExpr) : (DaaCheck.ofExpr asExpr).Both Q :=
  ⟨h, rules.bind h fun _ => rules.pure_ _⟩

theorem ofStmt {asStmt : DaaM Bool} (h : Q asStmt) : (DaaCheck.ofStmt asStmt).Both Q :=
  ⟨rules.discard h, h⟩

theorem stmtOnly {asStmt : DaaM Bool} (h : Q asStmt) : (DaaCheck.stmtOnly asStmt).Both Q :=
  ⟨rules.pure_ _, h⟩

theorem exprs {checks : List DaaCheck} (h : ∀ check ∈ checks, Q check.asExpr) :
    Q (daaCheckExprs checks) := by
  induction checks with
  | nil => exact rules.pure_ _
  | cons check checks ih =>
    exact rules.bind (h check List.mem_cons_self) fun _ =>
      ih fun c hc => h c (List.mem_cons_of_mem _ hc)

theorem stmts {checks : List DaaCheck} (h : ∀ check ∈ checks, Q check.asStmt) :
    Q (daaCheckStmts checks) := by
  induction checks with
  | nil => exact rules.pure_ _
  | cons check checks ih =>
    refine rules.bind (h check List.mem_cons_self) fun exits => ?_
    cases exits with
    | true => exact rules.pure_ _
    | false => exact ih fun c hc => h c (List.mem_cons_of_mem _ hc)

theorem block {checks : List DaaCheck} {value : Option DaaCheck}
    (h : ∀ check ∈ checks, Q check.asStmt) (hvalue : ∀ check ∈ value, Q check.asExpr) :
    Q (daaCheckAssignmentBlock checks value) := by
  refine rules.bind (rules.stmts h) fun exits => ?_
  cases exits with
  | true => exact rules.pure_ _
  | false =>
    exact rules.bind (rules.exprs fun c hc => hvalue c (Option.mem_toList.mp hc)) fun _ =>
      rules.pure_ _

theorem optionStmt {check : Option DaaCheck} (h : ∀ c ∈ check, Q c.asStmt) :
    Q (daaCheckOptionStmt check) := by
  cases check with
  | none => exact rules.pure_ _
  | some check => exact h check rfl

end WalkRules

/-- The walk of the assignment to a name. -/
def removeName (name : Token) : DaaM Unit :=
  modify fun s => { s with daa := daaSetRemove s.daa name }

/-- The walk of a declaration without an initializer. -/
def addName (name : Token) : DaaM Unit := modify fun s => { s with daa := daaSetAdd s.daa name }

/-- What holds of the reads, the assignments and the declarations that are walked with a node holds
of the walk of the node. -/
theorem daaCheck_rule {Q : {α : Type} → DaaM α → Prop} (rules : WalkRules Q) (node : AstNode)
    (hread : ∀ line name, (AstNode.variable_ line name).Below AstNode.notWalked node →
      Q (checkRead name))
    (hremove : ∀ line name value, (AstNode.assign line name value).Below AstNode.notWalked node →
      Q (removeName name))
    (hadd : ∀ line decl, (AstNode.varDecl line decl none).Below AstNode.notWalked node →
      Q (addName decl.name)) : (daaCheck node).Both Q := by
  induction node using AstNode.childInduction with
  | step node ih =>
  -- what is known of a child, unless the walk does not look below the node
  have hchild : node.notWalked = false → ∀ child ∈ node.children, (daaCheck child).Both Q :=
    fun hwalked child hmem => ih child hmem
      (fun line name h => hread line name (.under hwalked hmem h))
      (fun line name value h => hremove line name value (.under hwalked hmem h))
      (fun line decl h => hadd line decl (.under hwalked hmem h))
  have hexprs : ∀ nodes : List AstNode, (∀ child ∈ nodes, (daaCheck child).Both Q) →
      Q (daaCheckExprs (nodes.map daaCheck)) := by
    intro nodes h
    refine rules.exprs fun check hc => ?_
    obtain ⟨child, hmem, rfl⟩ := List.mem_map.mp hc
    exact (h child hmem).1
  cases node with
  | literal | self_ | function | cast | struct_ | impl | trait_ | typeAlias =>
    exact rules.ofExpr (rules.pure_ _)
  | break_ | continue_ => exact rules.stmtOnly (rules.pure_ _)
  | variable_ line name => exact rules.ofExpr (hread line name .here)
  | assign line name value =>
    exact rules.ofExpr (rules.bind (hchild rfl value List.mem_cons_self).1 fun _ =>
      hremove line name value .here)
  | unary line op a | grouping line a | get line a name =>
    exact rules.ofExpr (hexprs [a] (hchild rfl))
  | binary line op a b isStringConcat | and_ line a b | or_ line a b | nullish line a b
  | set line a name b | indexGet line a b bracket =>
    exact rules.ofExpr (hexprs [a, b] (hchild rfl))
  | indexSet line a b c bracket => exact rules.ofExpr (hexprs [a, b, c] (hchild rfl))
  | call line callee paren args argUsesDisplay =>
    have h := hexprs (callee :: args) (hchild rfl)
    rw [List.map_cons, ← daaCheckAll_eq] at h
    exact rules.ofExpr h
  | structInit line name fieldNames items endLine | array line items isFixedSize
  | interpString line conversions items =>
    have h := hexprs items (hchild rfl)
    rw [← daaCheckAll_eq] at h
    exact rules.ofExpr h
  | if_ line condition thenBranch elseBranch =>
    refine rules.ofStmt (rules.if_ (hchild rfl _ ?_).1 (hchild rfl _ ?_).2
      (rules.optionStmt fun check hc => ?_))
    · simp [AstNode.children]
    · simp [AstNode.children]
    · rw [daaCheckOption_eq] at hc
      obtain ⟨child, hmem, rfl⟩ := Option.mem_map.mp hc
      exact (hchild rfl child (by simp [AstNode.children, Option.mem_def.mp hmem])).2
  | block line stmts value endLine =>
    refine rules.ofStmt (rules.block (fun check hc => ?_) fun check hc => ?_)
    · rw [daaCheckAll_eq] at hc
      obtain ⟨child, hmem, rfl⟩ := List.mem_map.mp hc
      exact (hchild rfl child (List.mem_append_left _ hmem)).2
    · rw [daaCheckOption_eq] at hc
      obtain ⟨child, hmem, rfl⟩ := Option.mem_map.mp hc
      exact (hchild rfl child (List.mem_append_right _ (Option.mem_toList.mpr hmem))).1
  | exprStmt line expr =>
    exact rules.stmtOnly (rules.bind (hchild rfl expr List.mem_cons_self).1 fun _ => rules.pure_ _)
  | varDecl line decl initializer =>
    cases initializer with
    | none => exact rules.stmtOnly (rules.bind (hadd line decl .here) fun _ => rules.pure_ _)
    | some initializer =>
      exact rules.stmtOnly (rules.bind (hchild rfl initializer List.mem_cons_self).1 fun _ =>
        rules.pure_ _)
  | while_ line condition body =>
    have hcondition := hchild rfl condition (by simp [AstNode.children])
    have hbody := hchild rfl body (by simp [AstNode.children])
    exact rules.stmtOnly (rules.bind hcondition.1 fun _ =>
      rules.bind (rules.clone (rules.discard hbody.2)) fun _ => rules.pure_ _)
  | for_ line init condition increment body =>
    have hinit : ∀ child ∈ init, Q (daaCheck child).asStmt := fun child hmem =>
      (hchild rfl child (by simp [AstNode.children, Option.mem_def.mp hmem])).2
    have hcondition := hchild rfl condition (by simp [AstNode.children])
    have hincrement := hexprs increment.toList fun child hmem =>
      hchild rfl child (by simp [AstNode.children, hmem])
    have hbody := hchild rfl body (by simp [AstNode.children])
    refine rules.stmtOnly (rules.bind (rules.discard (rules.optionStmt fun check hc => ?_)) fun _ =>
      rules.bind hcondition.1 fun _ =>
        rules.bind (rules.clone (rules.bind (rules.discard hbody.2) fun _ => ?_)) fun _ =>
          rules.pure_ _)
    · rw [daaCheckOption_eq] at hc
      obtain ⟨child, hmem, rfl⟩ := Option.mem_map.mp hc
      exact hinit child hmem
    · cases increment with
      | none => exact rules.pure_ _
      | some child => exact hincrement
  | return_ line value =>
    refine rules.stmtOnly (rules.bind ?_ fun _ => rules.pure_ _)
    cases value with
    | none => exact rules.pure_ _
    | some child => exact hexprs [child] (hchild rfl)

/-- A walk takes no report back and leaves the names of `kept` in the set. -/
def Keeps (kept : Token → Prop) {α : Type} (check : DaaM α) : Prop :=
  ∀ s : DaaState, s.errors <+: (check.run s).2.errors ∧
    ∀ n, kept n → daaSetContains s.daa n = true → daaSetContains (check.run s).2.daa n = true

theorem keeps_rules (kept : Token → Prop) : WalkRules (Keeps kept) where
  pure_ _ _ := ⟨List.prefix_rfl, fun _ _ h => h⟩
  bind := by
    intro α β check next h hnext s
    have h₁ := h s
    have h₂ := hnext (check.run s).1 (check.run s).2
    exact ⟨h₁.1.trans h₂.1, fun n hn hs => h₂.2 n hn (h₁.2 n hn hs)⟩
  discard h s := h s
  clone h s := ⟨(h s).1, fun _ _ hs => hs⟩
  if_ := by
    intro condition thenBranch elseBranch hcondition hthen helse s
    have hstart := hcondition s
    generalize hstartEq : (condition.asExpr.run s).2 = start at hstart
    have hthen := hthen start
    generalize hthenEq : thenBranch.asStmt.run start = thenEnd at hthen
    have helse := helse ⟨start.daa, thenEnd.2.errors⟩
    generalize helseEq :
      (daaCheckOptionStmt elseBranch).run ⟨start.daa, thenEnd.2.errors⟩ = elseEnd at helse
    rw [daaCheckIf_run hstartEq hthenEq helseEq]
    have herrors := (hstart.1.trans hthen.1).trans helse.1
    have helseDaa := fun n hn hs => helse.2 n hn (hstart.2 n hn hs)
    have hthenDaa := fun n hn hs => hthen.2 n hn (hstart.2 n hn hs)
    split
    · exact ⟨herrors, hstart.2⟩
    split
    · exact ⟨herrors, helseDaa⟩
    split
    · exact ⟨herrors, hthenDaa⟩
    · exact ⟨herrors, fun n hn hs => daaSetContains_union.mpr (Or.inr (helseDaa n hn hs))⟩

theorem keeps_read (kept : Token → Prop) (name : Token) : Keeps kept (checkRead name) := by
  intro s
  have hrun : ((checkRead name).run s).2 =
      if daaSetContains s.daa name then
        { s with errors := s.errors ++ [(name, notAssignedMessage name)] }
      else s := rfl
  rw [hrun]
  split
  · exact ⟨List.prefix_append _ _, fun _ _ h => h⟩
  · exact ⟨List.prefix_rfl, fun _ _ h => h⟩

/-- A walk keeps the names the tree does not assign. -/
theorem daaCheck_keeps {kept : Token → Prop} (node : AstNode)
    (hkept : ∀ n, kept n → ¬ node.Assigns n) : (daaCheck node).Both (Keeps kept) := by
  refine daaCheck_rule (keeps_rules kept) node (fun _ name _ => keeps_read kept name) ?_ ?_
  · intro line name value hbelow s
    refine ⟨List.prefix_rfl, fun n hn h => daaSetContains_remove (fun hname => ?_) h⟩
    exact hkept n hn ⟨line, name, value, hbelow, tokensEqual_iff.mpr hname⟩
  · intro line decl _ s
    exact ⟨List.prefix_rfl, fun _ _ h => daaSetContains_add.mpr (Or.inl h)⟩

/-- A walk takes no report back. -/
abbrev Reports {α : Type} (check : DaaM α) : Prop := Keeps (fun _ => False) check

theorem reports_rules : WalkRules Reports := keeps_rules fun _ => False

theorem daaCheck_reports (node : AstNode) : (daaCheck node).Both Reports :=
  daaCheck_keeps node fun _ h => h.elim

theorem exprs_reports (nodes : List AstNode) : Reports (daaCheckExprs (nodes.map daaCheck)) := by
  refine reports_rules.exprs fun check hc => ?_
  obtain ⟨node, -, rfl⟩ := List.mem_map.mp hc
  exact (daaCheck_reports node).1

theorem stmts_reports (nodes : List AstNode) : Reports (daaCheckStmts (nodes.map daaCheck)) := by
  refine reports_rules.stmts fun check hc => ?_
  obtain ⟨node, -, rfl⟩ := List.mem_map.mp hc
  exact (daaCheck_reports node).2

theorem optionStmt_reports (node : Option AstNode) :
    Reports (daaCheckOptionStmt (node.map daaCheck)) := by
  cases node with
  | none => exact reports_rules.pure_ _
  | some node => exact (daaCheck_reports node).2

/-! ### Walks from other sets -/

/-- A walk from the empty set reports nothing and leaves nothing. -/
def Idle {α : Type} (check : DaaM α) : Prop :=
  ∀ errors, (check.run ⟨[], errors⟩).2 = ⟨[], errors⟩

theorem idle_rules : WalkRules Idle where
  pure_ _ _ := rfl
  bind := by
    intro α β check next h hnext errors
    show ((next (check.run ⟨[], errors⟩).1).run (check.run ⟨[], errors⟩).2).2 = _
    rw [h errors]
    exact hnext _ errors
  discard h errors := h errors
  clone := by
    intro check h errors
    show (⟨[], (check.run ⟨[], errors⟩).2.errors⟩ : DaaState) = _
    rw [h errors]
  if_ := by
    intro condition thenBranch elseBranch hcondition hthen helse errors
    generalize hthenEq : thenBranch.asStmt.run ⟨[], errors⟩ = thenEnd
    have hthenEnd : thenEnd.2 = ⟨[], errors⟩ := by rw [← hthenEq, hthen errors]
    generalize helseEq : (daaCheckOptionStmt elseBranch).run ⟨[], thenEnd.2.errors⟩ = elseEnd
    have helseEnd : elseEnd.2 = ⟨[], errors⟩ := by rw [← helseEq, hthenEnd, helse errors]
    rw [daaCheckIf_run (hcondition errors) hthenEq helseEq, hthenEnd, helseEnd]
    split
    · rfl
    split
    · rfl
    split <;> rfl

/-- Two states that differ in some names of their sets only. -/
def AlikeBut (names : List Token) (s s' : DaaState) : Prop :=
  s'.errors = s.errors ∧
    ∀ n, daaSetContains names n = false → occurrences s.daa n = occurrences s'.daa n

/-- Whether these names are in the set does not matter to a walk. -/
def Ignores (names : List Token) {α : Type} (check : DaaM α) : Prop :=
  ∀ s s', AlikeBut names s s' →
    (check.run s).1 = (check.run s').1 ∧ AlikeBut names (check.run s).2 (check.run s').2

theorem ignores_rules (names : List Token) : WalkRules (Ignores names) where
  pure_ _ _ _ h := ⟨rfl, h⟩
  bind := by
    intro α β check next h hnext s s' halike
    obtain ⟨hvalue, halike⟩ := h s s' halike
    rcases hs : check.run s with ⟨x, t⟩
    rcases hs' : check.run s' with ⟨x', t'⟩
    rw [hs, hs'] at hvalue halike
    obtain rfl : x = x' := hvalue
    rw [StateT.run_bind, StateT.run_bind, hs, hs']
    exact hnext x t t' halike
  discard h s s' halike := ⟨rfl, (h s s' halike).2⟩
  clone h s s' halike := ⟨rfl, (h s s' halike).2.1, halike.2⟩
  if_ := by
    intro condition thenBranch elseBranch hcondition hthen helse s s' halike
    have hstart := (hcondition s s' halike).2
    generalize hs : (condition.asExpr.run s).2 = start at hstart
    generalize hs' : (condition.asExpr.run s').2 = start' at hstart
    have hthenEnd := hthen start start' hstart
    generalize hthenEq : thenBranch.asStmt.run start = thenEnd at hthenEnd
    generalize hthenEq' : thenBranch.asStmt.run start' = thenEnd' at hthenEnd
    have helseEnd := helse ⟨start.daa, thenEnd.2.errors⟩ ⟨start'.daa, thenEnd'.2.errors⟩
      ⟨hthenEnd.2.1, hstart.2⟩
    generalize helseEq :
      (daaCheckOptionStmt elseBranch).run ⟨start.daa, thenEnd.2.errors⟩ = elseEnd at helseEnd
    generalize helseEq' :
      (daaCheckOptionStmt elseBranch).run ⟨start'.daa, thenEnd'.2.errors⟩ = elseEnd' at helseEnd
    rw [daaCheckIf_run hs hthenEq helseEq, daaCheckIf_run hs' hthenEq' helseEq', ← hthenEnd.1,
      ← helseEnd.1]
    split
    · exact ⟨rfl, helseEnd.2.1, hstart.2⟩
    split
    · exact ⟨rfl, helseEnd.2⟩
    split
    · exact ⟨rfl, helseEnd.2.1, hthenEnd.2.2⟩
    · refine ⟨rfl, helseEnd.2.1, fun n hn => ?_⟩
      dsimp only
      rw [occurrences_union, occurrences_union, occurrences_union, occurrences_union,
        hthenEnd.2.2 n hn, helseEnd.2.2 n hn]

theorem ignores_read {names : List Token} {name : Token} (h : daaSetContains names name = false) :
    Ignores names (checkRead name) := by
  intro s s' halike
  have hcontains : daaSetContains s'.daa name = daaSetContains s.daa name := by
    rw [Bool.eq_iff_iff, daaSetContains_iff_occurrences, daaSetContains_iff_occurrences,
      halike.2 name h]
  refine ⟨rfl, ?_⟩
  show AlikeBut names (if daaSetContains s.daa name then _ else _)
    (if daaSetContains s'.daa name then _ else _)
  rw [hcontains]
  split
  · exact ⟨congrArg (· ++ _) halike.1, halike.2⟩
  · exact halike

theorem ignores_remove (names : List Token) (name : Token) : Ignores names (removeName name) := by
  intro s s' halike
  refine ⟨rfl, halike.1, fun n hn => ?_⟩
  show occurrences (daaSetRemove s.daa name) n = occurrences (daaSetRemove s'.daa name) n
  rw [occurrences_remove, occurrences_remove, halike.2 n hn]

theorem ignores_add (names : List Token) (name : Token) : Ignores names (addName name) := by
  intro s s' halike
  refine ⟨rfl, halike.1, fun n hn => ?_⟩
  show occurrences (daaSetAdd s.daa name) n = occurrences (daaSetAdd s'.daa name) n
  rw [occurrences_add, occurrences_add, halike.2 n hn]

/-! ### Walks that report nothing -/

/-- A walk from the set `daa` reports nothing, answers `x` and leaves the set `daa'`. -/
def Walks {α : Type} (check : DaaM α) (daa : DaaSet) (x : α) (daa' : DaaSet) : Prop :=
  check.run { daa } = (x, { daa := daa' })

/-- The answer and the set of a walk whose errors are known to be none. -/
theorem walks_of_errors {α : Type} {check : DaaM α} {daa : DaaSet}
    (h : (check.run { daa }).2.errors = []) :
    Walks check daa (check.run { daa }).1 (check.run { daa }).2.daa := by
  unfold Walks
  rcases hrun : check.run { daa } with ⟨x, daa', errors⟩
  rw [hrun] at h
  dsimp only at h
  rw [h]

theorem silent_iff {α : Type} {check : DaaM α} {daa : DaaSet} :
    Silent check daa ↔ ∃ x daa', Walks check daa x daa' := by
  constructor
  · intro h
    exact ⟨_, _, walks_of_errors h⟩
  · rintro ⟨x, daa', h⟩
    unfold Walks at h
    unfold Silent
    rw [h]

namespace Walks

variable {α β : Type} {daa daa' daa'' : DaaSet}

theorem pure_iff {x y : α} : Walks (pure x) daa y daa' ↔ x = y ∧ daa = daa' := by
  constructor
  · intro h
    cases h
    exact ⟨rfl, rfl⟩
  · rintro ⟨rfl, rfl⟩
    rfl

theorem bind_of {check : DaaM α} {next : α → DaaM β} {x : α} {y : β} (h : Walks check daa x daa')
    (hnext : Walks (next x) daa' y daa'') : Walks (check >>= next) daa y daa'' := by
  unfold Walks at *
  rw [StateT.run_bind, h]
  exact hnext

theorem bind {check : DaaM α} {next : α → DaaM β} {y : β} (hnext : ∀ x, Reports (next x))
    (h : Walks (check >>= next) daa y daa'') :
    ∃ x daa', Walks check daa x daa' ∧ Walks (next x) daa' y daa'' := by
  have hrun : (next (check.run { daa }).1).run (check.run { daa }).2 = (y, { daa := daa'' }) := h
  have herrors := (hnext (check.run { daa }).1 (check.run { daa }).2).1
  rw [hrun, List.prefix_nil] at herrors
  have hcheck := walks_of_errors herrors
  refine ⟨_, _, hcheck, ?_⟩
  unfold Walks at hcheck
  rw [hcheck] at hrun
  exact hrun

theorem then_pure {check : DaaM α} {y z : β} (h : Walks (check >>= fun _ => pure y) daa z daa') :
    ∃ x, Walks check daa x daa' ∧ y = z := by
  obtain ⟨x, daa₁, h₁, h₂⟩ := bind (fun _ => reports_rules.pure_ _) h
  obtain ⟨rfl, rfl⟩ := pure_iff.mp h₂
  exact ⟨x, h₁, rfl⟩

theorem discard {check : DaaM α} (h : Walks (discard check) daa () daa') :
    ∃ x, Walks check daa x daa' := by
  have hrun : (check.run { daa }).2 = { daa := daa' } := (Prod.ext_iff.mp h).2
  exact ⟨(check.run { daa }).1, Prod.ext rfl hrun⟩

theorem clone {check : DaaM Unit} (h : Walks (onClone check) daa () daa') :
    (∃ daa₁, Walks check daa () daa₁) ∧ daa' = daa := by
  have hrun : ((), ({ daa, errors := (check.run { daa }).2.errors } : DaaState)) =
      ((), ({ daa := daa' } : DaaState)) := h
  obtain ⟨hdaa, herrors⟩ := DaaState.mk.inj (Prod.ext_iff.mp hrun).2
  obtain ⟨x, daa₁, hw⟩ := silent_iff.mp (show Silent check daa from herrors)
  exact ⟨⟨daa₁, hw⟩, hdaa.symm⟩

theorem stmts_cons {check : DaaCheck} {nodes : List AstNode} {exits : Bool}
    (h : Walks (daaCheckStmts (check :: nodes.map daaCheck)) daa exits daa'') :
    ∃ y daa', Walks check.asStmt daa y daa' ∧
      (y = true ∨ y = false ∧ Walks (daaCheckStmts (nodes.map daaCheck)) daa' exits daa'') := by
  have hreports : ∀ x : Bool, Reports
      (if x then return true else daaCheckStmts (nodes.map daaCheck) : DaaM Bool) := by
    intro x
    cases x with
    | true => exact reports_rules.pure_ _
    | false => exact stmts_reports nodes
  obtain ⟨y, daa', hcheck, hrest⟩ := bind hreports h
  refine ⟨y, daa', hcheck, ?_⟩
  cases y with
  | true => exact Or.inl rfl
  | false => exact Or.inr ⟨rfl, hrest⟩

theorem exprs_cons {node : AstNode} {nodes : List AstNode}
    (h : Walks (daaCheckExprs ((node :: nodes).map daaCheck)) daa () daa'') :
    ∃ daa', Walks (daaCheck node).asExpr daa () daa' ∧
      Walks (daaCheckExprs (nodes.map daaCheck)) daa' () daa'' := by
  obtain ⟨_, daa', hnode, hnodes⟩ := bind (fun _ => exprs_reports nodes) h
  exact ⟨daa', hnode, hnodes⟩

theorem block {stmts : List AstNode} {value : Option AstNode} {exits : Bool}
    (h : Walks (daaCheckAssignmentBlock (stmts.map daaCheck) (value.map daaCheck)) daa exits
      daa'') :
    ∃ y daa', Walks (daaCheckStmts (stmts.map daaCheck)) daa y daa' ∧
      (y = true ∨ y = false ∧ exits = false ∧
        Walks (daaCheckExprs (value.toList.map daaCheck)) daa' () daa'') := by
  have hvalue : daaCheckOptionExpr (value.map daaCheck) =
      daaCheckExprs (value.toList.map daaCheck) := by
    cases value <;> rfl
  unfold daaCheckAssignmentBlock at h
  rw [hvalue] at h
  have hreports : ∀ x : Bool, Reports
      (if x then return true
      else do daaCheckExprs (value.toList.map daaCheck); return false : DaaM Bool) := by
    intro x
    cases x with
    | true => exact reports_rules.pure_ _
    | false => exact reports_rules.bind (exprs_reports _) fun _ => reports_rules.pure_ _
  obtain ⟨y, daa', hstmts, hrest⟩ := bind hreports h
  refine ⟨y, daa', hstmts, ?_⟩
  cases y with
  | true => exact Or.inl rfl
  | false =>
    obtain ⟨_, hexpr, hexits⟩ := then_pure hrest
    exact Or.inr ⟨rfl, hexits.symm, hexpr⟩

/-- A walked `if`, with what the two branches answer and leave. -/
theorem if_ {condition thenBranch : AstNode} {elseBranch : Option AstNode} {exits : Bool}
    (h : Walks (daaCheckIf (daaCheck condition) (daaCheck thenBranch) (elseBranch.map daaCheck))
      daa exits daa'') :
    ∃ start thenExits thenEnd elseExits elseEnd,
      Walks (daaCheck condition).asExpr daa () start ∧
      Walks (daaCheck thenBranch).asStmt start thenExits thenEnd ∧
      Walks (daaCheckOptionStmt (elseBranch.map daaCheck)) start elseExits elseEnd ∧
      (thenExits = false → exits = false ∧
        ∀ n, daaSetContains thenEnd n = true → daaSetContains daa'' n = true) ∧
      (elseExits = false → exits = false ∧
        ∀ n, daaSetContains elseEnd n = true → daaSetContains daa'' n = true) := by
  generalize hstart : ((daaCheck condition).asExpr.run { daa }).2 = start
  generalize hthen : (daaCheck thenBranch).asStmt.run start = thenEnd
  generalize helse : (daaCheckOptionStmt (elseBranch.map daaCheck)).run
    ⟨start.daa, thenEnd.2.errors⟩ = elseEnd
  unfold Walks at h
  rw [daaCheckIf_run hstart hthen helse] at h
  -- the last errors are none, so none of the three walks reported anything
  have helseErrors : elseEnd.2.errors = [] := by
    split at h
    · exact (DaaState.mk.inj (Prod.ext_iff.mp h).2).2
    split at h
    · exact congrArg DaaState.errors (Prod.ext_iff.mp h).2
    split at h
    · exact (DaaState.mk.inj (Prod.ext_iff.mp h).2).2
    · exact (DaaState.mk.inj (Prod.ext_iff.mp h).2).2
  have hthenErrors : thenEnd.2.errors = [] := by
    have hkeeps := (optionStmt_reports elseBranch ⟨start.daa, thenEnd.2.errors⟩).1
    rwa [helse, helseErrors, List.prefix_nil] at hkeeps
  have hstartErrors : start.errors = [] := by
    have hkeeps := ((daaCheck_reports thenBranch).2 start).1
    rwa [hthen, hthenErrors, List.prefix_nil] at hkeeps
  obtain ⟨daa₁, errors₁⟩ := start
  obtain ⟨thenExits, thenDaa, errors₂⟩ := thenEnd
  obtain ⟨elseExits, elseDaa, errors₃⟩ := elseEnd
  dsimp only at *
  subst helseErrors hthenErrors hstartErrors
  refine ⟨daa₁, thenExits, thenDaa, elseExits, elseDaa, Prod.ext rfl hstart, hthen, helse, ?_⟩
  cases thenExits <;> cases elseExits <;> obtain ⟨rfl, hend⟩ := Prod.ext_iff.mp h <;>
    obtain ⟨rfl, -⟩ := DaaState.mk.inj hend
  · refine ⟨fun _ => ⟨rfl, fun n hn => ?_⟩, fun _ => ⟨rfl, fun n hn => ?_⟩⟩
    · exact daaSetContains_union.mpr (Or.inl (daaSetContains_union.mpr (Or.inr hn)))
    · exact daaSetContains_union.mpr (Or.inr hn)
  · exact ⟨fun _ => ⟨rfl, fun n hn => hn⟩, fun hexits => nomatch hexits⟩
  · exact ⟨fun hexits => (nomatch hexits), fun _ => ⟨rfl, fun n hn => hn⟩⟩
  · exact ⟨fun hexits => (nomatch hexits), fun hexits => nomatch hexits⟩

end Walks

end KirbyLang
