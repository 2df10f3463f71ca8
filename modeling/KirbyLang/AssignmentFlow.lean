import KirbyLang.AssignmentWalk
import KirbyLang.Lib.ForwardWalks

/-!
# The walk of the definite assignment analysis, as a flow

What a body declares, reads and assigns, in the control flow that the analysis follows, apart from
what the analysis keeps about it. Over a flow, the analysis is the forward walk that keeps a
`DaaSet` (`daaCheck_follows`), and others can be set beside it.
-/

namespace KirbyLang

open ForwardWalks

inductive DaaAction
  | read (name : Token)
  | assign (name : Token)
  | declare (name : Token) (initialized : Bool)
  /-- A function or a struct declared inside a body. -/
  | declareOther (name : Token)
  deriving DecidableEq, Repr

/-- How a node is passed as an expression and as a statement. -/
structure DaaFlow where
  asExpr : Flow DaaAction
  asStmt : Flow DaaAction

namespace DaaFlow

def ofExpr (asExpr : Flow DaaAction) : DaaFlow := ⟨asExpr, asExpr⟩

/-- An expression goes on after a statement inside it that exits. -/
def ofStmt (asStmt : Flow DaaAction) : DaaFlow := ⟨.resume asStmt, asStmt⟩

def stmtOnly (asStmt : Flow DaaAction) : DaaFlow := ⟨.done, asStmt⟩

end DaaFlow

def exprsFlow (flows : List DaaFlow) : Flow DaaAction :=
  flows.foldr (fun flow rest => .seq flow.asExpr rest) .done

def stmtsFlow (flows : List DaaFlow) : Flow DaaAction :=
  flows.foldr (fun flow rest => .seq flow.asStmt rest) .done

def optionStmtFlow : Option DaaFlow → Flow DaaAction
  | some flow => flow.asStmt
  | none => .done

def blockFlow (stmts : List DaaFlow) (value : Option DaaFlow) : Flow DaaAction :=
  .seq (stmtsFlow stmts) (exprsFlow value.toList)

mutual

def daaFlow : AstNode → DaaFlow
  | .variable_ _ name => .ofExpr (.act (.read name))
  | .assign _ name value => .ofExpr (.seq (daaFlow value).asExpr (.act (.assign name)))
  | .unary _ _ a | .grouping _ a | .get _ a _ => .ofExpr (exprsFlow [daaFlow a])
  | .binary _ _ a b _ | .and_ _ a b | .or_ _ a b | .nullish _ a b | .set _ a _ b
  | .indexGet _ a b _ => .ofExpr (exprsFlow [daaFlow a, daaFlow b])
  | .indexSet _ a b c _ => .ofExpr (exprsFlow [daaFlow a, daaFlow b, daaFlow c])
  | .call _ callee _ args _ => .ofExpr (exprsFlow (daaFlow callee :: daaFlowAll args))
  | .structInit _ _ _ items _ | .array _ items _ | .interpString _ _ items =>
    .ofExpr (exprsFlow (daaFlowAll items))
  | .if_ _ condition thenBranch elseBranch =>
    .ofStmt (.seq (daaFlow condition).asExpr
      (.branch (.inScope (daaFlow thenBranch).asStmt)
        (.inScope (optionStmtFlow (daaFlowOption elseBranch)))))
  | .block _ stmts value _ =>
    .ofStmt (.inScope (blockFlow (daaFlowAll stmts) (daaFlowOption value)))
  | .function _ fn _ _ _ =>
    if fn.isLambda then .ofExpr .done else ⟨.done, .act (.declareOther fn.name)⟩
  | .struct_ _ name _ _ _ => ⟨.done, .act (.declareOther name)⟩
  | .literal .. | .self_ .. | .cast .. | .impl .. | .trait_ .. | .typeAlias .. => .ofExpr .done
  | .exprStmt _ expr => .stmtOnly (daaFlow expr).asExpr
  | .varDecl _ decl initializer =>
    .stmtOnly (.seq (exprsFlow (daaFlowOption initializer).toList)
      (.act (.declare decl.name initializer.isSome)))
  | .while_ _ condition body =>
    .stmtOnly (.seq (daaFlow condition).asExpr (.loop (.resume (daaFlow body).asStmt)))
  | .for_ _ init condition increment body =>
    .stmtOnly (.inScope (.seq (.resume (optionStmtFlow (daaFlowOption init)))
      (.seq (daaFlow condition).asExpr
        (.loop (.seq (.resume (daaFlow body).asStmt)
          (exprsFlow (daaFlowOption increment).toList))))))
  | .return_ _ value => .stmtOnly (.seq (exprsFlow (daaFlowOption value).toList) .exit)
  | .break_ .. | .continue_ .. => .stmtOnly .exit

def daaFlowAll : List AstNode → List DaaFlow
  | [] => []
  | node :: nodes => daaFlow node :: daaFlowAll nodes

def daaFlowOption : Option AstNode → Option DaaFlow
  | none => none
  | some node => some (daaFlow node)

end

@[simp] theorem daaFlowAll_eq (nodes : List AstNode) : daaFlowAll nodes = nodes.map daaFlow := by
  induction nodes with
  | nil => rfl
  | cons node nodes ih => rw [daaFlowAll, ih, List.map_cons]

@[simp] theorem daaFlowOption_eq (node : Option AstNode) :
    daaFlowOption node = node.map daaFlow := by
  cases node <;> rfl

/-- The block body of a function, as `daaCheckFn` passes it. -/
def fnFlow (stmts : List AstNode) (value : Option AstNode) : Flow DaaAction :=
  .resume (blockFlow (stmts.map daaFlow) (value.map daaFlow))

/-- The top level, where the answer that a statement exits is not used. -/
def programFlow (program : List AstNode) : Flow DaaAction :=
  program.foldr (fun node rest => .seq (.resume (daaFlow node).asStmt) rest) .done

/-! ### The analysis as a forward walk -/

def daaDomain : Domain DaaAction DaaSet where
  act
    | .assign name, daa => daaSetRemove daa name
    | .declare name false, daa => daaSetAdd daa name
    | .read _, daa | .declare _ true, daa | .declareOther _, daa => daa
  join thenDaa elseDaa := daaSetUnionInto (daaSetUnionInto [] thenDaa) elseDaa
  leave _ inner := inner

/-- The report of an action, with the set before it. -/
def reportOf : DaaAction × DaaSet → Option (Token × Bytes)
  | (.read name, daa) => if daaSetContains daa name then some (name, notAssignedMessage name) else none
  | _ => none

/-- The reports of a walk, in order. -/
def reportsOf (seen : List (DaaAction × DaaSet)) : List (Token × Bytes) := seen.filterMap reportOf

/-- The walk of an expression, which never exits. -/
def FollowsExpr (check : DaaM Unit) (flow : Flow DaaAction) : Prop :=
  ∀ s : DaaState, (flow.run daaDomain s.daa).exits = false ∧
    check.run s = ((), ⟨(flow.run daaDomain s.daa).after,
      s.errors ++ reportsOf (flow.run daaDomain s.daa).seen⟩)

def FollowsStmt (check : DaaM Bool) (flow : Flow DaaAction) : Prop :=
  ∀ s : DaaState, check.run s = ((flow.run daaDomain s.daa).exits,
    ⟨(flow.run daaDomain s.daa).after, s.errors ++ reportsOf (flow.run daaDomain s.daa).seen⟩)

@[simp] theorem reportsOf_nil : reportsOf [] = [] := rfl

@[simp] theorem reportsOf_append (seen seen' : List (DaaAction × DaaSet)) :
    reportsOf (seen ++ seen') = reportsOf seen ++ reportsOf seen' := List.filterMap_append

namespace FollowsExpr

variable {check check' : DaaM Unit} {flow flow' : Flow DaaAction}

theorem done : FollowsExpr (pure ()) .done := fun s => ⟨rfl, by simp [Flow.run]; rfl⟩

theorem read (name : Token) : FollowsExpr (checkRead name) (.act (.read name)) := by
  intro s
  refine ⟨rfl, ?_⟩
  have hrun : (checkRead name).run s = ((), if daaSetContains s.daa name then
      { s with errors := s.errors ++ [(name, notAssignedMessage name)] } else s) := rfl
  rw [hrun]
  by_cases h : daaSetContains s.daa name = true
  · simp [Flow.run, daaDomain, reportsOf, reportOf, h]
  · simp [Flow.run, daaDomain, reportsOf, reportOf, h]

/-- An action that only changes the set. -/
theorem modify {action : DaaAction} {f : DaaSet → DaaSet}
    (hact : ∀ daa, daaDomain.act action daa = f daa)
    (hreport : ∀ daa, reportOf (action, daa) = none) :
    FollowsExpr (modify fun s => { s with daa := f s.daa }) (.act action) := by
  intro s
  refine ⟨rfl, ?_⟩
  simp only [Flow.run, hact, reportsOf, List.filterMap_cons, hreport, List.filterMap_nil,
    List.append_nil]
  rfl

theorem bind (h : FollowsExpr check flow) (h' : FollowsExpr check' flow') :
    FollowsExpr (do check; check') (.seq flow flow') := by
  intro s
  obtain ⟨hexits, hrun⟩ := h s
  obtain ⟨hexits', hrun'⟩ := h' ⟨(flow.run daaDomain s.daa).after,
    s.errors ++ reportsOf (flow.run daaDomain s.daa).seen⟩
  have hseq : (do check; check' : DaaM Unit).run s = check'.run (check.run s).2 := rfl
  rw [hseq, hrun]
  dsimp only at hrun' hexits' ⊢
  rw [hrun']
  simp [Flow.run, hexits, hexits', List.append_assoc]

theorem exprs {nodes : List AstNode}
    (h : ∀ node ∈ nodes, FollowsExpr (daaCheck node).asExpr (daaFlow node).asExpr) :
    FollowsExpr (daaCheckExprs (nodes.map daaCheck)) (exprsFlow (nodes.map daaFlow)) := by
  induction nodes with
  | nil => exact done
  | cons node nodes ih =>
    exact bind (h node List.mem_cons_self) (ih fun n hn => h n (List.mem_cons_of_mem _ hn))

theorem optionExpr {node : Option AstNode}
    (h : ∀ n ∈ node, FollowsExpr (daaCheck n).asExpr (daaFlow n).asExpr) :
    FollowsExpr (daaCheckOptionExpr (node.map daaCheck))
      (exprsFlow (node.map daaFlow).toList) := by
  cases node with
  | none => exact done
  | some node => exact bind (h node rfl) done

/-- What a loop's body does is forgotten. -/
theorem loop {body : DaaM Unit} (h : FollowsExpr body flow) :
    FollowsExpr (onClone body) (.loop flow) := by
  intro s
  refine ⟨rfl, ?_⟩
  have hclone : (onClone body).run s = ((), { (body.run s).2 with daa := s.daa }) := rfl
  rw [hclone, (h s).2]
  rfl

/-- An expression as a statement. -/
theorem stmt (h : FollowsExpr check flow) : FollowsStmt (do check; return false) flow := by
  intro s
  obtain ⟨hexits, hrun⟩ := h s
  have hseq : (do check; return false : DaaM Bool).run s = (false, (check.run s).2) := rfl
  rw [hseq, hrun, hexits]

end FollowsExpr

namespace FollowsStmt

variable {check check' : DaaM Bool} {flow flow' : Flow DaaAction}

theorem resume (h : FollowsStmt check flow) : FollowsExpr (discard check) (.resume flow) := by
  intro s
  refine ⟨rfl, ?_⟩
  have hseq : (discard check : DaaM Unit).run s = ((), (check.run s).2) := rfl
  rw [hseq, h s]
  rfl

/-- Scopes mean nothing to the analysis. -/
theorem inScope (h : FollowsStmt check flow) : FollowsStmt check (.inScope flow) := by
  intro s
  rw [h s]
  rfl

theorem exit : FollowsStmt (return true) .exit := fun s => by simp [Flow.run]; rfl

theorem done : FollowsStmt (return false) .done := fun s => by simp [Flow.run]; rfl

/-- An action that means nothing to the analysis. -/
theorem noChange {action : DaaAction} (hact : ∀ daa, daaDomain.act action daa = daa)
    (hreport : ∀ daa, reportOf (action, daa) = none) :
    FollowsStmt (return false) (.act action) := by
  intro s
  simp only [Flow.run, hact, reportsOf, List.filterMap_cons, hreport, List.filterMap_nil,
    List.append_nil]
  rfl

theorem seq {expr : DaaM Unit} (h : FollowsExpr expr flow) (h' : FollowsStmt check flow') :
    FollowsStmt (do expr; check) (.seq flow flow') := by
  intro s
  obtain ⟨hexits, hrun⟩ := h s
  have hrun' := h' ⟨(flow.run daaDomain s.daa).after,
    s.errors ++ reportsOf (flow.run daaDomain s.daa).seen⟩
  have hseq : (do expr; check : DaaM Bool).run s = check.run (expr.run s).2 := rfl
  rw [hseq, hrun]
  dsimp only at hrun' ⊢
  rw [hrun']
  simp [Flow.run, hexits, List.append_assoc]

/-- What follows a statement that exits is not walked. -/
theorem next (h : FollowsStmt check flow) (h' : FollowsStmt check' flow') :
    FollowsStmt (do if ← check then return true else check') (.seq flow flow') := by
  intro s
  have hrun' := h' ⟨(flow.run daaDomain s.daa).after,
    s.errors ++ reportsOf (flow.run daaDomain s.daa).seen⟩
  have hseq : (do if ← check then return true else check' : DaaM Bool).run s =
      (if (check.run s).1 then (return true : DaaM Bool) else check').run (check.run s).2 := rfl
  rw [hseq, h s]
  cases hexits : (flow.run daaDomain s.daa).exits with
  | true =>
    simp [Flow.run, hexits]
    rfl
  | false =>
    dsimp only at hrun' ⊢
    simp [Flow.run, hexits, hrun', List.append_assoc]

theorem stmts {nodes : List AstNode}
    (h : ∀ node ∈ nodes, FollowsStmt (daaCheck node).asStmt (daaFlow node).asStmt) :
    FollowsStmt (daaCheckStmts (nodes.map daaCheck)) (stmtsFlow (nodes.map daaFlow)) := by
  induction nodes with
  | nil => exact done
  | cons node nodes ih =>
    exact next (h node List.mem_cons_self) (ih fun n hn => h n (List.mem_cons_of_mem _ hn))

theorem optionStmt {node : Option AstNode}
    (h : ∀ n ∈ node, FollowsStmt (daaCheck n).asStmt (daaFlow n).asStmt) :
    FollowsStmt (daaCheckOptionStmt (node.map daaCheck))
      (optionStmtFlow (node.map daaFlow)) := by
  cases node with
  | none => exact done
  | some node => exact h node rfl

theorem block {stmts : List AstNode} {value : Option AstNode}
    (h : ∀ node ∈ stmts, FollowsStmt (daaCheck node).asStmt (daaFlow node).asStmt)
    (hvalue : ∀ node ∈ value, FollowsExpr (daaCheck node).asExpr (daaFlow node).asExpr) :
    FollowsStmt (daaCheckAssignmentBlock (stmts.map daaCheck) (value.map daaCheck))
      (blockFlow (stmts.map daaFlow) (value.map daaFlow)) := by
  exact next (FollowsStmt.stmts h) (FollowsExpr.optionExpr hvalue).stmt

theorem if_ {condition thenBranch : DaaCheck} {elseBranch : Option DaaCheck}
    {conditionFlow thenFlow elseFlow : Flow DaaAction}
    (hcondition : FollowsExpr condition.asExpr conditionFlow)
    (hthen : FollowsStmt thenBranch.asStmt thenFlow)
    (helse : FollowsStmt (daaCheckOptionStmt elseBranch) elseFlow) :
    FollowsStmt (daaCheckIf condition thenBranch elseBranch)
      (.seq conditionFlow (.branch (.inScope thenFlow) (.inScope elseFlow))) := by
  intro s
  obtain ⟨hexits, hrun⟩ := hcondition s
  have hstart : (condition.asExpr.run s).2 = ⟨(conditionFlow.run daaDomain s.daa).after,
      s.errors ++ reportsOf (conditionFlow.run daaDomain s.daa).seen⟩ := by
    rw [hrun]
  have hthen' := hthen ⟨(conditionFlow.run daaDomain s.daa).after,
    s.errors ++ reportsOf (conditionFlow.run daaDomain s.daa).seen⟩
  rw [daaCheckIf_run hstart hthen' (helse _)]
  have hjoin : ∀ daa daa', daaDomain.join daa daa' = daaSetUnionInto (daaSetUnionInto [] daa) daa' :=
    fun _ _ => rfl
  have hleave : ∀ daa daa', daaDomain.leave daa daa' = daa' := fun _ _ => rfl
  simp only [Flow.run, hexits, joinAfter, hleave, hjoin]
  generalize (conditionFlow.run daaDomain s.daa).after = start
  cases (thenFlow.run daaDomain start).exits <;> cases (elseFlow.run daaDomain start).exits <;>
    simp [List.append_assoc]

end FollowsStmt

/-- Both ways of passing a node are followed. -/
def FollowsBoth (node : AstNode) : Prop :=
  FollowsExpr (daaCheck node).asExpr (daaFlow node).asExpr ∧
    FollowsStmt (daaCheck node).asStmt (daaFlow node).asStmt

theorem FollowsBoth.ofExpr {node : AstNode} {check : DaaM Unit} {flow : Flow DaaAction}
    (h : FollowsExpr check flow) (hcheck : daaCheck node = .ofExpr check)
    (hflow : daaFlow node = .ofExpr flow) : FollowsBoth node := by
  rw [FollowsBoth, hcheck, hflow]
  exact ⟨h, h.stmt⟩

theorem FollowsBoth.ofStmt {node : AstNode} {check : DaaM Bool} {flow : Flow DaaAction}
    (h : FollowsStmt check flow) (hcheck : daaCheck node = .ofStmt check)
    (hflow : daaFlow node = .ofStmt flow) : FollowsBoth node := by
  rw [FollowsBoth, hcheck, hflow]
  exact ⟨h.resume, h⟩

theorem FollowsBoth.stmtOnly {node : AstNode} {check : DaaM Bool} {flow : Flow DaaAction}
    (h : FollowsStmt check flow) (hcheck : daaCheck node = .stmtOnly check)
    (hflow : daaFlow node = .stmtOnly flow) : FollowsBoth node := by
  rw [FollowsBoth, hcheck, hflow]
  exact ⟨FollowsExpr.done, h⟩

/-- A function or a struct: only its name is declared. -/
theorem FollowsBoth.declares {node : AstNode} (name : Token)
    (hcheck : daaCheck node = .ofExpr (pure ()))
    (hflow : daaFlow node = ⟨.done, .act (.declareOther name)⟩) : FollowsBoth node := by
  rw [FollowsBoth, hcheck, hflow]
  exact ⟨FollowsExpr.done, FollowsStmt.noChange (fun _ => rfl) fun _ => rfl⟩

open FollowsExpr in
/-- The analysis passes every node as its flow says. -/
theorem daaCheck_follows (node : AstNode) : FollowsBoth node := by
  induction node using AstNode.childInduction with
  | step node ih =>
  have hexprs : ∀ nodes : List AstNode, (∀ n ∈ nodes, FollowsBoth n) →
      FollowsExpr (daaCheckExprs (nodes.map daaCheck)) (exprsFlow (nodes.map daaFlow)) :=
    fun nodes h => exprs fun n hn => (h n hn).1
  cases node with
  | literal | self_ | cast | impl | trait_ | typeAlias => exact .ofExpr done rfl rfl
  | struct_ line name genericParams fields endLine =>
    exact .declares name rfl rfl
  | function line fn stmts value exprBody =>
    by_cases hlambda : fn.isLambda = true
    · exact .ofExpr done rfl (by rw [daaFlow, if_pos hlambda])
    · exact .declares fn.name rfl (by rw [daaFlow, if_neg hlambda])
  | break_ | continue_ => exact .stmtOnly FollowsStmt.exit rfl rfl
  | variable_ line name => exact .ofExpr (read name) rfl rfl
  | assign line name value =>
    exact .ofExpr (bind (ih value List.mem_cons_self).1 (modify (fun _ => rfl) fun _ => rfl)) rfl rfl
  | unary line op a | grouping line a | get line a name => exact .ofExpr (hexprs [a] ih) rfl rfl
  | binary line op a b isStringConcat | and_ line a b | or_ line a b | nullish line a b
  | set line a name b | indexGet line a b bracket => exact .ofExpr (hexprs [a, b] ih) rfl rfl
  | indexSet line a b c bracket => exact .ofExpr (hexprs [a, b, c] ih) rfl rfl
  | call line callee paren args argUsesDisplay =>
    refine .ofExpr (hexprs (callee :: args) ih) ?_ ?_
    · exact daaCheck_call ..
    · simp [daaFlow]
  | structInit line name fieldNames items endLine | array line items isFixedSize
  | interpString line conversions items =>
    refine .ofExpr (hexprs items ih) ?_ ?_
    · first | exact daaCheck_structInit .. | exact daaCheck_array .. | exact daaCheck_interpString ..
    · simp [daaFlow]
  | if_ line condition thenBranch elseBranch =>
    have hcondition := ih condition (by simp [AstNode.children])
    have hthen := ih thenBranch (by simp [AstNode.children])
    have helse : FollowsStmt (daaCheckOptionStmt (elseBranch.map daaCheck))
        (optionStmtFlow (elseBranch.map daaFlow)) := FollowsStmt.optionStmt fun n hn =>
      (ih n (by simp [AstNode.children, Option.mem_def.mp hn])).2
    refine .ofStmt (FollowsStmt.if_ hcondition.1 hthen.2 helse) ?_ ?_
    · exact daaCheck_if ..
    · simp [daaFlow]
  | block line stmts value endLine =>
    have hblock : FollowsStmt (daaCheckAssignmentBlock (stmts.map daaCheck) (value.map daaCheck))
        (blockFlow (stmts.map daaFlow) (value.map daaFlow)) :=
      FollowsStmt.block (fun n hn => (ih n (List.mem_append_left _ hn)).2) fun n hn =>
        (ih n (List.mem_append_right _ (Option.mem_toList.mpr hn))).1
    refine .ofStmt hblock.inScope ?_ ?_
    · exact daaCheck_block ..
    · simp [daaFlow]
  | exprStmt line expr =>
    exact .stmtOnly (ih expr List.mem_cons_self).1.stmt rfl rfl
  | varDecl line decl initializer =>
    cases initializer with
    | none =>
      have hdeclare := (@modify (.declare decl.name false) (fun daa => daaSetAdd daa decl.name)
        (fun _ => rfl) fun _ => rfl).stmt
      exact .stmtOnly (FollowsStmt.seq done hdeclare) rfl rfl
    | some initializer =>
      have hinitializer := bind (ih initializer List.mem_cons_self).1 done
      exact .stmtOnly (FollowsStmt.seq hinitializer
        (FollowsStmt.noChange (fun _ => rfl) fun _ => rfl)) rfl rfl
  | while_ line condition body =>
    have hcondition := ih condition (by simp [AstNode.children])
    have hbody := ih body (by simp [AstNode.children])
    exact .stmtOnly (FollowsStmt.seq hcondition.1 (loop hbody.2.resume).stmt) rfl rfl
  | for_ line init condition increment body =>
    have hinit : ∀ n ∈ init, FollowsStmt (daaCheck n).asStmt (daaFlow n).asStmt := fun n hn =>
      (ih n (by simp [AstNode.children, Option.mem_def.mp hn])).2
    have hcondition := ih condition (by simp [AstNode.children])
    have hbody := ih body (by simp [AstNode.children])
    have hincrement : FollowsExpr (daaCheckOptionExpr (increment.map daaCheck))
        (exprsFlow (increment.map daaFlow).toList) := optionExpr fun n hn =>
      (ih n (by simp [AstNode.children, Option.mem_def.mp hn])).1
    refine .stmtOnly (FollowsStmt.seq (FollowsStmt.optionStmt hinit).resume
      (FollowsStmt.seq hcondition.1 (loop (bind hbody.2.resume hincrement)).stmt)).inScope ?_ ?_
    · exact daaCheck_for ..
    · simp [daaFlow]
  | return_ line value =>
    have hvalue : FollowsExpr (daaCheckOptionExpr (value.map daaCheck))
        (exprsFlow (value.map daaFlow).toList) := optionExpr fun n hn =>
      (ih n (by simp [AstNode.children, Option.mem_def.mp hn])).1
    refine .stmtOnly (FollowsStmt.seq hvalue FollowsStmt.exit) ?_ ?_
    · exact daaCheck_return ..
    · simp [daaFlow]

theorem daaCheckFn_follows (stmts : List AstNode) (value : Option AstNode) :
    FollowsExpr (daaCheckFn stmts value none) (fnFlow stmts value) :=
  (FollowsStmt.block (fun node _ => (daaCheck_follows node).2) fun node _ =>
    (daaCheck_follows node).1).resume

theorem daaCheckProgram_follows (program : List AstNode) :
    FollowsExpr (daaCheckProgram program) (programFlow program) := by
  induction program with
  | nil => exact FollowsExpr.done
  | cons node program ih => exact FollowsExpr.bind (daaCheck_follows node).2.resume ih

end KirbyLang
