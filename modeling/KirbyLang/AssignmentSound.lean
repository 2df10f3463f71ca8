import KirbyLang.AssignmentWalk

/-!
# No read before an assignment

The set of the walk covers every variable that still waits for a value (`Env.Covers`). Every step
of a strict run keeps this, so a walk that reports nothing leaves no read of an unassigned
variable.
-/

namespace KirbyLang

/-! ### Environments -/

namespace Env

theorem Improved.refl (env : Env) : env.Improved env := by
  unfold Improved
  exact List.forall₂_same.mpr fun _ _ => ⟨rfl, rfl, id⟩

theorem Improved.trans {a b c : Env} (hab : a.Improved b) (hbc : b.Improved c) : a.Improved c := by
  unfold Improved at *
  induction hab generalizing c with
  | nil => exact hbc
  | cons h _ ih =>
    cases hbc with
    | cons h' hrest =>
      exact .cons ⟨h.1.trans h'.1, h.2.1.trans h'.2.1, fun ha => h'.2.2 (h.2.2 ha)⟩ (ih hrest)

theorem Improved.length_eq {a b : Env} (h : a.Improved b) : a.length = b.length :=
  List.Forall₂.length_eq h

theorem Improved.drop {a b : Env} (h : a.Improved b) (n : ℕ) : Improved (a.drop n) (b.drop n) :=
  List.forall₂_drop n h

@[simp] theorem leave_self (env : Env) : env.leave env = env := by
  simp [leave]

theorem leave_cons (env : Env) (b : Binding) : env.leave (b :: env) = env := by
  simp [leave]

theorem Improved.leave_eq {a b : Env} (h : a.Improved b) : a.leave b = b := by
  simp [leave, h.length_eq]

theorem Improved.grows {a b : Env} (h : a.Improved b) : a.Grows b :=
  ⟨h.length_eq.le, by rwa [h.leave_eq]⟩

theorem Grows.refl (env : Env) : env.Grows env := (Improved.refl env).grows

theorem Grows.trans {a b c : Env} (hab : a.Grows b) (hbc : b.Grows c) : a.Grows c := by
  obtain ⟨hlen, himp⟩ := hab
  obtain ⟨hlen', himp'⟩ := hbc
  refine ⟨hlen.trans hlen', himp.trans ?_⟩
  have h := himp'.drop (b.length - a.length)
  rw [leave, List.drop_drop] at h
  have hsum : c.length - b.length + (b.length - a.length) = c.length - a.length := by omega
  rwa [hsum] at h

theorem Grows.cons (env : Env) (b : Binding) : env.Grows (b :: env) :=
  ⟨by simp, by rw [leave_cons]; exact Improved.refl env⟩

/-- Leaving the scopes that were opened gives the old variables back. -/
theorem Grows.leave {a b : Env} (h : a.Grows b) : a.Improved (a.leave b) := h.2

theorem assign_improved (env : Env) (name : Token) : env.Improved (env.assign name) := by
  induction env with
  | nil => exact Improved.refl []
  | cons b env ih =>
    unfold assign
    split
    · exact .cons ⟨rfl, rfl, fun _ => rfl⟩ (Improved.refl env)
    · exact .cons ⟨rfl, rfl, id⟩ ih

/-- Every variable that waits for a value is in the set. -/
def Covers (env : Env) (daa : DaaSet) : Prop :=
  ∀ b ∈ env, b.assigned = false → daaSetContains daa b.name = true

theorem Covers.improved {a b : Env} {daa : DaaSet} (h : a.Covers daa) (himp : a.Improved b) :
    b.Covers daa := by
  unfold Improved at himp
  induction himp with
  | nil => exact h
  | @cons x y xs ys hxy hrest ih =>
    intro z hz hunassigned
    rcases List.mem_cons.mp hz with rfl | hz
    · rw [← hxy.1]
      refine h x List.mem_cons_self ?_
      by_contra hx
      rw [Bool.not_eq_false] at hx
      rw [hxy.2.2 hx] at hunassigned
      cases hunassigned
    · exact ih (fun w hw => h w (List.mem_cons_of_mem _ hw)) z hz hunassigned

theorem Covers.leave {a b : Env} {daa : DaaSet} (h : b.Covers daa) : (a.leave b).Covers daa :=
  fun x hx => h x (List.mem_of_mem_drop hx)

theorem covers_unassigned (env : Env) : env.Covers env.unassigned := by
  intro b hb hunassigned
  rw [daaSetContains_iff]
  exact ⟨b.name, by simp only [unassigned, List.mem_map, List.mem_filter]; exact
    ⟨b, ⟨hb, by simp [hunassigned]⟩, rfl⟩, rfl⟩

theorem Covers.cons_assigned {env : Env} {daa : DaaSet} {name : Token} {top : Bool}
    (h : env.Covers daa) : Covers (⟨name, true, top⟩ :: env) daa := by
  intro b hb hunassigned
  rcases List.mem_cons.mp hb with rfl | hb
  · cases hunassigned
  · exact h b hb hunassigned

/-- What a body starts with waits only where its caller's top-level variables do. -/
theorem covers_start (params : List Token) (env globals : Env) :
    Covers (ofParams params ++ env.captured ++ globals) globals.unassigned := by
  intro b hb hunassigned
  rcases List.mem_append.mp hb with hb | hb
  · exfalso
    rcases List.mem_append.mp hb with hb | hb
    · obtain ⟨name, -, rfl⟩ := List.mem_map.mp hb
      cases hunassigned
    · obtain ⟨outer, -, rfl⟩ := List.mem_map.mp hb
      cases hunassigned
  · exact covers_unassigned globals b hb hunassigned

theorem lookup_mem {env : Env} {name : Token} {b : Binding} (h : env.lookup name = some b) :
    b ∈ env ∧ name.text = b.name.text := by
  have hname := List.find?_some h
  exact ⟨List.mem_of_find?_eq_some h, tokensEqual_iff.mp hname⟩

end Env

/-! ### What a run does to the variables in scope -/

/-- A part of a body that declares nothing for what follows it. -/
def Code.IsScoped : Code → Prop
  | .node mode _ | .seq mode _ => mode = .expr
  | .body .. => False
  | .forLoop .. => True

/-- The variables in scope afterwards are those from before, under new ones unless the part is
`closed`. -/
def Outcome.GrownFrom (env : Env) (closed : Prop) : Outcome → Prop
  | .normal env' => env.Grows env' ∧ (closed → env.Improved env')
  | .exit _ env' => env.Grows env'
  | _ => True

namespace Outcome.GrownFrom

variable {env env' : Env} {closed closed' : Prop} {outcome : Outcome}

theorem of_stops (h : outcome.GrownFrom env closed) (hstops : outcome.Stops) :
    outcome.GrownFrom env closed' := by
  cases outcome with
  | normal env' => exact hstops.elim
  | exit how env' => exact h
  | _ => trivial

theorem weaken (h : outcome.GrownFrom env closed) (hclosed : closed' → closed) :
    outcome.GrownFrom env closed' := by
  cases outcome with
  | normal env' => exact ⟨h.1, fun hs => h.2 (hclosed hs)⟩
  | exit how env' => exact h
  | _ => trivial

theorem after (hgrows : env.Grows env') (himproved : closed → env.Improved env')
    (h : outcome.GrownFrom env' closed) : outcome.GrownFrom env closed := by
  cases outcome with
  | normal env'' => exact ⟨hgrows.trans h.1, fun hs => (himproved hs).trans (h.2 hs)⟩
  | exit how env'' => exact hgrows.trans h
  | _ => trivial

/-- Nothing declared inside is left when its scope is. -/
theorem leave (hgrows : env.Grows env') (h : outcome.GrownFrom env' closed') :
    (outcome.leave env).GrownFrom env closed := by
  cases outcome with
  | normal env'' =>
    have himproved := (hgrows.trans h.1).leave
    exact ⟨himproved.grows, fun _ => himproved⟩
  | exit how env'' => exact (hgrows.trans h).leave.grows
  | _ => trivial

theorem of_improved (h : env.Improved env') : (Outcome.normal env').GrownFrom env closed :=
  ⟨h.grows, fun _ => h⟩

end Outcome.GrownFrom

/-- However the body of a loop ended a turn, the next one starts with the variables of the loop. -/
theorem Outcome.Continues.improved {env env' : Env} {closed : Prop} {turn : Outcome}
    (h : turn.Continues env') (hturn : turn.GrownFrom env closed) :
    env.Improved (env.leave env') := by
  rcases h with rfl | rfl
  · exact hturn.1.leave
  · exact Env.Grows.leave hturn

open Outcome.GrownFrom in
theorem Runs.grown {strict : Bool} {code : Code} {env : Env} {outcome : Outcome}
    (h : Runs strict code env outcome) : outcome.GrownFrom env code.IsScoped := by
  induction h with
  | improve _ himproved ih =>
    exact ⟨ih.1.trans himproved.grows, fun hs => (ih.2 hs).trans himproved⟩
  | seq_nil => exact of_improved (Env.Improved.refl _)
  | seq_cons _ _ ihnode ihnodes => exact after ihnode.1 ihnode.2 ihnodes
  | seq_stop _ hstops ih => exact of_stops ih hstops
  | body _ _ ihstmts ihvalue =>
    exact after ihstmts.1 (fun hs => hs.elim) (ihvalue.weaken fun hs => hs.elim)
  | body_stop _ hstops ih => exact of_stops ih hstops
  | read => exact of_improved (Env.Improved.refl _)
  | read_bad | structInit_bad | call_begins | display_begins | lambda_made | function_made
  | method_made => trivial
  | assign _ _ ih =>
    exact of_improved ((ih.2 rfl).trans (Env.assign_improved _ _))
  | assign_stop _ hstops ih => exact of_stops ih hstops
  | operands _ _ ih => exact ih
  | structInit _ _ ih => exact ih
  | cast _ _ ih => exact ih
  | logical_right _ _ _ ihleft ihright => exact after ihleft.1 ihleft.2 ihright
  | logical_skip _ _ _ ih => exact ih
  | logical_stop _ _ hstops ih => exact of_stops ih hstops
  | if_stop _ hstops ih => exact of_stops ih hstops
  | if_then _ _ ihcondition ihthen => exact leave ihcondition.1 ihthen
  | if_else _ _ ihcondition ihelse => exact leave ihcondition.1 ihelse
  | if_none _ ih => exact of_improved (ih.2 rfl)
  | block _ ih => exact leave (Env.Grows.refl _) ih
  | exprStmt _ ih => exact ih.weaken fun _ => rfl
  | varDecl => exact ⟨Env.Grows.cons _ _, fun hs => nomatch hs⟩
  | varDecl_init _ ih => exact ⟨ih.1.trans (Env.Grows.cons _ _), fun hs => nomatch hs⟩
  | varDecl_stop _ hstops ih => exact of_stops ih hstops
  | declaration => exact ⟨Env.Grows.cons _ _, fun hs => nomatch hs⟩
  | impl => exact of_improved (Env.Improved.refl _)
  | trait_ => exact of_improved (Env.Improved.refl _)
  | typeAlias => exact of_improved (Env.Improved.refl _)
  | return_ _ ih => exact ih.1
  | return_stop _ hstops ih => exact of_stops ih hstops
  | break_ => exact Env.Grows.refl _
  | continue_ => exact Env.Grows.refl _
  | while_stop _ hstops ih => exact of_stops ih hstops
  | while_done _ ih => exact of_improved (ih.2 rfl)
  | while_next _ _ hturn _ ihcondition ihbody ihrest =>
    have himproved := (ihcondition.2 rfl).trans (hturn.improved ihbody)
    exact after himproved.grows (fun _ => himproved) ihrest
  | while_break _ _ ihcondition ihbody =>
    exact of_improved ((ihcondition.2 rfl).trans (Env.Grows.leave ihbody))
  | while_leave _ _ _ ihcondition ihbody =>
    exact after ihcondition.1 (fun _ => ihcondition.2 rfl) (leave (Env.Grows.refl _) ihbody)
  | for_ _ _ ihinit ihloop => exact leave ihinit.1 ihloop
  | for_stop _ hstops ih => exact of_stops ih hstops
  | loop_stop _ hstops ih => exact of_stops ih hstops
  | loop_done _ ih => exact of_improved (ih.2 rfl)
  | loop_next _ _ hturn _ _ _ ihcondition ihbody ihincrement ihrest =>
    have himproved := ((ihcondition.2 rfl).trans (hturn.improved ihbody)).trans
      (ihincrement.2 rfl)
    exact after himproved.grows (fun _ => himproved) ihrest
  | loop_increment_stop _ _ hturn _ _ hstops ihcondition ihbody ihincrement =>
    have himproved := (ihcondition.2 rfl).trans (hturn.improved ihbody)
    exact after himproved.grows (fun _ => himproved) (of_stops ihincrement hstops)
  | loop_break _ _ ihcondition ihbody =>
    exact of_improved ((ihcondition.2 rfl).trans (Env.Grows.leave ihbody))
  | loop_leave _ _ _ ihcondition ihbody =>
    exact after ihcondition.1 (fun _ => ihcondition.2 rfl) (leave (Env.Grows.refl _) ihbody)
  | default _ _ ih => exact ih.weaken fun _ => rfl

/-! ### What a run has to do with a walk -/

/-- How a part of a body is walked. -/
def Code.walk : Code → DaaM Bool
  | .node _ ast => (daaCheck ast).asStmt
  | .seq (.stmt _) nodes => daaCheckStmts (nodes.map daaCheck)
  | .seq .expr nodes => do
    daaCheckExprs (nodes.map daaCheck)
    return false
  | .body stmts value => daaCheckAssignmentBlock (stmts.map daaCheck) (value.map daaCheck)
  | .forLoop condition increment loopBody => do
    (daaCheck condition).asExpr
    onClone do
      discard (daaCheck loopBody).asStmt
      daaCheckOptionExpr (increment.map daaCheck)
    return false

/-- A walk with this answer and this set says the truth about a run. -/
def Outcome.Seen (exits : Bool) (daa : DaaSet) : Outcome → Prop
  | .normal env => exits = false ∧ env.Covers daa
  | .bad => False
  | _ => True

namespace Outcome.Seen

variable {exits exits' : Bool} {daa daa' : DaaSet} {outcome : Outcome}

theorem of_stops (h : outcome.Seen exits daa) (hstops : outcome.Stops) :
    outcome.Seen exits' daa' := by
  cases outcome with
  | normal env => exact hstops.elim
  | bad => exact h
  | _ => trivial

theorem leave (env : Env) (h : outcome.Seen exits daa) : (outcome.leave env).Seen exits daa := by
  cases outcome with
  | normal env' => exact ⟨h.1, h.2.leave⟩
  | bad => exact h
  | _ => trivial

theorem join (h : outcome.Seen exits daa)
    (hjoin : exits = false → exits' = false ∧
      ∀ n, daaSetContains daa n = true → daaSetContains daa' n = true) :
    outcome.Seen exits' daa' := by
  cases outcome with
  | normal env =>
    obtain ⟨hexits, hkept⟩ := hjoin h.1
    exact ⟨hexits, fun b hb hunassigned => hkept b.name (h.2 b hb hunassigned)⟩
  | bad => exact h
  | _ => trivial

theorem leavesLoop {env : Env} (h : outcome.Seen exits daa) (hleaves : outcome.LeavesLoop) :
    (outcome.leave env).Seen exits' daa' := by
  cases outcome with
  | normal env' => exact hleaves.elim
  | bad => exact h
  | _ => trivial

end Outcome.Seen

/-- A node that runs as an expression is walked the same way as an expression and as a statement. -/
theorem Runs.asExpr_eq {strict : Bool} {node : AstNode} {env : Env} {outcome : Outcome}
    (h : Runs strict (.node .expr node) env outcome) :
    (daaCheck node).asExpr = discard (daaCheck node).asStmt := by
  generalize hcode : Code.node .expr node = code at h
  induction h with
  | improve _ _ ih => exact ih hcode
  | operands hnode =>
    obtain ⟨-, rfl⟩ := Code.node.inj hcode
    cases node <;> first | rfl | cases hnode
  | logical_right hnode | logical_skip hnode | logical_stop hnode =>
    obtain ⟨-, rfl⟩ := Code.node.inj hcode
    cases node <;> first | rfl | cases hnode
  | _ => cases hcode <;> rfl

theorem operands_walk {node : AstNode} {nodes : List AstNode} (h : node.operands = some nodes) :
    (daaCheck node).asStmt = (Code.seq .expr nodes).walk := by
  cases node <;> simp only [AstNode.operands, Option.some.injEq, reduceCtorEq] at h
  case call | array | interpString =>
    subst h
    simp only [daaCheck_call, daaCheck_array, daaCheck_interpString, DaaCheck.ofExpr, Code.walk]
  case function =>
    split at h
    · cases h
      rfl
    · cases h
  all_goals
    subst h
    rfl

theorem shortCircuit_walk {node left right : AstNode}
    (h : node.shortCircuit = some (left, right)) :
    (daaCheck node).asStmt = (Code.seq .expr [left, right]).walk := by
  cases node <;> cases h <;> rfl

theorem walks_seq_expr {nodes : List AstNode} {daa daa' : DaaSet} {exits : Bool} :
    Walks (Code.seq .expr nodes).walk daa exits daa' ↔
      exits = false ∧ Walks (daaCheckExprs (nodes.map daaCheck)) daa () daa' := by
  constructor
  · intro h
    obtain ⟨_, hwalk, rfl⟩ := Walks.then_pure h
    exact ⟨rfl, hwalk⟩
  · rintro ⟨rfl, hwalk⟩
    exact Walks.bind_of hwalk (Walks.pure_iff.mpr ⟨rfl, rfl⟩)

/-- Every walk that covers the variables in scope says the truth about the run. -/
def Code.SeenBy (code : Code) (env : Env) (outcome : Outcome) : Prop :=
  ∀ daa exits daa', env.Covers daa → Walks code.walk daa exits daa' → outcome.Seen exits daa'

section Steps

variable {code : Code} {env env' : Env} {outcome : Outcome} {daa daa' : DaaSet} {exits : Bool}

/-- What the walk of an expression says about its run. -/
theorem seen_expr {expr : AstNode} (hrun : Runs true (.node .expr expr) env outcome)
    (h : (Code.node .expr expr).SeenBy env outcome) (hcovers : env.Covers daa)
    (hwalk : Walks (daaCheck expr).asExpr daa () daa') : outcome.Seen false daa' := by
  rw [hrun.asExpr_eq] at hwalk
  obtain ⟨exits, hwalk⟩ := hwalk.discard
  have hseen := h daa exits daa' hcovers hwalk
  cases outcome with
  | normal env' => exact ⟨rfl, hseen.2⟩
  | bad => exact hseen
  | _ => trivial

theorem seen_exprs {nodes : List AstNode} (h : (Code.seq .expr nodes).SeenBy env outcome)
    (hcovers : env.Covers daa)
    (hwalk : Walks (daaCheckExprs (nodes.map daaCheck)) daa () daa') : outcome.Seen false daa' :=
  h daa false daa' hcovers (walks_seq_expr.mpr ⟨rfl, hwalk⟩)

/-- What the walk of an expression statement says about its run. -/
theorem seen_exprStmt {expr : AstNode} (hrun : Runs true (.node .expr expr) env outcome)
    (h : (Code.node .expr expr).SeenBy env outcome) (hcovers : env.Covers daa)
    (hwalk : Walks (do (daaCheck expr).asExpr; return false) daa exits daa') :
    outcome.Seen exits daa' := by
  obtain ⟨_, hexpr, rfl⟩ := Walks.then_pure hwalk
  exact seen_expr hrun h hcovers hexpr

/-- A read of a variable that waits for a value is reported. -/
theorem not_walks_read {name : Token} {b : Binding} (hlookup : env.lookup name = some b)
    (hb : b.assigned = false) (hcovers : env.Covers daa) :
    ¬ Walks (checkRead name) daa () daa' := by
  intro hwalk
  obtain ⟨hmem, hname⟩ := Env.lookup_mem hlookup
  -- the set holds the name, so the checker reports it, and a silent walk reports nothing
  have hin := hcovers b hmem hb
  have hname' : daaSetContains daa name = true := by
    rw [daaSetContains_iff] at hin ⊢
    rwa [hname]
  have hrun : ((checkRead name).run { daa }).2 =
      { daa, errors := [(name, notAssignedMessage name)] } := by
    show (if daaSetContains daa name then _ else _ : DaaState) = _
    rw [if_pos hname']
    rfl
  have herrors := congrArg DaaState.errors (Prod.ext_iff.mp hwalk).2
  rw [hrun] at herrors
  cases herrors

theorem walks_read {name : Token} (hwalk : Walks (checkRead name) daa () daa') : daa' = daa := by
  have hrun : ((checkRead name).run { daa }).2.daa = daa := by
    show (if daaSetContains daa name then _ else _ : DaaState).daa = _
    split <;> rfl
  rw [hwalk] at hrun
  exact hrun

theorem walks_assign {line : ℤ} {name : Token} {value : AstNode}
    (hwalk : Walks (daaCheck (.assign line name value)).asStmt daa exits daa') :
    ∃ daa₁, Walks (daaCheck value).asExpr daa () daa₁ ∧ exits = false ∧
      daa' = daaSetRemove daa₁ name := by
  obtain ⟨_, hassign, rfl⟩ := Walks.then_pure hwalk
  obtain ⟨_, daa₁, hvalue, hremove⟩ :=
    Walks.bind (fun _ _ => ⟨List.prefix_rfl, fun _ hn => hn.elim⟩) hassign
  cases hremove
  exact ⟨daa₁, hvalue, rfl, rfl⟩

theorem walks_if {line : ℤ} {condition thenBranch : AstNode} {elseBranch : Option AstNode}
    (hwalk : Walks (daaCheck (.if_ line condition thenBranch elseBranch)).asStmt daa exits daa') :
    ∃ start thenExits thenEnd elseExits elseEnd,
      Walks (daaCheck condition).asExpr daa () start ∧
      Walks (daaCheck thenBranch).asStmt start thenExits thenEnd ∧
      Walks (daaCheckOptionStmt (elseBranch.map daaCheck)) start elseExits elseEnd ∧
      (thenExits = false → exits = false ∧
        ∀ n, daaSetContains thenEnd n = true → daaSetContains daa' n = true) ∧
      (elseExits = false → exits = false ∧
        ∀ n, daaSetContains elseEnd n = true → daaSetContains daa' n = true) := by
  rw [daaCheck_if] at hwalk
  exact Walks.if_ hwalk

theorem walks_return {line : ℤ} {value : Option AstNode}
    (hwalk : Walks (daaCheck (.return_ line value)).asStmt daa exits daa') :
    Walks (daaCheckExprs (value.toList.map daaCheck)) daa () daa' := by
  obtain ⟨_, hvalue, rfl⟩ := Walks.then_pure hwalk
  cases value <;> exact hvalue

theorem walks_while {line : ℤ} {condition body : AstNode}
    (hwalk : Walks (daaCheck (.while_ line condition body)).asStmt daa exits daa') :
    ∃ daa₁, Walks (daaCheck condition).asExpr daa () daa₁ ∧
      (∃ y daa₂, Walks (daaCheck body).asStmt daa₁ y daa₂) ∧ exits = false ∧ daa' = daa₁ := by
  have hbodyReports := reports_rules.clone (reports_rules.discard (daaCheck_reports body).2)
  obtain ⟨_, daa₁, hcondition, hrest⟩ :=
    Walks.bind (fun _ => reports_rules.bind hbodyReports fun _ => reports_rules.pure_ _) hwalk
  obtain ⟨_, hclone, rfl⟩ := Walks.then_pure hrest
  obtain ⟨⟨daa₂, hbody⟩, rfl⟩ := hclone.clone
  obtain ⟨y, hbody⟩ := hbody.discard
  exact ⟨_, hcondition, ⟨y, daa₂, hbody⟩, rfl, rfl⟩

theorem optionExpr_eq (node : Option AstNode) :
    daaCheckOptionExpr (node.map daaCheck) = daaCheckExprs (node.toList.map daaCheck) := by
  cases node <;> rfl

/-- One turn of a `for` loop takes no report back. -/
theorem turn_reports (body : AstNode) (increment : Option AstNode) :
    Reports (onClone do
      discard (daaCheck body).asStmt
      daaCheckOptionExpr (increment.map daaCheck)) := by
  rw [optionExpr_eq]
  exact reports_rules.clone
    (reports_rules.bind (reports_rules.discard (daaCheck_reports body).2) fun _ => exprs_reports _)

theorem walks_forLoop {condition body : AstNode} {increment : Option AstNode}
    (hwalk : Walks (Code.forLoop condition increment body).walk daa exits daa') :
    ∃ daa₁, Walks (daaCheck condition).asExpr daa () daa₁ ∧
      (∃ y daa₂ daa₃, Walks (daaCheck body).asStmt daa₁ y daa₂ ∧
        Walks (daaCheckExprs (increment.toList.map daaCheck)) daa₂ () daa₃) ∧
      exits = false ∧ daa' = daa₁ := by
  obtain ⟨_, daa₁, hcondition, hrest⟩ := Walks.bind
    (fun _ => reports_rules.bind (turn_reports body increment) fun _ => reports_rules.pure_ _) hwalk
  obtain ⟨_, hclone, rfl⟩ := Walks.then_pure hrest
  obtain ⟨⟨daa₃, hturn⟩, rfl⟩ := hclone.clone
  rw [optionExpr_eq] at hturn
  obtain ⟨_, daa₂, hbody, hincrement⟩ := Walks.bind (fun _ => exprs_reports _) hturn
  obtain ⟨y, hbody⟩ := hbody.discard
  exact ⟨_, hcondition, ⟨y, daa₂, daa₃, hbody, hincrement⟩, rfl, rfl⟩

theorem walks_for {line : ℤ} {init increment : Option AstNode} {condition body : AstNode}
    (hwalk : Walks (daaCheck (.for_ line init condition increment body)).asStmt daa exits daa') :
    ∃ y daa₁, Walks (daaCheckStmts (init.toList.map daaCheck)) daa y daa₁ ∧
      Walks (Code.forLoop condition increment body).walk daa₁ exits daa' := by
  rw [daaCheck_for] at hwalk
  have hloopReports : Reports (Code.forLoop condition increment body).walk :=
    reports_rules.bind (daaCheck_reports condition).1 fun _ =>
      reports_rules.bind (turn_reports body increment) fun _ => reports_rules.pure_ _
  obtain ⟨_, daa₁, hinit, hloop⟩ := Walks.bind (fun _ => hloopReports) hwalk
  obtain ⟨y, hinit⟩ := hinit.discard
  refine ⟨y, daa₁, ?_, hloop⟩
  cases init with
  | none => exact hinit
  | some init =>
    refine Walks.bind_of hinit ?_
    cases y <;> exact Walks.pure_iff.mpr ⟨rfl, rfl⟩

/-! ### Parts that the checker does not walk -/

theorem Code.Holds.of_walked {code : Code} {node inner : AstNode} (hnode : node ∈ code.nodes)
    (h : inner.Below AstNode.notWalked node) : code.Holds inner := by
  refine ⟨node, hnode, ?_⟩
  clear hnode
  induction h with
  | here => exact .here
  | @under parent child hparent hchild _ ih =>
    refine .under ?_ hchild ih
    cases parent <;> first | rfl | cases hparent

/-- What holds of the reads, the assignments and the declarations of a part of a body holds of its
walk. -/
theorem walk_rule {Q : {α : Type} → DaaM α → Prop} (rules : WalkRules Q) (code : Code)
    (hread : ∀ line name, code.Holds (.variable_ line name) → Q (checkRead name))
    (hremove : ∀ name, Q (removeName name))
    (hadd : ∀ line decl, code.Holds (.varDecl line decl none) → Q (addName decl.name)) :
    Q code.walk := by
  have hnode : ∀ node ∈ code.nodes, (daaCheck node).Both Q := fun node hnode =>
    daaCheck_rule rules node (fun line name h => hread line name (.of_walked hnode h))
      (fun _ name _ _ => hremove name) fun line decl h => hadd line decl (.of_walked hnode h)
  have hmap : ∀ nodes : List AstNode, (∀ node ∈ nodes, node ∈ code.nodes) →
      ∀ check ∈ nodes.map daaCheck, check.Both Q := by
    intro nodes hnodes check hcheck
    obtain ⟨node, hmem, rfl⟩ := List.mem_map.mp hcheck
    exact hnode node (hnodes node hmem)
  cases code with
  | node mode ast => exact (hnode ast List.mem_cons_self).2
  | seq mode nodes =>
    have hnodes := hmap nodes fun _ h => h
    cases mode with
    | expr => exact rules.bind (rules.exprs fun c hc => (hnodes c hc).1) fun _ => rules.pure_ _
    | stmt top => exact rules.stmts fun c hc => (hnodes c hc).2
  | body stmts value =>
    refine rules.block (fun c hc => (hmap stmts (fun _ h => ?_) c hc).2) fun c hc => ?_
    · exact List.mem_append_left _ h
    · obtain ⟨node, hmem, rfl⟩ := Option.mem_map.mp hc
      exact (hnode node (List.mem_append_right _ (Option.mem_toList.mpr hmem))).1
  | forLoop condition increment loopBody =>
    have hcondition := hnode condition (by simp [Code.nodes])
    have hbody := hnode loopBody (by simp [Code.nodes])
    have hincrement := hmap increment.toList fun node hmem => by simp [Code.nodes, hmem]
    rw [Code.walk, optionExpr_eq]
    exact rules.bind hcondition.1 fun _ => rules.bind (rules.clone (rules.bind
      (rules.discard hbody.2) fun _ => rules.exprs fun c hc => (hincrement c hc).1)) fun _ =>
        rules.pure_ _

theorem Code.DeclaresNone.silent {code : Code} (h : code.DeclaresNone) : Silent code.walk [] := by
  have hidle : Idle code.walk := by
    refine walk_rule idle_rules code (fun _ _ _ _ => rfl) (fun _ _ => rfl) fun line decl hholds => ?_
    cases h _ hholds
  exact congrArg DaaState.errors (hidle [])

/-- Names that are not read may wait. -/
theorem Code.Avoids.silent {code : Code} {names : List Token} (h : code.Avoids names)
    (hsilent : Silent code.walk []) : Silent code.walk names := by
  have hignores : Ignores names code.walk :=
    walk_rule (ignores_rules names) code
      (fun _ name hholds => ignores_read (h _ hholds name rfl)) (ignores_remove names)
      fun _ decl _ => ignores_add names decl.name
  -- the walks from no names and from these differ only in how often these names are in the set
  have halike : AlikeBut names ⟨[], []⟩ ⟨names, []⟩ := by
    refine ⟨rfl, fun n hn => ?_⟩
    have hnone : ¬ 0 < occurrences names n := fun hpos => by
      rw [daaSetContains_iff_occurrences.mpr hpos] at hn
      cases hn
    exact (Nat.eq_zero_of_not_pos hnone).symm
  exact (hignores _ _ halike).2.1.trans hsilent

theorem Code.Harmless.silent {code : Code} (h : code.Harmless env) :
    Silent code.walk env.unassigned := h.1.silent h.2.silent

/-! ### One construct after the other -/

section Constructs

variable {expr node condition thenBranch body left right : AstNode} {nodes stmts : List AstNode}
  {increment : Option AstNode} {turn : Outcome} {env'' : Env} {mode : Mode} {top : Bool} {line : ℤ}

theorem Code.SeenBy.improve (h : code.SeenBy env (.normal env')) (himproved : env'.Improved env'') :
    code.SeenBy env (.normal env'') := by
  intro daa exits daa' hcovers hwalk
  have hseen := h daa exits daa' hcovers hwalk
  exact ⟨hseen.1, hseen.2.improved himproved⟩

/-- What begins with an expression that stops is seen as the expression is. -/
theorem seen_stop (hrun : Runs true (.node .expr expr) env outcome)
    (h : (Code.node .expr expr).SeenBy env outcome) (hstops : outcome.Stops)
    (hfirst : ∀ daa exits daa', Walks code.walk daa exits daa' →
      ∃ daa₁, Walks (daaCheck expr).asExpr daa () daa₁) : code.SeenBy env outcome := by
  intro daa exits daa' hcovers hwalk
  obtain ⟨daa₁, hexpr⟩ := hfirst daa exits daa' hwalk
  exact (seen_expr hrun h hcovers hexpr).of_stops hstops

theorem seen_seq_nil : (Code.seq mode []).SeenBy env (.normal env) := by
  intro daa exits daa' hcovers hwalk
  cases mode <;> obtain ⟨rfl, rfl⟩ := Walks.pure_iff.mp hwalk <;> exact ⟨rfl, hcovers⟩

theorem seen_seq_cons (hrun : Runs true (.node mode node) env (.normal env'))
    (hnode : (Code.node mode node).SeenBy env (.normal env'))
    (hnodes : (Code.seq mode nodes).SeenBy env' outcome) :
    (Code.seq mode (node :: nodes)).SeenBy env outcome := by
  intro daa exits daa' hcovers hwalk
  cases mode with
  | stmt top =>
    obtain ⟨y, daa₁, hcheck, hrest⟩ := Walks.stmts_cons hwalk
    obtain ⟨rfl, hcovers⟩ := hnode daa y daa₁ hcovers hcheck
    rcases hrest with hexit | ⟨-, hrest⟩
    · cases hexit
    · exact hnodes daa₁ exits daa' hcovers hrest
  | expr =>
    obtain ⟨rfl, hexprs⟩ := walks_seq_expr.mp hwalk
    obtain ⟨daa₁, hcheck, hrest⟩ := Walks.exprs_cons hexprs
    obtain ⟨-, hcovers⟩ := seen_expr hrun hnode hcovers hcheck
    exact seen_exprs hnodes hcovers hrest

theorem seen_seq_stop (hrun : Runs true (.node mode node) env outcome)
    (hnode : (Code.node mode node).SeenBy env outcome) (hstops : outcome.Stops) :
    (Code.seq mode (node :: nodes)).SeenBy env outcome := by
  intro daa exits daa' hcovers hwalk
  cases mode with
  | stmt top =>
    obtain ⟨y, daa₁, hcheck, -⟩ := Walks.stmts_cons hwalk
    exact (hnode daa y daa₁ hcovers hcheck).of_stops hstops
  | expr =>
    obtain ⟨rfl, hexprs⟩ := walks_seq_expr.mp hwalk
    obtain ⟨daa₁, hcheck, -⟩ := Walks.exprs_cons hexprs
    exact (seen_expr hrun hnode hcovers hcheck).of_stops hstops

theorem seen_body {value : Option AstNode}
    (hstmts : (Code.seq (.stmt false) stmts).SeenBy env (.normal env'))
    (hvalue : (Code.seq .expr value.toList).SeenBy env' outcome) :
    (Code.body stmts value).SeenBy env outcome := by
  intro daa exits daa' hcovers hwalk
  obtain ⟨y, daa₁, hstmtsWalk, hrest⟩ := Walks.block hwalk
  obtain ⟨rfl, hcovers⟩ := hstmts daa y daa₁ hcovers hstmtsWalk
  rcases hrest with hexit | ⟨-, rfl, hvalueWalk⟩
  · -- statements that the checker takes to exit do not end normally
    cases hexit
  · exact seen_exprs hvalue hcovers hvalueWalk

theorem seen_body_stop {value : Option AstNode}
    (hstmts : (Code.seq (.stmt false) stmts).SeenBy env outcome) (hstops : outcome.Stops) :
    (Code.body stmts value).SeenBy env outcome := by
  intro daa exits daa' hcovers hwalk
  obtain ⟨y, daa₁, hstmtsWalk, -⟩ := Walks.block hwalk
  exact (hstmts daa y daa₁ hcovers hstmtsWalk).of_stops hstops

theorem seen_read {name : Token} :
    (Code.node .expr (.variable_ line name)).SeenBy env (.normal env) := by
  intro daa exits daa' hcovers hwalk
  obtain ⟨_, hread, rfl⟩ := Walks.then_pure hwalk
  exact ⟨rfl, walks_read hread ▸ hcovers⟩

theorem seen_read_bad {name : Token} {b : Binding} (hlookup : env.lookup name = some b)
    (hb : b.assigned = false) : (Code.node .expr (.variable_ line name)).SeenBy env .bad := by
  intro daa exits daa' hcovers hwalk
  obtain ⟨_, hread, rfl⟩ := Walks.then_pure hwalk
  exact not_walks_read hlookup hb hcovers hread

theorem seen_assign {name : Token} (hrun : Runs true (.node .expr expr) env (.normal env'))
    (h : (Code.node .expr expr).SeenBy env (.normal env'))
    (hothers : ∀ b ∈ env'.assign name, tokensEqual name b.name = true → b.assigned = true) :
    (Code.node .expr (.assign line name expr)).SeenBy env (.normal (env'.assign name)) := by
  intro daa exits daa' hcovers hwalk
  obtain ⟨daa₁, hvalueWalk, rfl, rfl⟩ := walks_assign hwalk
  obtain ⟨-, hcovers⟩ := seen_expr hrun h hcovers hvalueWalk
  refine ⟨rfl, fun b hb hunassigned => ?_⟩
  -- a variable that still waits has another name than the one taken out of the set
  have hin := hcovers.improved (Env.assign_improved _ _) b hb hunassigned
  refine daaSetContains_remove (fun hname => ?_) hin
  rw [hothers b hb (tokensEqual_iff.mpr hname)] at hunassigned
  cases hunassigned

theorem seen_operands (hnode : node.operands = some nodes)
    (h : (Code.seq .expr nodes).SeenBy env outcome) : (Code.node .expr node).SeenBy env outcome := by
  intro daa exits daa' hcovers hwalk
  rw [Code.walk, operands_walk hnode] at hwalk
  exact h daa exits daa' hcovers hwalk

theorem seen_structInit {name : Token} {fieldNames : List Token} {endLine : ℤ}
    (h : (Code.seq .expr nodes).SeenBy env outcome) :
    (Code.node .expr (.structInit line name fieldNames nodes endLine)).SeenBy env outcome := by
  intro daa exits daa' hcovers hwalk
  refine h daa exits daa' hcovers ?_
  rw [Code.walk, daaCheck_structInit] at hwalk
  exact hwalk

/-- The checker walks nothing, and the condition has the operand walked from the variables that
wait. -/
theorem seen_cast {type : TypeNode} {as_ : Token} {target : NumberKind}
    (hharmless : (Code.node .expr expr).Harmless env)
    (hrun : Runs true (.node .expr expr) env outcome)
    (h : (Code.node .expr expr).SeenBy env outcome) :
    (Code.node .expr (.cast line expr type as_ target)).SeenBy env outcome := by
  intro daa exits daa' hcovers hwalk
  obtain ⟨rfl, rfl⟩ := Walks.pure_iff.mp hwalk
  -- the walk below is not one of the checker's
  obtain ⟨exits, daa₁, hoperand⟩ := silent_iff.mp hharmless.silent
  have hseen := h _ exits daa₁ (Env.covers_unassigned env) hoperand
  cases outcome with
  | normal env' => exact ⟨rfl, hcovers.improved (hrun.grown.2 rfl)⟩
  | bad => exact hseen
  | _ => trivial

theorem walks_logical (hnode : node.shortCircuit = some (left, right))
    (hwalk : Walks (Code.node .expr node).walk daa exits daa') :
    ∃ daa₁, Walks (daaCheck left).asExpr daa () daa₁ ∧
      Walks (daaCheck right).asExpr daa₁ () daa' ∧ exits = false := by
  rw [Code.walk, shortCircuit_walk hnode] at hwalk
  obtain ⟨rfl, hexprs⟩ := walks_seq_expr.mp hwalk
  obtain ⟨daa₁, hleft, hexprs⟩ := Walks.exprs_cons hexprs
  obtain ⟨daa₂, hright, hexprs⟩ := Walks.exprs_cons hexprs
  obtain ⟨-, rfl⟩ := Walks.pure_iff.mp hexprs
  exact ⟨daa₁, hleft, hright, rfl⟩

theorem seen_logical_right (hnode : node.shortCircuit = some (left, right))
    (hrunLeft : Runs true (.node .expr left) env (.normal env'))
    (hleft : (Code.node .expr left).SeenBy env (.normal env'))
    (hrunRight : Runs true (.node .expr right) env' outcome)
    (hright : (Code.node .expr right).SeenBy env' outcome) :
    (Code.node .expr node).SeenBy env outcome := by
  intro daa exits daa' hcovers hwalk
  obtain ⟨daa₁, hleftWalk, hrightWalk, rfl⟩ := walks_logical hnode hwalk
  obtain ⟨-, hcovers⟩ := seen_expr hrunLeft hleft hcovers hleftWalk
  exact seen_expr hrunRight hright hcovers hrightWalk

/-- The right operand is walked though it is not run; it takes no name that waits out of the set. -/
theorem seen_logical_skip (hnode : node.shortCircuit = some (left, right))
    (hrunLeft : Runs true (.node .expr left) env (.normal env'))
    (hleft : (Code.node .expr left).SeenBy env (.normal env'))
    (hskipped : ∀ b ∈ env', b.assigned = false → ¬ right.Assigns b.name) :
    (Code.node .expr node).SeenBy env (.normal env') := by
  intro daa exits daa' hcovers hwalk
  obtain ⟨daa₁, hleftWalk, hrightWalk, rfl⟩ := walks_logical hnode hwalk
  obtain ⟨-, hcovers⟩ := seen_expr hrunLeft hleft hcovers hleftWalk
  refine ⟨rfl, fun b hb hunassigned => ?_⟩
  have hkeeps := (@daaCheck_keeps (fun n => n = b.name) right fun n hn =>
    hn ▸ hskipped b hb hunassigned).1 { daa := daa₁ }
  rw [hrightWalk] at hkeeps
  exact hkeeps.2 b.name rfl (hcovers b hb hunassigned)

theorem seen_if_then {elseBranch : Option AstNode} {thenMode : Mode}
    (hrun : Runs true (.node .expr condition) env (.normal env'))
    (hcondition : (Code.node .expr condition).SeenBy env (.normal env'))
    (hthen : (Code.node thenMode thenBranch).SeenBy env' outcome) :
    (Code.node mode (.if_ line condition thenBranch elseBranch)).SeenBy env (outcome.leave env) := by
  intro daa exits daa' hcovers hwalk
  obtain ⟨start, thenExits, thenEnd, elseExits, elseEnd, hstart, hthenWalk, -, hjoin, -⟩ :=
    walks_if hwalk
  obtain ⟨-, hcovers⟩ := seen_expr hrun hcondition hcovers hstart
  have hseen := hthen start thenExits thenEnd hcovers hthenWalk
  exact (hseen.join hjoin).leave env

theorem seen_if_else {elseBranch : AstNode} {elseMode : Mode}
    (hrun : Runs true (.node .expr condition) env (.normal env'))
    (hcondition : (Code.node .expr condition).SeenBy env (.normal env'))
    (helse : (Code.node elseMode elseBranch).SeenBy env' outcome) :
    (Code.node mode (.if_ line condition thenBranch (some elseBranch))).SeenBy env
      (outcome.leave env) := by
  intro daa exits daa' hcovers hwalk
  obtain ⟨start, thenExits, thenEnd, elseExits, elseEnd, hstart, -, helseWalk, -, hjoin⟩ :=
    walks_if hwalk
  obtain ⟨-, hcovers⟩ := seen_expr hrun hcondition hcovers hstart
  have hseen := helse start elseExits elseEnd hcovers helseWalk
  exact (hseen.join hjoin).leave env

theorem seen_if_none (hrun : Runs true (.node .expr condition) env (.normal env'))
    (hcondition : (Code.node .expr condition).SeenBy env (.normal env')) :
    (Code.node mode (.if_ line condition thenBranch none)).SeenBy env (.normal env') := by
  intro daa exits daa' hcovers hwalk
  obtain ⟨start, thenExits, thenEnd, elseExits, elseEnd, hstart, -, helseWalk, -, hjoin⟩ :=
    walks_if hwalk
  obtain ⟨-, hcovers⟩ := seen_expr hrun hcondition hcovers hstart
  obtain ⟨rfl, rfl⟩ := Walks.pure_iff.mp helseWalk
  exact Outcome.Seen.join ⟨rfl, hcovers⟩ hjoin

theorem seen_block {value : Option AstNode} {endLine : ℤ}
    (h : (Code.body stmts value).SeenBy env outcome) :
    (Code.node mode (.block line stmts value endLine)).SeenBy env (outcome.leave env) := by
  intro daa exits daa' hcovers hwalk
  refine (h daa exits daa' hcovers ?_).leave env
  rw [Code.walk, daaCheck_block] at hwalk
  exact hwalk

theorem seen_varDecl {decl : VarDeclInfo} :
    (Code.node (.stmt top) (.varDecl line decl none)).SeenBy env
      (.normal (⟨decl.name, false, top⟩ :: env)) := by
  intro daa exits daa' hcovers hwalk
  obtain ⟨_, hadd, rfl⟩ := Walks.then_pure hwalk
  cases hadd
  refine ⟨rfl, fun b hb hunassigned => daaSetContains_add.mpr ?_⟩
  rcases List.mem_cons.mp hb with rfl | hb
  · exact Or.inr rfl
  · exact Or.inl (hcovers b hb hunassigned)

theorem seen_varDecl_init {decl : VarDeclInfo}
    (hrun : Runs true (.node .expr expr) env (.normal env'))
    (h : (Code.node .expr expr).SeenBy env (.normal env')) :
    (Code.node (.stmt top) (.varDecl line decl (some expr))).SeenBy env
      (.normal (⟨decl.name, true, top⟩ :: env')) := by
  intro daa exits daa' hcovers hwalk
  obtain ⟨rfl, hcovers⟩ := seen_exprStmt hrun h hcovers hwalk
  exact ⟨rfl, hcovers.cons_assigned⟩

theorem seen_declaration {name : Token} (hnode : node.declaredName = some name) :
    (Code.node (.stmt top) node).SeenBy env (.normal (⟨name, true, top⟩ :: env)) := by
  intro daa exits daa' hcovers hwalk
  have hwalk' : Walks (pure false : DaaM Bool) daa exits daa' := by
    cases node <;> first | exact hwalk | cases hnode
  obtain ⟨rfl, rfl⟩ := Walks.pure_iff.mp hwalk'
  exact ⟨rfl, hcovers.cons_assigned⟩

theorem seen_return_stop {value : Option AstNode}
    (h : (Code.seq .expr value.toList).SeenBy env outcome) (hstops : outcome.Stops) :
    (Code.node (.stmt top) (.return_ line value)).SeenBy env outcome := by
  intro daa exits daa' hcovers hwalk
  exact (seen_exprs h hcovers (walks_return hwalk)).of_stops hstops

theorem seen_while_done (hrun : Runs true (.node .expr condition) env (.normal env'))
    (hcondition : (Code.node .expr condition).SeenBy env (.normal env')) :
    (Code.node (.stmt top) (.while_ line condition body)).SeenBy env (.normal env') := by
  intro daa exits daa' hcovers hwalk
  obtain ⟨daa₁, hconditionWalk, -, rfl, rfl⟩ := walks_while hwalk
  exact seen_expr hrun hcondition hcovers hconditionWalk

/-- A loop starts each turn with the variables it started with. -/
theorem seen_again (himproved : env.Improved env') (h : code.SeenBy env' outcome) :
    code.SeenBy env outcome :=
  fun daa exits daa' hcovers hwalk => h daa exits daa' (hcovers.improved himproved) hwalk

theorem seen_while_break (hrun : Runs true (.node .expr condition) env (.normal env'))
    (hcondition : (Code.node .expr condition).SeenBy env (.normal env'))
    (himproved : env'.Improved env'') :
    (Code.node (.stmt top) (.while_ line condition body)).SeenBy env (.normal env'') :=
  (seen_while_done hrun hcondition).improve himproved

theorem seen_while_leave (hrun : Runs true (.node .expr condition) env (.normal env'))
    (hcondition : (Code.node .expr condition).SeenBy env (.normal env'))
    (hbody : (Code.node (.stmt false) body).SeenBy env' turn) (hturn : turn.LeavesLoop) :
    (Code.node (.stmt top) (.while_ line condition body)).SeenBy env (turn.leave env') := by
  intro daa exits daa' hcovers hwalk
  obtain ⟨daa₁, hconditionWalk, ⟨y, daa₂, hbodyWalk⟩, -⟩ := walks_while hwalk
  obtain ⟨-, hcovers⟩ := seen_expr hrun hcondition hcovers hconditionWalk
  exact (hbody daa₁ y daa₂ hcovers hbodyWalk).leavesLoop hturn

theorem seen_for {init : Option AstNode}
    (hinit : (Code.seq (.stmt false) init.toList).SeenBy env (.normal env'))
    (hloop : (Code.forLoop condition increment body).SeenBy env' outcome) :
    (Code.node (.stmt top) (.for_ line init condition increment body)).SeenBy env
      (outcome.leave env) := by
  intro daa exits daa' hcovers hwalk
  obtain ⟨y, daa₁, hinitWalk, hloopWalk⟩ := walks_for hwalk
  obtain ⟨-, hcovers⟩ := hinit daa y daa₁ hcovers hinitWalk
  exact (hloop daa₁ exits daa' hcovers hloopWalk).leave env

theorem seen_for_stop {init : Option AstNode}
    (hinit : (Code.seq (.stmt false) init.toList).SeenBy env outcome) (hstops : outcome.Stops) :
    (Code.node (.stmt top) (.for_ line init condition increment body)).SeenBy env outcome := by
  intro daa exits daa' hcovers hwalk
  obtain ⟨y, daa₁, hinitWalk, -⟩ := walks_for hwalk
  exact (hinit daa y daa₁ hcovers hinitWalk).of_stops hstops

theorem seen_loop_done (hrun : Runs true (.node .expr condition) env (.normal env'))
    (hcondition : (Code.node .expr condition).SeenBy env (.normal env')) :
    (Code.forLoop condition increment body).SeenBy env (.normal env') := by
  intro daa exits daa' hcovers hwalk
  obtain ⟨daa₁, hconditionWalk, -, rfl, rfl⟩ := walks_forLoop hwalk
  exact seen_expr hrun hcondition hcovers hconditionWalk

theorem seen_loop_increment_stop (hrun : Runs true (.node .expr condition) env (.normal env'))
    (hcondition : (Code.node .expr condition).SeenBy env (.normal env'))
    (hbody : (Code.node (.stmt false) body).SeenBy env' turn)
    (hharmless : turn ≠ .normal env'' →
      (Code.seq .expr increment.toList).Harmless (env'.leave env''))
    (hincrement : (Code.seq .expr increment.toList).SeenBy (env'.leave env'') outcome)
    (hstops : outcome.Stops) : (Code.forLoop condition increment body).SeenBy env outcome := by
  intro daa exits daa' hcovers hwalk
  obtain ⟨daa₁, hconditionWalk, ⟨y, daa₂, daa₃, hbodyWalk, hincrementWalk⟩, -⟩ :=
    walks_forLoop hwalk
  obtain ⟨-, hcovers⟩ := seen_expr hrun hcondition hcovers hconditionWalk
  by_cases hnormal : turn = .normal env''
  · -- the walk of the increment starts where the walk of the body ended
    subst hnormal
    obtain ⟨-, hcovers⟩ := hbody daa₁ y daa₂ hcovers hbodyWalk
    exact (seen_exprs hincrement hcovers.leave hincrementWalk).of_stops hstops
  · -- after a `continue` it does not, and the condition of the step takes its place
    obtain ⟨y', daa₄, hwalk'⟩ := silent_iff.mp (hharmless hnormal).silent
    exact (hincrement _ y' daa₄ (Env.covers_unassigned _) hwalk').of_stops hstops

theorem seen_loop_leave (hrun : Runs true (.node .expr condition) env (.normal env'))
    (hcondition : (Code.node .expr condition).SeenBy env (.normal env'))
    (hbody : (Code.node (.stmt false) body).SeenBy env' turn) (hturn : turn.LeavesLoop) :
    (Code.forLoop condition increment body).SeenBy env (turn.leave env') := by
  intro daa exits daa' hcovers hwalk
  obtain ⟨daa₁, hconditionWalk, ⟨y, daa₂, daa₃, hbodyWalk, -⟩, -⟩ := walks_forLoop hwalk
  obtain ⟨-, hcovers⟩ := seen_expr hrun hcondition hcovers hconditionWalk
  exact (hbody daa₁ y daa₂ hcovers hbodyWalk).leavesLoop hturn

end Constructs

end Steps

theorem Runs.seen {code : Code} {env : Env} {outcome : Outcome} (h : Runs true code env outcome) :
    code.SeenBy env outcome := by
  induction h with
  | improve _ himproved ih => exact ih.improve himproved
  | seq_nil => exact seen_seq_nil
  | seq_cons hnode _ ihnode ihnodes => exact seen_seq_cons hnode ihnode ihnodes
  | seq_stop hnode hstops ihnode => exact seen_seq_stop hnode ihnode hstops
  | body _ _ ihstmts ihvalue => exact seen_body ihstmts ihvalue
  | body_stop _ hstops ihstmts => exact seen_body_stop ihstmts hstops
  | read => exact seen_read
  | read_bad hlookup hb => exact seen_read_bad hlookup hb
  | assign hvalue hstrict ihvalue => exact seen_assign hvalue ihvalue (hstrict rfl)
  | assign_stop hvalue hstops ihvalue =>
    exact seen_stop hvalue ihvalue hstops fun _ _ _ hwalk =>
      (walks_assign hwalk).imp fun _ h => h.1
  | operands hnode _ ih => exact seen_operands hnode ih
  | call_begins | display_begins | lambda_made | function_made | method_made =>
    exact fun _ _ _ _ _ => trivial
  | structInit _ _ ih => exact seen_structInit ih
  | structInit_bad _ _ hstrict => cases hstrict
  | cast hstrict hrun ih => exact seen_cast (hstrict rfl) hrun ih
  | logical_right hnode hleft hright ihleft ihright =>
    exact seen_logical_right hnode hleft ihleft hright ihright
  | logical_skip hnode hleft hstrict ihleft =>
    exact seen_logical_skip hnode hleft ihleft (hstrict rfl)
  | logical_stop hnode hleft hstops ihleft =>
    exact seen_stop hleft ihleft hstops fun _ _ _ hwalk =>
      (walks_logical hnode hwalk).imp fun _ h => h.1
  | if_stop hcondition hstops ihcondition =>
    refine seen_stop hcondition ihcondition hstops fun _ _ _ hwalk => ?_
    obtain ⟨start, thenExits, thenEnd, elseExits, elseEnd, hstart, -⟩ := walks_if hwalk
    exact ⟨start, hstart⟩
  | if_then hcondition _ ihcondition ihthen => exact seen_if_then hcondition ihcondition ihthen
  | if_else hcondition _ ihcondition ihelse => exact seen_if_else hcondition ihcondition ihelse
  | if_none hcondition ihcondition => exact seen_if_none hcondition ihcondition
  | block _ ih => exact seen_block ih
  | exprStmt hexpr ih =>
    exact fun _ _ _ hcovers hwalk => seen_exprStmt hexpr ih hcovers hwalk
  | varDecl => exact seen_varDecl
  | varDecl_init hexpr ih => exact seen_varDecl_init hexpr ih
  | varDecl_stop hexpr hstops ih =>
    exact fun _ _ _ hcovers hwalk => (seen_exprStmt hexpr ih hcovers hwalk).of_stops hstops
  | declaration hnode => exact seen_declaration hnode
  | impl | trait_ | typeAlias =>
    intro daa exits daa' hcovers hwalk
    obtain ⟨rfl, rfl⟩ := Walks.pure_iff.mp hwalk
    exact ⟨rfl, hcovers⟩
  | return_ | break_ | continue_ => exact fun _ _ _ _ _ => trivial
  | return_stop _ hstops ih => exact seen_return_stop ih hstops
  | while_stop hcondition hstops ihcondition =>
    exact seen_stop hcondition ihcondition hstops fun _ _ _ hwalk =>
      (walks_while hwalk).imp fun _ h => h.1
  | while_done hcondition ihcondition => exact seen_while_done hcondition ihcondition
  | while_next hcondition hbody hturn _ _ _ ihrest =>
    exact seen_again ((hcondition.grown.2 rfl).trans (hturn.improved hbody.grown)) ihrest
  | while_break hcondition hbody ihcondition _ =>
    exact seen_while_break hcondition ihcondition (Env.Grows.leave hbody.grown)
  | while_leave hcondition _ hturn ihcondition ihbody =>
    exact seen_while_leave hcondition ihcondition ihbody hturn
  | for_ _ _ ihinit ihloop => exact seen_for ihinit ihloop
  | for_stop _ hstops ihinit => exact seen_for_stop ihinit hstops
  | loop_stop hcondition hstops ihcondition =>
    exact seen_stop hcondition ihcondition hstops fun _ _ _ hwalk =>
      (walks_forLoop hwalk).imp fun _ h => h.1
  | loop_done hcondition ihcondition => exact seen_loop_done hcondition ihcondition
  | loop_next hcondition hbody hturn _ hincrement _ _ _ _ ihrest =>
    have himproved := ((hcondition.grown.2 rfl).trans (hturn.improved hbody.grown)).trans
      (hincrement.grown.2 rfl)
    exact seen_again himproved ihrest
  | loop_increment_stop hcondition _ _ hstrict _ hstops ihcondition ihbody ihincrement =>
    exact seen_loop_increment_stop hcondition ihcondition ihbody (hstrict rfl) ihincrement hstops
  | loop_break hcondition hbody ihcondition _ =>
    exact (seen_loop_done hcondition ihcondition).improve (Env.Grows.leave hbody.grown)
  | loop_leave hcondition _ hturn ihcondition ihbody =>
    exact seen_loop_leave hcondition ihcondition ihbody hturn
  | default _ _ ih => exact ih

/-! ### Whole programs -/

/-- The walk of a hoisted node does nothing. -/
theorem daaCheck_hoisted {node : AstNode} (h : node.isHoisted = true) :
    (daaCheck node).asStmt = pure false := by
  cases node <;> first | rfl | cases h

theorem daaCheckStmts_hoisted {hoisted nodes : List AstNode}
    (h : ∀ node ∈ hoisted, node.isHoisted = true) :
    daaCheckStmts ((hoisted ++ nodes).map daaCheck) = daaCheckStmts (nodes.map daaCheck) := by
  induction hoisted with
  | nil => rfl
  | cons node hoisted ih =>
    rw [List.cons_append, List.map_cons, daaCheckStmts, daaCheck_hoisted (h node List.mem_cons_self)]
    exact ih fun n hn => h n (List.mem_cons_of_mem _ hn)

theorem program_reports (program : List AstNode) : Reports (daaCheckProgram program) := by
  induction program with
  | nil => exact reports_rules.pure_ _
  | cons node program ih =>
    exact reports_rules.bind (reports_rules.discard (daaCheck_reports node).2) fun _ => ih

/-- The checker takes the top-level nodes in the order of the text, and does not stop at one that
exits. The nodes that are compiled out of order do not matter to it. -/
theorem compileOrder_walk {program : List AstNode} {daa : DaaSet}
    (h : Silent (daaCheckProgram program) daa) :
    Silent (daaCheckStmts ((compileOrder program).map daaCheck)) daa := by
  unfold compileOrder
  rw [daaCheckStmts_hoisted]
  swap
  · intro node hnode
    simp only [List.mem_append, List.mem_filter] at hnode
    unfold AstNode.isHoisted
    rcases hnode with (⟨-, h⟩ | ⟨-, h⟩) | ⟨-, h⟩ <;> simp [h]
  rw [silent_iff] at h
  obtain ⟨_, daa', h⟩ := h
  induction program generalizing daa with
  | nil => exact rfl
  | cons node program ih =>
    obtain ⟨_, daa₁, hnode, hprogram⟩ := Walks.bind (fun _ => program_reports program) h
    obtain ⟨exits, hnode⟩ := hnode.discard
    by_cases hhoisted : node.isHoisted = true
    · rw [List.filter_cons_of_neg (by simp [hhoisted])]
      rw [daaCheck_hoisted hhoisted] at hnode
      obtain ⟨-, rfl⟩ := Walks.pure_iff.mp hnode
      exact ih hprogram
    · rw [List.filter_cons_of_pos (by simp [hhoisted]), List.map_cons, daaCheckStmts]
      obtain ⟨exits', daa₂, hrest⟩ := silent_iff.mp (ih hprogram)
      cases exits with
      | true =>
        -- the walk of a block stops here, and the one of the program was silent further on
        exact silent_iff.mpr ⟨true, daa₁, Walks.bind_of hnode rfl⟩
      | false => exact silent_iff.mpr ⟨exits', daa₂, Walks.bind_of hnode hrest⟩

/-- What holds of a node and of the children of every node it holds of holds below the node. -/
theorem AstNode.In.of_closed {P : AstNode → Prop} {node parent : AstNode}
    (hclosed : ∀ n, P n → ∀ child ∈ n.children, P child) (hparent : P parent)
    (h : node.In parent) : P node := by
  induction h with
  | here => exact hparent
  | under hchild _ ih => exact ih (hclosed _ hparent _ hchild)

/-- The body of any function of an accepted program is walked silently: by the checker, or because
no variable waits in it. -/
theorem DaaAccepts.body_silent {program : List AstNode} {top fn : AstNode} {info : FunctionInfo}
    {code : Code} (hprogram : DaaAccepts program) (htop : top ∈ program) (hin : fn.In top)
    (hcode : fn.functionCode = some (info, code))
    (hdeclares : fn.isUnwalked = true → code.DeclaresNone) : Silent code.walk [] := by
  by_cases hunwalked : fn.isUnwalked = true
  · exact (hdeclares hunwalked).silent
  cases fn with
  | function line fn stmts value exprBody =>
    cases exprBody with
    | some _ => simp [AstNode.isUnwalked] at hunwalked
    | none =>
      simp only [AstNode.functionCode, Option.some.injEq, Prod.mk.injEq] at hcode
      obtain ⟨rfl, rfl⟩ := hcode
      have hlambda : fn.isLambda = false := by simpa [AstNode.isUnwalked] using hunwalked
      exact hprogram.functions top htop line fn stmts value none hin hlambda
  | _ => cases hcode

/-- Every body is walked silently from a set that covers what waits when the body starts. -/
theorem BodyOf.walk {program : List AstNode} {code : Code} {env : Env}
    (hprogram : DaaAccepts program) (h : BodyOf true program code env) :
    ∃ daa, env.Covers daa ∧ Silent code.walk daa := by
  cases h with
  | topLevel => exact ⟨[], fun _ hb => (nomatch hb), compileOrder_walk hprogram.topLevel⟩
  | called _ _ _ _ htop hin hcode hreads hdeclares =>
    have hsilent := hprogram.body_silent htop hin hcode (hdeclares rfl)
    exact ⟨_, Env.covers_start _ _ _, (hreads rfl).silent hsilent⟩

/-- A program is accepted when the walks of its top-level code and of the functions among its nodes
report nothing. -/
theorem daaAccepts_of_nodes {program nodes : List AstNode}
    (h : Silent (daaCheckProgram program) []) (hsubset : ∀ top ∈ program, top ∈ nodes)
    (hclosed : ∀ n ∈ nodes, ∀ child ∈ n.children, child ∈ nodes)
    (hfunctions : ∀ line fn stmts value exprBody,
      AstNode.function line fn stmts value exprBody ∈ nodes →
        Silent (daaCheckFn stmts value exprBody) []) :
    DaaAccepts program where
  topLevel := h
  functions top htop line fn stmts value exprBody hin _ :=
    hfunctions line fn stmts value exprBody (hin.of_closed hclosed (hsubset top htop))

def identifierToken (text : String) : Token := ⟨.identifier, ascii text, 1⟩

/-- `var name: i64;` -/
def declareVar (name : String) : AstNode :=
  .varDecl 1 ⟨identifierToken name, some (.named 1 (identifierToken "i64") []), 1, true, false⟩ none

/-- `name` -/
def readVar (name : String) : AstNode := .variable_ 1 (identifierToken name)

/-- `1` -/
def one : AstNode := .literal 1 (.number ⟨.i64, 1, true, 1, true⟩)

/-- `x = 1` -/
def assignX : AstNode := .assign 1 (identifierToken "x") one

/-- `fun f(): i64` -/
def functionF : FunctionInfo where
  name := identifierToken "f"
  params := []
  paramTypes := []
  returnType := some (.named 1 (identifierToken "i64") [])
  bodyEndLine := 1

/-- `f()` -/
def callF : AstNode := .call 1 (readVar "f") ⟨.rightParen, ascii ")", 1⟩ [] false

/-- `var x: i64; fun f(): i64 { return x; } f(); x = 1;` -/
def callBeforeAssignment : List AstNode :=
  [declareVar "x", .function 1 functionF [.return_ 1 (some (readVar "x"))] none none,
    .exprStmt 1 callF, .exprStmt 1 assignX]

theorem callBeforeAssignment_accepts : DaaAccepts callBeforeAssignment := by
  refine @daaAccepts_of_nodes _ (callBeforeAssignment ++ [assignX, callF, readVar "f", one,
    readVar "x", .return_ 1 (some (readVar "x"))]) rfl ?_ ?_ ?_
  · exact fun top htop => List.mem_append_left _ htop
  · simp [callBeforeAssignment, declareVar, assignX, callF, one, readVar, AstNode.children]
  · intro line fn stmts value exprBody hmem
    simp [callBeforeAssignment, declareVar, assignX, callF, one, readVar] at hmem
    obtain ⟨rfl, rfl, rfl, rfl, rfl⟩ := hmem
    rfl

/-- It also accepts one whose function reads a top-level variable before it is assigned. -/
theorem definite_assignment_global :
    DaaAccepts callBeforeAssignment ∧ ¬ ReadsOnlyAssigned false callBeforeAssignment := by
  refine ⟨callBeforeAssignment_accepts, fun h => ?_⟩
  have hmade : Runs false (.seq (.stmt true) (compileOrder callBeforeAssignment)) []
      (.made (.function 1 functionF [.return_ 1 (some (readVar "x"))] none none) _) :=
    .seq_stop (.function_made rfl) trivial
  have hcalls : Runs false (.seq (.stmt true) (compileOrder callBeforeAssignment)) []
      (.calls [⟨identifierToken "x", false, true⟩, ⟨identifierToken "f", true, true⟩]) := by
    refine .seq_cons (.declaration rfl) (.seq_cons .varDecl (.seq_stop (.exprStmt (.call_begins
      (.seq_cons (.read ?_) .seq_nil))) trivial))
    intro b hb
    cases hb
    rfl
  have hbody := @BodyOf.called false callBeforeAssignment _ _ _ _ _ _ _ _ _ _ .topLevel hcalls
    .topLevel hmade (List.mem_cons_of_mem _ List.mem_cons_self) .here rfl
    (fun h => nomatch h) (fun h => nomatch h)
  refine h _ _ _ hbody ?_ rfl
  exact .body_stop (.seq_stop (.return_stop (.seq_stop (.read_bad rfl rfl) trivial) trivial)
    trivial) trivial

end KirbyLang
