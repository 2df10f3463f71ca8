import KirbyLang.DefiniteAssignment
import KirbyLang.Lib.Cursor
import Mathlib.Data.List.Forall2

/-!
# Definite assignment is sound where it looks

A run of a body, seen only as the declarations, reads and assignments of variables. Values are left
out: a condition may go either way, a loop may turn any number of times and a call may run any body
that has been made, so every real execution of a body is a run here. Names are resolved lexically.
The top-level variables are followed into every body that is called; a variable that a nested
function captures counts as assigned there.

`Runs false` are all runs. `Runs true` are those whose steps meet their conditions, which speak of
the text of the program and of the variables that wait for a value before the step. In the latter
no variable is read before it is assigned.
-/

namespace KirbyLang

/-! ### Environments -/

/-- A variable in scope, and whether it has a value. -/
structure Binding where
  name : Token
  assigned : Bool
  /-- A variable of the top-level code, which every body sees. -/
  isTop : Bool := false
  deriving DecidableEq, Repr

/-- The variables in scope, innermost first. -/
abbrev Env := List Binding

namespace Env

/-- The variable a name refers to. -/
def lookup (env : Env) (name : Token) : Option Binding :=
  env.find? fun b => tokensEqual name b.name

/-- Assign the variable a name refers to. -/
def assign : Env → Token → Env
  | [], _ => []
  | b :: env, name =>
    if tokensEqual name b.name then { b with assigned := true } :: env
    else b :: assign env name

/-- The names that wait for a value. -/
def unassigned (env : Env) : DaaSet := (env.filter fun b => !b.assigned).map Binding.name

/-- What is left of `inner` when only the variables of `outer` are still in scope. -/
def leave (outer inner : Env) : Env := inner.drop (inner.length - outer.length)

/-- What a body that is called sees of the variables of its caller. -/
def globals (env : Env) : Env := env.filter Binding.isTop

/-- What a nested function captures. Its reads of these variables are not followed. -/
def captured (env : Env) : Env :=
  (env.filter fun b => !b.isTop).map fun b => { b with assigned := true }

/-- The parameters of a function, the last one innermost. -/
def ofParams (params : List Token) : Env := params.reverse.map fun name => ⟨name, true, false⟩

/-- The same variables, of which more may be assigned. -/
def Improved (env env' : Env) : Prop :=
  List.Forall₂ (fun b b' => b.name = b'.name ∧ b.isTop = b'.isTop ∧
    (b.assigned = true → b'.assigned = true)) env env'

/-- The variables of `env`, of which more may be assigned, under some new ones. -/
def Grows (env env' : Env) : Prop := env.length ≤ env'.length ∧ env.Improved (leave env env')

end Env

/-- How a part of a body is left. -/
inductive Exit
  | return_ | break_ | continue_
  deriving DecidableEq, Repr

inductive Outcome
  | normal (env : Env)
  | exit (how : Exit) (env : Env)
  /-- an unassigned variable was read -/
  | bad
  /-- a call is about to run a body, which sees these top-level variables -/
  | calls (globals : Env)
  /-- a function, a method or a lambda was made where these variables are in scope -/
  | made (fn : AstNode) (env : Env)

namespace Outcome

/-- What follows is not run. -/
def Stops : Outcome → Prop
  | normal _ => False
  | _ => True

def leave (outer : Env) : Outcome → Outcome
  | normal env => normal (outer.leave env)
  | exit how env => exit how (outer.leave env)
  | outcome => outcome

/-- The body of a loop ended so that the loop goes on. -/
def Continues (outcome : Outcome) (env : Env) : Prop :=
  outcome = normal env ∨ outcome = exit .continue_ env

/-- The body of a loop ended so that what is around the loop is left as well. -/
def LeavesLoop : Outcome → Prop
  | normal _ | exit .break_ _ | exit .continue_ _ => False
  | _ => True

end Outcome

/-! ### Runs -/

/-- How a node is run: as an expression, or as a statement, which may be one of the top level. -/
inductive Mode
  | expr
  | stmt (top : Bool)
  deriving DecidableEq, Repr

/-- How what is inside of a node is run. -/
def Mode.inner : Mode → Mode
  | expr => expr
  | stmt _ => stmt false

/-- What is run: a node, several nodes, the contents of a block or a function, or a `for` loop
after its init clause. -/
inductive Code
  | node (mode : Mode) (node : AstNode)
  | seq (mode : Mode) (nodes : List AstNode)
  | body (stmts : List AstNode) (value : Option AstNode)
  | forLoop (condition : AstNode) (increment : Option AstNode) (body : AstNode)

namespace AstNode

/-- The operands of an expression that evaluates all of them, from left to right. -/
def operands : AstNode → Option (List AstNode)
  | literal .. | self_ .. => some []
  | unary _ _ a | grouping _ a | get _ a _ => some [a]
  | binary _ _ a b _ | set _ a _ b | indexGet _ a b _ => some [a, b]
  | indexSet _ a b c _ => some [a, b, c]
  | call _ callee _ args _ => some (callee :: args)
  | array _ items _ | interpString _ _ items => some items
  | function _ fn _ _ _ => if fn.isLambda then some [] else none
  | _ => none

/-- The operands of an expression that may skip its right one. -/
def shortCircuit : AstNode → Option (AstNode × AstNode)
  | and_ _ l r | or_ _ l r | nullish _ l r => some (l, r)
  | _ => none

/-- `compileBranchValue`: some branches of an `if` used as a value are statements. -/
def branchMode (mode : Mode) : AstNode → Mode
  | return_ .. | break_ .. | continue_ .. | while_ .. | for_ .. => .stmt false
  | _ => mode.inner

/-- A statement that declares a function or a struct, with the name. -/
def declaredName : AstNode → Option Token
  | function _ fn _ _ _ => if fn.isLambda then none else some fn.name
  | struct_ _ name _ _ _ => some name
  | _ => none

/-- The methods that a statement makes. -/
def methods : AstNode → List AstNode
  | impl _ _ methods | trait_ _ _ methods => methods
  | _ => []

/-- The parameters and the code of a function, a method or a lambda. -/
def functionCode : AstNode → Option (FunctionInfo × Code)
  | function _ fn stmts value none => some (fn, .body stmts value)
  | function _ fn _ _ (some exprBody) => some (fn, .seq .expr [exprBody])
  | _ => none

/-- A lambda, or a function with an expression body. -/
def isUnwalked : AstNode → Bool
  | function _ fn _ _ exprBody => fn.isLambda || exprBody.isSome
  | _ => false

/-- What is below a node is not run with it. -/
def opensBody : AstNode → Bool
  | function .. | struct_ .. | impl .. | trait_ .. => true
  | _ => false

/-- The walk of a node does not look below it. -/
def notWalked : AstNode → Bool
  | cast .. => true
  | node => node.opensBody

/-- A node is in a tree, below no node at which one stops. -/
inductive Below (stops : AstNode → Bool) (node : AstNode) : AstNode → Prop
  | here : Below stops node node
  | under {parent child : AstNode} (hparent : stops parent = false)
    (hchild : child ∈ parent.children) (h : Below stops node child) : Below stops node parent

/-- A name is assigned in a part of the tree that is walked. -/
def Assigns (name : Token) (node : AstNode) : Prop :=
  ∃ line target value, (assign line target value).Below notWalked node ∧
    tokensEqual target name = true

/-- The name of the variable that a node reads. -/
def readName : AstNode → Option Token
  | variable_ _ name | structInit _ name _ _ _ => some name
  | _ => none

/-- A declaration without an initializer. -/
def isBareDeclaration : AstNode → Bool
  | varDecl _ _ none => true
  | _ => false

end AstNode

namespace Code

/-- The nodes that a part of a body consists of. -/
def nodes : Code → List AstNode
  | node _ ast => [ast]
  | seq _ nodes => nodes
  | body stmts value => stmts ++ value.toList
  | forLoop condition increment loopBody => condition :: increment.toList ++ [loopBody]

/-- A node is run with a part of a body. -/
def Holds (code : Code) (inner : AstNode) : Prop :=
  ∃ node ∈ code.nodes, inner.Below AstNode.opensBody node

/-- No variable of these names is read. -/
def Avoids (names : List Token) (code : Code) : Prop :=
  ∀ inner, code.Holds inner → ∀ name ∈ inner.readName, daaSetContains names name = false

/-- No variable is declared without an initializer. -/
def DeclaresNone (code : Code) : Prop :=
  ∀ inner, code.Holds inner → inner.isBareDeclaration = false

/-- No variable that waits for a value is read, and none comes to wait. -/
def Harmless (env : Env) (code : Code) : Prop := code.Avoids env.unassigned ∧ code.DeclaresNone

end Code

/-- The runs of a part of a body. With `strict` every step meets its condition. -/
inductive Runs (strict : Bool) : Code → Env → Outcome → Prop
  /-- Functions called meanwhile may assign variables they captured. -/
  | improve {code env env' env''} (h : Runs strict code env (.normal env'))
      (himproved : env'.Improved env'') : Runs strict code env (.normal env'')
  | seq_nil {mode env} : Runs strict (.seq mode []) env (.normal env)
  | seq_cons {mode node nodes env env' outcome}
      (hnode : Runs strict (.node mode node) env (.normal env'))
      (hnodes : Runs strict (.seq mode nodes) env' outcome) :
      Runs strict (.seq mode (node :: nodes)) env outcome
  | seq_stop {mode node nodes env outcome} (hnode : Runs strict (.node mode node) env outcome)
      (hstops : outcome.Stops) : Runs strict (.seq mode (node :: nodes)) env outcome
  | body {stmts value env env' outcome}
      (hstmts : Runs strict (.seq (.stmt false) stmts) env (.normal env'))
      (hvalue : Runs strict (.seq .expr value.toList) env' outcome) :
      Runs strict (.body stmts value) env outcome
  | body_stop {stmts value env outcome}
      (hstmts : Runs strict (.seq (.stmt false) stmts) env outcome) (hstops : outcome.Stops) :
      Runs strict (.body stmts value) env outcome
  | read {line name env} (h : ∀ b, env.lookup name = some b → b.assigned = true) :
      Runs strict (.node .expr (.variable_ line name)) env (.normal env)
  | read_bad {line name env b} (h : env.lookup name = some b) (hb : b.assigned = false) :
      Runs strict (.node .expr (.variable_ line name)) env .bad
  /-- Condition: no other variable of that name still waits for a value. -/
  | assign {line name value env env'} (hvalue : Runs strict (.node .expr value) env (.normal env'))
      (hstrict : strict = true →
        ∀ b ∈ env'.assign name, tokensEqual name b.name = true → b.assigned = true) :
      Runs strict (.node .expr (.assign line name value)) env (.normal (env'.assign name))
  | assign_stop {line name value env outcome} (hvalue : Runs strict (.node .expr value) env outcome)
      (hstops : outcome.Stops) :
      Runs strict (.node .expr (.assign line name value)) env outcome
  | operands {node nodes env outcome} (hnode : node.operands = some nodes)
      (h : Runs strict (.seq .expr nodes) env outcome) : Runs strict (.node .expr node) env outcome
  | call_begins {line callee paren args argUsesDisplay env env'}
      (h : Runs strict (.seq .expr (callee :: args)) env (.normal env')) :
      Runs strict (.node .expr (.call line callee paren args argUsesDisplay)) env
        (.calls env'.globals)
  /-- `toString()` is called for a part of an interpolated string. -/
  | display_begins {line conversions before expr after env env'}
      (h : Runs strict (.seq .expr (before ++ [expr])) env (.normal env'))
      (hconversion : conversions[before.length]? = some .display) :
      Runs strict (.node .expr (.interpString line conversions (before ++ expr :: after))) env
        (.calls env'.globals)
  | lambda_made {line fn stmts value exprBody env} (h : fn.isLambda = true) :
      Runs strict (.node .expr (.function line fn stmts value exprBody)) env
        (.made (.function line fn stmts value exprBody) env)
  | structInit {line name fieldNames values endLine env outcome}
      (hname : ∀ b, env.lookup name = some b → b.assigned = true)
      (h : Runs strict (.seq .expr values) env outcome) :
      Runs strict (.node .expr (.structInit line name fieldNames values endLine)) env outcome
  /-- Condition: the name of a struct literal is not a variable that waits for a value. -/
  | structInit_bad {line name fieldNames values endLine env b} (h : env.lookup name = some b)
      (hb : b.assigned = false) (hstrict : strict = false) :
      Runs strict (.node .expr (.structInit line name fieldNames values endLine)) env .bad
  /-- Condition: the operand reads no variable that waits for a value and declares none. -/
  | cast {line operand type as_ target env outcome}
      (hstrict : strict = true → (Code.node .expr operand).Harmless env)
      (h : Runs strict (.node .expr operand) env outcome) :
      Runs strict (.node .expr (.cast line operand type as_ target)) env outcome
  | logical_right {node left right env env' outcome}
      (hnode : node.shortCircuit = some (left, right))
      (hleft : Runs strict (.node .expr left) env (.normal env'))
      (hright : Runs strict (.node .expr right) env' outcome) :
      Runs strict (.node .expr node) env outcome
  /-- Condition: the skipped operand assigns no variable that waits for a value. -/
  | logical_skip {node left right env env'} (hnode : node.shortCircuit = some (left, right))
      (hleft : Runs strict (.node .expr left) env (.normal env'))
      (hstrict : strict = true → ∀ b ∈ env', b.assigned = false → ¬ right.Assigns b.name) :
      Runs strict (.node .expr node) env (.normal env')
  | logical_stop {node left right env outcome} (hnode : node.shortCircuit = some (left, right))
      (hleft : Runs strict (.node .expr left) env outcome) (hstops : outcome.Stops) :
      Runs strict (.node .expr node) env outcome
  | if_stop {mode line condition thenBranch elseBranch env outcome}
      (hcondition : Runs strict (.node .expr condition) env outcome) (hstops : outcome.Stops) :
      Runs strict (.node mode (.if_ line condition thenBranch elseBranch)) env outcome
  | if_then {mode line condition thenBranch elseBranch env env' outcome}
      (hcondition : Runs strict (.node .expr condition) env (.normal env'))
      (hthen : Runs strict (.node (thenBranch.branchMode mode) thenBranch) env' outcome) :
      Runs strict (.node mode (.if_ line condition thenBranch elseBranch)) env (outcome.leave env)
  | if_else {mode line condition thenBranch elseBranch env env' outcome}
      (hcondition : Runs strict (.node .expr condition) env (.normal env'))
      (helse : Runs strict (.node (elseBranch.branchMode mode) elseBranch) env' outcome) :
      Runs strict (.node mode (.if_ line condition thenBranch (some elseBranch))) env
        (outcome.leave env)
  | if_none {mode line condition thenBranch env env'}
      (hcondition : Runs strict (.node .expr condition) env (.normal env')) :
      Runs strict (.node mode (.if_ line condition thenBranch none)) env (.normal env')
  | block {mode line stmts value endLine env outcome}
      (h : Runs strict (.body stmts value) env outcome) :
      Runs strict (.node mode (.block line stmts value endLine)) env (outcome.leave env)
  | exprStmt {top line expr env outcome} (h : Runs strict (.node .expr expr) env outcome) :
      Runs strict (.node (.stmt top) (.exprStmt line expr)) env outcome
  | varDecl {top line decl env} :
      Runs strict (.node (.stmt top) (.varDecl line decl none)) env
        (.normal (⟨decl.name, false, top⟩ :: env))
  | varDecl_init {top line decl initializer env env'}
      (h : Runs strict (.node .expr initializer) env (.normal env')) :
      Runs strict (.node (.stmt top) (.varDecl line decl (some initializer))) env
        (.normal (⟨decl.name, true, top⟩ :: env'))
  | varDecl_stop {top line decl initializer env outcome}
      (h : Runs strict (.node .expr initializer) env outcome) (hstops : outcome.Stops) :
      Runs strict (.node (.stmt top) (.varDecl line decl (some initializer))) env outcome
  | declaration {top node name env} (h : node.declaredName = some name) :
      Runs strict (.node (.stmt top) node) env (.normal (⟨name, true, top⟩ :: env))
  /-- A function is in scope in its own body. -/
  | function_made {top line fn stmts value exprBody env} (h : fn.isLambda = false) :
      Runs strict (.node (.stmt top) (.function line fn stmts value exprBody)) env
        (.made (.function line fn stmts value exprBody) (⟨fn.name, true, top⟩ :: env))
  | method_made {top node method env} (h : method ∈ node.methods) :
      Runs strict (.node (.stmt top) node) env (.made method env)
  | impl {top line impl methods env} :
      Runs strict (.node (.stmt top) (.impl line impl methods)) env (.normal env)
  | trait_ {top line trait_ methods env} :
      Runs strict (.node (.stmt top) (.trait_ line trait_ methods)) env (.normal env)
  | typeAlias {top line name genericParams target env} :
      Runs strict (.node (.stmt top) (.typeAlias line name genericParams target)) env (.normal env)
  | return_ {top line value env env'}
      (h : Runs strict (.seq .expr value.toList) env (.normal env')) :
      Runs strict (.node (.stmt top) (.return_ line value)) env (.exit .return_ env')
  | return_stop {top line value env outcome} (h : Runs strict (.seq .expr value.toList) env outcome)
      (hstops : outcome.Stops) : Runs strict (.node (.stmt top) (.return_ line value)) env outcome
  | break_ {top line token env} :
      Runs strict (.node (.stmt top) (.break_ line token)) env (.exit .break_ env)
  | continue_ {top line token env} :
      Runs strict (.node (.stmt top) (.continue_ line token)) env (.exit .continue_ env)
  | while_stop {top line condition body env outcome}
      (hcondition : Runs strict (.node .expr condition) env outcome) (hstops : outcome.Stops) :
      Runs strict (.node (.stmt top) (.while_ line condition body)) env outcome
  | while_done {top line condition body env env'}
      (hcondition : Runs strict (.node .expr condition) env (.normal env')) :
      Runs strict (.node (.stmt top) (.while_ line condition body)) env (.normal env')
  | while_next {top line condition body env env' env'' turn outcome}
      (hcondition : Runs strict (.node .expr condition) env (.normal env'))
      (hbody : Runs strict (.node (.stmt false) body) env' turn) (hturn : turn.Continues env'')
      (hrest : Runs strict (.node (.stmt top) (.while_ line condition body)) (env'.leave env'')
        outcome) :
      Runs strict (.node (.stmt top) (.while_ line condition body)) env outcome
  | while_break {top line condition body env env' env''}
      (hcondition : Runs strict (.node .expr condition) env (.normal env'))
      (hbody : Runs strict (.node (.stmt false) body) env' (.exit .break_ env'')) :
      Runs strict (.node (.stmt top) (.while_ line condition body)) env (.normal (env'.leave env''))
  | while_leave {top line condition body env env' turn}
      (hcondition : Runs strict (.node .expr condition) env (.normal env'))
      (hbody : Runs strict (.node (.stmt false) body) env' turn) (hturn : turn.LeavesLoop) :
      Runs strict (.node (.stmt top) (.while_ line condition body)) env (turn.leave env')
  | for_ {top line init condition increment body env env' outcome}
      (hinit : Runs strict (.seq (.stmt false) init.toList) env (.normal env'))
      (hloop : Runs strict (.forLoop condition increment body) env' outcome) :
      Runs strict (.node (.stmt top) (.for_ line init condition increment body)) env
        (outcome.leave env)
  | for_stop {top line init condition increment body env outcome}
      (hinit : Runs strict (.seq (.stmt false) init.toList) env outcome) (hstops : outcome.Stops) :
      Runs strict (.node (.stmt top) (.for_ line init condition increment body)) env outcome
  | loop_stop {condition increment body env outcome}
      (hcondition : Runs strict (.node .expr condition) env outcome) (hstops : outcome.Stops) :
      Runs strict (.forLoop condition increment body) env outcome
  | loop_done {condition increment body env env'}
      (hcondition : Runs strict (.node .expr condition) env (.normal env')) :
      Runs strict (.forLoop condition increment body) env (.normal env')
  /-- Condition: after a `continue`, the increment reads no variable that waits for a value and
  declares none. -/
  | loop_next {condition increment body env env' env'' env''' turn outcome}
      (hcondition : Runs strict (.node .expr condition) env (.normal env'))
      (hbody : Runs strict (.node (.stmt false) body) env' turn) (hturn : turn.Continues env'')
      (hstrict : strict = true → turn ≠ .normal env'' →
        (Code.seq .expr increment.toList).Harmless (env'.leave env''))
      (hincrement : Runs strict (.seq .expr increment.toList) (env'.leave env'') (.normal env'''))
      (hrest : Runs strict (.forLoop condition increment body) env''' outcome) :
      Runs strict (.forLoop condition increment body) env outcome
  | loop_increment_stop {condition increment body env env' env'' turn outcome}
      (hcondition : Runs strict (.node .expr condition) env (.normal env'))
      (hbody : Runs strict (.node (.stmt false) body) env' turn) (hturn : turn.Continues env'')
      (hstrict : strict = true → turn ≠ .normal env'' →
        (Code.seq .expr increment.toList).Harmless (env'.leave env''))
      (hincrement : Runs strict (.seq .expr increment.toList) (env'.leave env'') outcome)
      (hstops : outcome.Stops) : Runs strict (.forLoop condition increment body) env outcome
  | loop_break {condition increment body env env' env''}
      (hcondition : Runs strict (.node .expr condition) env (.normal env'))
      (hbody : Runs strict (.node (.stmt false) body) env' (.exit .break_ env'')) :
      Runs strict (.forLoop condition increment body) env (.normal (env'.leave env''))
  | loop_leave {condition increment body env env' turn}
      (hcondition : Runs strict (.node .expr condition) env (.normal env'))
      (hbody : Runs strict (.node (.stmt false) body) env' turn) (hturn : turn.LeavesLoop) :
      Runs strict (.forLoop condition increment body) env (turn.leave env')
  /-- Any other statement is an expression whose value is dropped. -/
  | default {top node env outcome} (h : Runs strict (.node .expr node) env outcome)
      (hnode : node.branchMode .expr = .expr) : Runs strict (.node (.stmt top) node) env outcome

/-- The code of the bodies of a program, with the variables that are in scope when they start: the
top-level code, and any function, method or lambda that has been made, when something is called.
Conditions: the body reads no top-level variable that waits for a value at the call, and a lambda
or an expression body declares no variable without an initializer. -/
inductive BodyOf (strict : Bool) (program : List AstNode) : Code → Env → Prop
  | topLevel : BodyOf strict program (.seq (.stmt true) (compileOrder program)) []
  | called {caller callerEnv maker makerEnv globals top fn env info code}
      (hcaller : BodyOf strict program caller callerEnv)
      (hcalls : Runs strict caller callerEnv (.calls globals))
      (hmaker : BodyOf strict program maker makerEnv)
      (hmade : Runs strict maker makerEnv (.made fn env))
      (htop : top ∈ program) (hin : fn.In top) (hcode : fn.functionCode = some (info, code))
      (hreads : strict = true → code.Avoids globals.unassigned)
      (hdeclares : strict = true → fn.isUnwalked = true → code.DeclaresNone) :
      BodyOf strict program code (Env.ofParams info.params ++ env.captured ++ globals)

/-- No body of the program reads a variable before it is assigned, in any run whose steps all meet
their condition when `strict` and in any run otherwise. -/
def ReadsOnlyAssigned (strict : Bool) (program : List AstNode) : Prop :=
  ∀ code env outcome, BodyOf strict program code env → Runs strict code env outcome →
    outcome ≠ .bad

end KirbyLang
