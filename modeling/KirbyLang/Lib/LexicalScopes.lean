import Mathlib.Logic.Function.Basic
import Mathlib.Tactic.Common

/-!
# Lexical scoping

Scopes as a stack of partial maps from names to what is declared of them, innermost first.

* `Event`: a scope begins, a scope ends, a name is declared;
* `run`: the stack after events, if none of them needed a scope that was not open;
* `lexical`: what the innermost scope that declares a name says of it;
* `Balanced`: events that end every scope they begin, and no other; `run_balanced`: they touch the
  innermost scope only.
-/

namespace LexicalScopes

variable {N T : Type} [DecidableEq N]

abbrev Scope (N T : Type) := N → Option T

inductive Event (N T : Type)
  | beginScope
  | endScope
  | declare (name : N) (type : T)
  deriving DecidableEq, Repr

/-- The latest declaration of a name in a scope is the one that counts. -/
def step : Event N T → List (Scope N T) → Option (List (Scope N T))
  | .beginScope, scopes => some ((fun _ => none) :: scopes)
  | .endScope, _ :: scopes => some scopes
  | .declare name type, scope :: scopes => some (Function.update scope name (some type) :: scopes)
  | .endScope, [] => none
  | .declare _ _, [] => none

def run (events : List (Event N T)) (scopes : List (Scope N T)) : Option (List (Scope N T)) :=
  events.foldlM (fun scopes event => step event scopes) scopes

def lexical (scopes : List (Scope N T)) (name : N) : Option T := scopes.findSome? fun scope => scope name

/-- Events that end the scopes they begin. -/
inductive Balanced : List (Event N T) → Prop
  | nil : Balanced []
  | declare {events : List (Event N T)} (name : N) (type : T) (h : Balanced events) :
      Balanced (.declare name type :: events)
  | scope {inside after : List (Event N T)} (hinside : Balanced inside) (hafter : Balanced after) :
      Balanced (.beginScope :: inside ++ .endScope :: after)

@[simp] theorem run_nil (scopes : List (Scope N T)) : run [] scopes = some scopes := rfl

@[simp] theorem run_cons (event : Event N T) (events : List (Event N T))
    (scopes : List (Scope N T)) :
    run (event :: events) scopes = (step event scopes).bind (run events) := rfl

theorem run_append (events events' : List (Event N T)) (scopes : List (Scope N T)) :
    run (events ++ events') scopes = (run events scopes).bind (run events') := by
  induction events generalizing scopes with
  | nil => rfl
  | cons event events ih =>
    rw [List.cons_append, run_cons, run_cons, Option.bind_assoc]
    congr 1
    funext scopes'
    exact ih scopes'

/-- Balanced events leave the outer scopes alone. -/
theorem run_balanced {events : List (Event N T)} (h : Balanced events) (scope : Scope N T)
    (scopes : List (Scope N T)) : ∃ scope', run events (scope :: scopes) = some (scope' :: scopes) := by
  induction h generalizing scope scopes with
  | nil => exact ⟨scope, rfl⟩
  | declare name type h ih =>
    rw [run_cons]
    exact ih _ scopes
  | scope hinside hafter ihinside ihafter =>
    obtain ⟨inner, hinner⟩ := ihinside (fun _ => none) (scope :: scopes)
    obtain ⟨scope', hscope⟩ := ihafter scope scopes
    refine ⟨scope', ?_⟩
    rw [List.cons_append, run_cons, step, Option.bind_some, run_append, hinner, Option.bind_some,
      run_cons, step, Option.bind_some]
    exact hscope

/-- A scope with balanced events inside changes nothing. -/
theorem run_scope {events : List (Event N T)} (h : Balanced events) (scopes : List (Scope N T)) :
    run (.beginScope :: (events ++ [.endScope])) scopes = some scopes := by
  obtain ⟨inner, hinner⟩ := run_balanced h (fun _ => none) scopes
  rw [run_cons, step, Option.bind_some, run_append, hinner]
  rfl

end LexicalScopes
