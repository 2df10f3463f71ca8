import Mathlib.Data.Nat.Notation
import Mathlib.Tactic.Common

/-!
# Forward walks of structured code

A walk that passes each action of a piece of code once and keeps what it knows in a domain. What
the two ways of a branch know is joined, what a loop does is forgotten after it, and what follows
an exit is not passed.

* `Flow`, `Domain`, `Flow.run`: the code, what is kept, the walk;
* `Flow.run_map`: a map between domains that respects their operations commutes with the walk;
* `Flow.run_invariant`: what the operations keep holds wherever the walk passes.
-/

namespace KirbyLang.ForwardWalks

inductive Flow (α : Type*)
  | done
  | act (action : α)
  | seq (first second : Flow α)
  | exit
  | branch (first second : Flow α)
  | loop (body : Flow α)
  /-- What is known inside may be given up at the end. -/
  | inScope (body : Flow α)
  /-- The walk goes on after an exit inside. -/
  | resume (body : Flow α)

structure Domain (α D : Type*) where
  act : α → D → D
  join : D → D → D
  /-- From what is known before a scope and at its end. -/
  leave : D → D → D

/-- What came of a walk: each action with what was known before it, what is known at the end, and
whether the code exits. -/
structure Passage (α D : Type*) where
  seen : List (α × D)
  after : D
  exits : Bool

variable {α D E : Type*}

/-- What is known after a branch that began with `d`. -/
def joinAfter (dom : Domain α D) (d : D) (first second : Passage α D) : D :=
  if first.exits then if second.exits then d else second.after
  else if second.exits then first.after else dom.join first.after second.after

def Flow.run (dom : Domain α D) : Flow α → D → Passage α D
  | done, d => ⟨[], d, false⟩
  | act action, d => ⟨[(action, d)], dom.act action d, false⟩
  | seq first second, d =>
    let p := first.run dom d
    if p.exits then p
    else
      let q := second.run dom p.after
      ⟨p.seen ++ q.seen, q.after, q.exits⟩
  | exit, d => ⟨[], d, true⟩
  | branch first second, d =>
    let p := first.run dom d
    let q := second.run dom d
    ⟨p.seen ++ q.seen, joinAfter dom d p q, p.exits && q.exits⟩
  | loop body, d => ⟨(body.run dom d).seen, d, false⟩
  | inScope body, d =>
    let p := body.run dom d
    ⟨p.seen, dom.leave d p.after, p.exits⟩
  | resume body, d =>
    let p := body.run dom d
    ⟨p.seen, p.after, false⟩

/-! ### Maps between domains -/

def Passage.map (h : D → E) (p : Passage α D) : Passage α E :=
  ⟨p.seen.map fun x => (x.1, h x.2), h p.after, p.exits⟩

theorem joinAfter_map {dom : Domain α D} {dom' : Domain α E} {h : D → E}
    (hjoin : ∀ d d', h (dom.join d d') = dom'.join (h d) (h d')) (d : D) (p q : Passage α D) :
    joinAfter dom' (h d) (p.map h) (q.map h) = h (joinAfter dom d p q) := by
  unfold joinAfter
  cases hp : p.exits <;> cases hq : q.exits <;> simp [Passage.map, hp, hq, hjoin]

/-- The walk in one domain is the image of the walk in another. -/
theorem Flow.run_map {dom : Domain α D} {dom' : Domain α E} {h : D → E}
    (hact : ∀ action d, h (dom.act action d) = dom'.act action (h d))
    (hjoin : ∀ d d', h (dom.join d d') = dom'.join (h d) (h d'))
    (hleave : ∀ d d', h (dom.leave d d') = dom'.leave (h d) (h d')) (flow : Flow α) (d : D) :
    flow.run dom' (h d) = (flow.run dom d).map h := by
  induction flow generalizing d with
  | done => rfl
  | act action => simp [run, Passage.map, hact]
  | exit => rfl
  | seq first second ih ih' =>
    simp only [run, ih]
    cases hexits : (first.run dom d).exits with
    | true => simp [Passage.map, hexits]
    | false =>
      have hsecond := ih' (first.run dom d).after
      simp [Passage.map, hexits, hsecond]
  | branch first second ih ih' =>
    simp only [run, ih, ih', joinAfter_map hjoin]
    simp [Passage.map]
  | loop body ih => simp [run, ih, Passage.map]
  | inScope body ih => simp [run, ih, Passage.map, hleave]
  | resume body ih => simp [run, ih, Passage.map]

/-- Two domains side by side. -/
def Domain.prod (dom : Domain α D) (dom' : Domain α E) : Domain α (D × E) where
  act action d := (dom.act action d.1, dom'.act action d.2)
  join d d' := (dom.join d.1 d'.1, dom'.join d.2 d'.2)
  leave d d' := (dom.leave d.1 d'.1, dom'.leave d.2 d'.2)

theorem Flow.run_prod_fst (dom : Domain α D) (dom' : Domain α E) (flow : Flow α) (d : D × E) :
    flow.run dom d.1 = (flow.run (dom.prod dom') d).map Prod.fst :=
  Flow.run_map (fun _ _ => rfl) (fun _ _ => rfl) (fun _ _ => rfl) flow d

/-! ### Invariants -/

/-- What the operations of a domain keep. -/
structure Domain.Keeps (dom : Domain α D) (P : D → Prop) : Prop where
  act : ∀ action d, P d → P (dom.act action d)
  join : ∀ d d', P d → P d' → P (dom.join d d')
  leave : ∀ d d', P d → P d' → P (dom.leave d d')

theorem Flow.run_invariant {dom : Domain α D} {P : D → Prop} (hkeeps : dom.Keeps P)
    (flow : Flow α) {d : D} (h : P d) :
    P (flow.run dom d).after ∧ ∀ x ∈ (flow.run dom d).seen, P x.2 := by
  induction flow generalizing d with
  | done | exit => exact ⟨h, fun x hx => nomatch hx⟩
  | act action =>
    refine ⟨hkeeps.act action d h, fun x hx => ?_⟩
    rw [List.mem_singleton.mp hx]
    exact h
  | seq first second ih ih' =>
    obtain ⟨hafter, hseen⟩ := ih h
    simp only [run]
    split
    · exact ⟨hafter, hseen⟩
    · obtain ⟨hafter', hseen'⟩ := ih' hafter
      exact ⟨hafter', fun x hx => (List.mem_append.mp hx).elim (hseen x) (hseen' x)⟩
  | branch first second ih ih' =>
    obtain ⟨hfirst, hseen⟩ := ih h
    obtain ⟨hsecond, hseen'⟩ := ih' h
    refine ⟨?_, fun x hx => (List.mem_append.mp hx).elim (hseen x) (hseen' x)⟩
    simp only [run, joinAfter]
    split
    · split <;> assumption
    · split
      · assumption
      · exact hkeeps.join _ _ hfirst hsecond
  | loop body ih => exact ⟨h, (ih h).2⟩
  | inScope body ih => exact ⟨hkeeps.leave _ _ h (ih h).1, (ih h).2⟩
  | resume body ih => exact ih h

end KirbyLang.ForwardWalks
