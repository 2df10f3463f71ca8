import KirbyLang.Lib.Laws
import Mathlib.Data.Option.Basic

/-!
# Two runs of a program

Programs that do not look at a part of the state: from two states that differ in that part only they
give the same, and end in two states of which that is true again.

* `Respects`: such a program over a state that can be stopped; `Respects.bind` and the rules for the
  commands;
* `RespectsOrSticks`: such a program that can be stuck;
* `respects_get`, `respectsOrSticks_read`: what is read depends on the rest of the state only.
-/

namespace KirbyLang.Twins

open Laws

variable {σ ε α β : Type} {R : σ → σ → Prop} {s s' : σ}

/-! ### Programs that can be stopped -/

/-- From states in relation a program gives the same, and ends in states in relation. -/
def Respects (R : σ → σ → Prop) (p : ExceptT ε (StateM σ) α) : Prop :=
  ∀ s s', R s s' → (p s').1 = (p s).1 ∧ R (p s).2 (p s').2

section Rules

variable {p : ExceptT ε (StateM σ) α} {f : α → ExceptT ε (StateM σ) β}

theorem respects_pure (a : α) : Respects R (pure a : ExceptT ε (StateM σ) α) :=
  fun _ _ h => ⟨rfl, h⟩

theorem respects_throw (e : ε) : Respects R (throw e : ExceptT ε (StateM σ) α) :=
  fun _ _ h => ⟨rfl, h⟩

theorem Respects.bind (hp : Respects R p) (hf : ∀ a, Respects R (f a)) : Respects R (p >>= f) := by
  intro s s' h
  obtain ⟨hsame, hend⟩ := hp s s' h
  rcases hs : p s with ⟨e | a, t⟩ <;> rcases hs' : p s' with ⟨e' | a', t'⟩ <;>
    simp only [hs, hs', reduceCtorEq] at hsame hend
  · cases hsame
    rw [bind_error hs, bind_error hs']
    exact ⟨rfl, hend⟩
  · cases hsame
    rw [bind_ok hs, bind_ok hs']
    exact hf a t t' hend

/-- The state is read, but only what states in relation have in common. -/
theorem respects_get {read : σ → ExceptT ε (StateM σ) β} (hread : ∀ s s', R s s' → read s' = read s)
    (h : ∀ s, Respects R (read s)) : Respects R (get >>= read) := by
  intro s s' hs
  show (read s' s').1 = (read s s).1 ∧ R (read s s).2 (read s' s').2
  rw [hread s s' hs]
  exact h s s s' hs

theorem respects_modify {change : σ → σ} (h : ∀ s s', R s s' → R (change s) (change s')) :
    Respects R (modify change : ExceptT ε (StateM σ) PUnit) :=
  fun s s' hs => ⟨rfl, h s s' hs⟩

theorem respects_modifyGet {change : σ → α × σ}
    (h : ∀ s s', R s s' → (change s').1 = (change s).1 ∧ R (change s).2 (change s').2) :
    Respects R (modifyGet change : ExceptT ε (StateM σ) α) :=
  fun s s' hs => ⟨congrArg Except.ok (h s s' hs).1, (h s s' hs).2⟩

end Rules

/-! ### Programs that can be stuck -/

/-- From states in relation a program is stuck in both, or gives the same and ends in states in
relation. -/
def RespectsOrSticks (R : σ → σ → Prop) (p : StateT σ Option α) : Prop :=
  ∀ s s', R s s' → (p s = none ∧ p s' = none) ∨
    ∃ a t t', p s = some (a, t) ∧ p s' = some (a, t') ∧ R t t'

section StuckRules

variable {p : StateT σ Option α} {f : α → StateT σ Option β}

theorem respectsOrSticks_pure (a : α) : RespectsOrSticks R (pure a : StateT σ Option α) :=
  fun s s' h => .inr ⟨a, s, s', rfl, rfl, h⟩

theorem RespectsOrSticks.bind (hp : RespectsOrSticks R p) (hf : ∀ a, RespectsOrSticks R (f a)) :
    RespectsOrSticks R (p >>= f) := by
  intro s s' h
  rcases hp s s' h with ⟨hs, hs'⟩ | ⟨a, t, t', hs, hs', hend⟩
  · refine .inl ⟨?_, ?_⟩
    · show (p s).bind _ = none
      rw [hs]
      rfl
    · show (p s').bind _ = none
      rw [hs']
      rfl
  · have hthen : ∀ {u u'}, p u = some (a, u') → (p >>= f) u = f a u' := by
      intro u u' hu
      show (p u).bind _ = _
      rw [hu]
      rfl
    rw [hthen hs, hthen hs']
    exact hf a t t' hend

/-- The state is read, but only what states in relation have in common. -/
theorem respectsOrSticks_read (read : σ → Option α) (hread : ∀ s s', R s s' → read s' = read s) :
    RespectsOrSticks R (fun s => (read s).map (·, s) : StateT σ Option α) := by
  intro s s' h
  cases hs : read s with
  | none => exact .inl ⟨by simp [hs], by simp [hread s s' h, hs]⟩
  | some a => exact .inr ⟨a, s, s', by simp [hs], by simp [hread s s' h, hs], h⟩

end StuckRules

end KirbyLang.Twins
