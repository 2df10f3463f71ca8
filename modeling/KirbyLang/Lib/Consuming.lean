import Mathlib.Data.Nat.Notation
import Mathlib.Tactic.Common

/-!
# Programs that consume

Programs over a state that holds something they take from until its end, as a parser takes tokens.
Such a program may not return. What it does when it returns is measured by how much is left.

* `Discipline`: how programs may change the state, and how much is left in it;
* `Returns`, `Consumes`: a program returns, and returns with less left, unless it was at the end,
  from where one thing holds to where another one does;
* `Returns.bind`, `Consumes.bind`, `Returns.bind_consumes`: programs one after the other;
* `loop`, `loop_returns`, `loop_enough`: a loop that consumes something before each further round
  returns, and does not depend on how many more rounds it may have.
-/

namespace KirbyLang.Consuming

variable {σ α β : Type}

/-- How programs may change the state, and how much is left in it. -/
structure Discipline (σ : Type) where
  goes : σ → σ → Prop
  left : σ → ℕ
  atEnd : σ → Prop
  refl : ∀ s, goes s s
  trans : ∀ {s s' s''}, goes s s' → goes s' s'' → goes s s''
  left_le : ∀ {s s'}, goes s s' → left s' ≤ left s
  /-- The end is only reached by taking something. -/
  atEnd_of : ∀ {s s'}, goes s s' → atEnd s' → left s' < left s ∨ atEnd s

namespace Discipline

variable (d : Discipline σ) {A B C : σ → Prop} {bound : ℕ}

/-- From every state with less than the bound left where `A` holds, the program returns where `B`
holds. -/
def Returns (A B : σ → Prop) (bound : ℕ) (m : StateT σ Option α) : Prop :=
  ∀ s, A s → d.left s < bound → ∃ a s', m s = some (a, s') ∧ d.goes s s' ∧ B s'

/-- The program returns with less left, unless it was at the end. -/
def Consumes (A B : σ → Prop) (bound : ℕ) (m : StateT σ Option α) : Prop :=
  ∀ s, A s → d.left s < bound → ∃ a s', m s = some (a, s') ∧ d.goes s s' ∧ B s' ∧
    (d.left s' < d.left s ∨ d.atEnd s)

variable {d} {m : StateT σ Option α} {f : α → StateT σ Option β}

theorem Consumes.returns (h : d.Consumes A B bound m) : d.Returns A B bound m := by
  intro s start hs
  obtain ⟨a, s', eq, goes, holds, -⟩ := h s start hs
  exact ⟨a, s', eq, goes, holds⟩

theorem Returns.imp {A' B' : σ → Prop} (h : d.Returns A B bound m) (before : ∀ s, A' s → A s)
    (after : ∀ s, B s → B' s) : d.Returns A' B' bound m := by
  intro s start hs
  obtain ⟨a, s', eq, goes, holds⟩ := h s (before s start) hs
  exact ⟨a, s', eq, goes, after s' holds⟩

theorem Consumes.imp {A' B' : σ → Prop} (h : d.Consumes A B bound m) (before : ∀ s, A' s → A s)
    (after : ∀ s, B s → B' s) : d.Consumes A' B' bound m := by
  intro s start hs
  obtain ⟨a, s', eq, goes, holds, less⟩ := h s (before s start) hs
  exact ⟨a, s', eq, goes, after s' holds, less⟩

theorem Returns.mono {bound' : ℕ} (h : d.Returns A B bound m) (le : bound' ≤ bound) :
    d.Returns A B bound' m :=
  fun s start hs => h s start (Nat.lt_of_lt_of_le hs le)

theorem Consumes.mono {bound' : ℕ} (h : d.Consumes A B bound m) (le : bound' ≤ bound) :
    d.Consumes A B bound' m :=
  fun s start hs => h s start (Nat.lt_of_lt_of_le hs le)

theorem Returns.pure (a : α) : d.Returns A A bound (pure a : StateT σ Option α) :=
  fun s start _ => ⟨a, s, rfl, d.refl s, start⟩

theorem bind_eq {s s' : σ} {a : α} (h : m s = some (a, s')) : (m >>= f) s = f a s' := by
  show (m s).bind (fun r => f r.1 r.2) = f a s'
  rw [h]
  rfl

theorem Returns.bind (hm : d.Returns A B bound m) (hf : ∀ a, d.Returns B C bound (f a)) :
    d.Returns A C bound (m >>= f) := by
  intro s start hs
  obtain ⟨a, s', eq, goes, mid⟩ := hm s start hs
  obtain ⟨b, s'', eq', goes', holds⟩ := hf a s' mid (Nat.lt_of_le_of_lt (d.left_le goes) hs)
  exact ⟨b, s'', by rw [bind_eq eq, eq'], d.trans goes goes', holds⟩

/-- The second program only runs with less left, or at the end. -/
theorem Consumes.bind (hm : d.Consumes A B bound m) (hf : ∀ a, d.Returns B C bound (f a)) :
    d.Consumes A C bound (m >>= f) := by
  intro s start hs
  obtain ⟨a, s', eq, goes, mid, less⟩ := hm s start hs
  obtain ⟨b, s'', eq', goes', holds⟩ := hf a s' mid (Nat.lt_of_le_of_lt (d.left_le goes) hs)
  exact ⟨b, s'', by rw [bind_eq eq, eq'], d.trans goes goes', holds,
    less.imp_left (Nat.lt_of_le_of_lt (d.left_le goes'))⟩

theorem Returns.bind_consumes (hm : d.Returns A B bound m)
    (hf : ∀ a, d.Consumes B C bound (f a)) : d.Consumes A C bound (m >>= f) := by
  intro s start hs
  obtain ⟨a, s', eq, goes, mid⟩ := hm s start hs
  have le := d.left_le goes
  obtain ⟨b, s'', eq', goes', holds, less⟩ := hf a s' mid (Nat.lt_of_le_of_lt le hs)
  refine ⟨b, s'', by rw [bind_eq eq, eq'], d.trans goes goes', holds, ?_⟩
  rcases less with less | atEnd
  · exact .inl (Nat.lt_of_lt_of_le less le)
  · exact (d.atEnd_of goes atEnd).imp_left (Nat.lt_of_le_of_lt (d.left_le goes'))

theorem Returns.ite {condition : Prop} [Decidable condition] {m' : StateT σ Option α}
    (h : d.Returns A B bound m) (h' : d.Returns A B bound m') :
    d.Returns A B bound (if condition then m else m') := by
  split
  · exact h
  · exact h'

end Discipline

/-! ### Loops -/

/-- A loop of at most the given number of rounds; a round says whether another one follows. -/
def loop (body : β → StateT σ Option (β × Bool)) : ℕ → β → StateT σ Option β
  | 0, _ => failure
  | rounds + 1, b => do
    let (b, again) ← body b
    if again then loop body rounds b else pure b

variable {body : β → StateT σ Option (β × Bool)}

theorem loop_again {rounds : ℕ} {b b' : β} {s s' : σ} (h : body b s = some ((b', true), s')) :
    loop body (rounds + 1) b s = loop body rounds b' s' :=
  Discipline.bind_eq h

theorem loop_last {rounds : ℕ} {b b' : β} {s s' : σ} (h : body b s = some ((b', false), s')) :
    loop body (rounds + 1) b s = some (b', s') :=
  Discipline.bind_eq h

/-- A loop that takes something before each further round returns. What it carries along may be told
by the state it starts a round in. -/
theorem loop_returns (left : σ → ℕ) (goes : σ → σ → Prop) (start stop : β → σ → Prop)
    (trans : ∀ {s s' s''}, goes s s' → goes s' s'' → goes s s'')
    (hbody : ∀ b s, start b s → ∃ b' again s', body b s = some ((b', again), s') ∧ goes s s' ∧
      (again = true → left s' < left s ∧ start b' s') ∧ (again = false → stop b' s')) :
    ∀ rounds b s, start b s → left s < rounds →
      ∃ b' s', loop body rounds b s = some (b', s') ∧ goes s s' ∧ stop b' s' := by
  intro rounds
  induction rounds with
  | zero => exact fun _ _ _ h => absurd h (Nat.not_lt_zero _)
  | succ rounds ih =>
    intro b s hs enough
    obtain ⟨b', again, s', eq, hgoes, further, last⟩ := hbody b s hs
    cases again with
    | false => exact ⟨b', s', loop_last eq, hgoes, last rfl⟩
    | true =>
      obtain ⟨less, hs'⟩ := further rfl
      obtain ⟨b'', s'', eq', hgoes', stops⟩ := ih b' s' hs' (by omega)
      exact ⟨b'', s'', (loop_again eq).trans eq', trans hgoes hgoes', stops⟩

/-- Further rounds than there is something left for change nothing. -/
theorem loop_enough (left : σ → ℕ) (start : σ → Prop)
    (hbody : ∀ b s, start s → ∃ b' again s', body b s = some ((b', again), s') ∧
      (again = true → left s' < left s ∧ start s')) :
    ∀ rounds rounds' b s, start s → left s < rounds → left s < rounds' →
      loop body rounds b s = loop body rounds' b s := by
  intro rounds
  induction rounds with
  | zero => exact fun _ _ _ _ h => absurd h (Nat.not_lt_zero _)
  | succ rounds ih =>
    intro rounds' b s hs enough enough'
    obtain ⟨rounds', rfl⟩ := Nat.exists_eq_succ_of_ne_zero (Nat.ne_zero_of_lt enough')
    obtain ⟨b', again, s', eq, further⟩ := hbody b s hs
    cases again with
    | false => exact (loop_last eq).trans (loop_last eq).symm
    | true =>
      obtain ⟨less, hs'⟩ := further rfl
      rw [loop_again eq, loop_again eq]
      exact ih rounds' b' s' hs' (by omega) (by omega)

end KirbyLang.Consuming
