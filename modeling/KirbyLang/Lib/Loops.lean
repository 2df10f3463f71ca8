import Mathlib.Data.Nat.Notation
import Mathlib.Order.Basic
import Mathlib.Tactic.Common

/-!
# Counted loops that may fail

The rule of a `for` loop whose body may fail: what holds before the loop and is kept by each
round, which then does not fail, holds after it.
-/

namespace KirbyLang.Loops

variable {σ : Type*} {s : σ}

/-- A loop from `0` up to `n`. -/
theorem foldlM_range_spec {f : σ → ℕ → Option σ} {P : ℕ → σ → Prop} {n : ℕ} (h0 : P 0 s)
    (hstep : ∀ i < n, ∀ s, P i s → ∃ s', f s i = some s' ∧ P (i + 1) s') :
    ∃ s', (List.range n).foldlM f s = some s' ∧ P n s' := by
  induction n with
  | zero => exact ⟨s, rfl, h0⟩
  | succ n ih =>
    obtain ⟨t, ht, hP⟩ := ih fun i hi => hstep i (Nat.lt_succ_of_lt hi)
    obtain ⟨u, hu, hP'⟩ := hstep n (Nat.lt_succ_self n) t hP
    refine ⟨u, ?_, hP'⟩
    rw [List.range_succ, List.foldlM_append, ht]
    show [n].foldlM f t = some u
    rw [List.foldlM_cons, hu]
    rfl

end KirbyLang.Loops
