import Mathlib.Data.Nat.Notation
import Mathlib.Data.Nat.Find
import Mathlib.Tactic.Common

/-!
# Linear probing

A ring of `n` cells searched from a starting cell onwards. What is kept at a cell and what stops
a search are left open.

* `cell n start i`: the cell a search that starts at `start` looks at after `i` steps;
* `Chained n busy start p`: the search from `start` comes to `p` over cells that are `busy`.
-/

namespace KirbyLang.Probing

variable {n start i j p : ℕ} {busy busy' : ℕ → Prop}

/-- The cell looked at after `i` steps. -/
def cell (n start i : ℕ) : ℕ := (start + i) % n

@[simp] theorem cell_zero : cell n start 0 = start % n := rfl

theorem cell_lt (h : 0 < n) : cell n start i < n := Nat.mod_lt _ h

theorem cell_succ : (cell n start i + 1) % n = cell n start (i + 1) := by
  unfold cell
  rw [Nat.mod_add_mod, Nat.add_assoc]

/-- A search of `n` steps comes to every cell. -/
theorem exists_cell (hp : p < n) (start : ℕ) : ∃ i < n, cell n start i = p := by
  have hn : 0 < n := Nat.lt_of_le_of_lt (Nat.zero_le p) hp
  have hstart : start % n < n := Nat.mod_lt _ hn
  refine ⟨(p + (n - start % n)) % n, Nat.mod_lt _ hn, ?_⟩
  unfold cell
  calc (start + (p + (n - start % n)) % n) % n
      = (start % n + (p + (n - start % n))) % n := by
        rw [Nat.add_mod_mod, ← Nat.mod_add_mod start]
    _ = (p + n) % n := by congr 1; omega
    _ = p := by rw [Nat.add_mod_right, Nat.mod_eq_of_lt hp]

/-- The search from `start` comes to `p` over busy cells. -/
def Chained (n : ℕ) (busy : ℕ → Prop) (start p : ℕ) : Prop :=
  ∃ i < n, cell n start i = p ∧ ∀ j < i, busy (cell n start j)

/-- Cells may become busy without a chain being cut. -/
theorem Chained.mono (h : ∀ q, busy q → busy' q) :
    Chained n busy start p → Chained n busy' start p := by
  rintro ⟨i, hi, hp, hbusy⟩
  exact ⟨i, hi, hp, fun j hj => h _ (hbusy j hj)⟩

/-- Where some cell has a property, a search comes to a first one. -/
theorem exists_first {P : ℕ → Prop} (hp : p < n) (hstop : P p) (start : ℕ) :
    ∃ i < n, P (cell n start i) ∧ ∀ j < i, ¬ P (cell n start j) := by
  classical
  obtain ⟨i, hi, hcell⟩ := exists_cell hp start
  have hex : ∃ i, P (cell n start i) := ⟨i, hcell ▸ hstop⟩
  refine ⟨Nat.find hex, ?_, Nat.find_spec hex, fun j hj => Nat.find_min hex hj⟩
  exact Nat.lt_of_le_of_lt (Nat.find_min' hex (hcell ▸ hstop)) hi

end KirbyLang.Probing
