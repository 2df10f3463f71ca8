import Mathlib.Data.Nat.Notation
import Mathlib.Order.Basic
import Mathlib.Tactic.Common

/-!
# Tracing a graph

What a marking collector keeps while it marks: objects are white (not marked), gray (marked and
waiting) or black. `next` is the graph and `root` its starting points; how marks and the waiting
list are stored is left open.

* `Reaches`: what can be reached from the roots;
* `TriColour`: the invariant of marking, with one rule for each thing a collector does;
* `TriColour.exact`: when nothing waits any more, exactly the reachable objects are marked.
-/

namespace KirbyLang.Tracing

variable {α : Type*}

/-- What can be reached from the roots over edges. -/
inductive Reaches (root : α → Prop) (next : α → α → Prop) : α → Prop
  | root {x : α} : root x → Reaches root next x
  | next {x y : α} : Reaches root next x → next x y → Reaches root next y

variable {root marked marked' : α → Prop} {next : α → α → Prop} {gray : List α} {x y : α}

/-- Only reachable objects are marked, what waits is marked, and what a black object refers to is
marked. -/
structure TriColour (root : α → Prop) (next : α → α → Prop) (marked : α → Prop)
    (gray : List α) : Prop where
  sound : ∀ x, marked x → Reaches root next x
  gray_marked : ∀ x ∈ gray, marked x
  black : ∀ x, marked x → x ∉ gray → ∀ y, next x y → marked y

namespace TriColour

/-- Nothing is marked at first. -/
theorem start (h : ∀ x, ¬ marked x) : TriColour root next marked [] := by
  constructor
  · intro x hx
    exact absurd hx (h x)
  · intro x hx
    cases hx
  · intro x hx
    exact absurd hx (h x)

/-- A reachable object is marked and waits. -/
theorem mark (h : TriColour root next marked gray) (hx : Reaches root next x)
    (hmarked : ∀ y, marked' y ↔ y = x ∨ marked y) :
    TriColour root next marked' (x :: gray) := by
  constructor
  · intro y hy
    rcases (hmarked y).mp hy with rfl | hy
    · exact hx
    · exact h.sound y hy
  · intro y hy
    rcases List.mem_cons.mp hy with rfl | hy
    · exact (hmarked y).mpr (.inl rfl)
    · exact (hmarked y).mpr (.inr (h.gray_marked y hy))
  · intro y hy hgray z hz
    rw [List.mem_cons, not_or] at hgray
    rcases (hmarked y).mp hy with rfl | hy
    · exact absurd rfl hgray.1
    · exact (hmarked z).mpr (.inr (h.black y hy hgray.2 z hz))

/-- An object stops waiting once all it refers to is marked. -/
theorem blacken (h : TriColour root next marked (x :: gray)) (hx : ∀ y, next x y → marked y) :
    TriColour root next marked gray := by
  refine ⟨h.sound, fun y hy => h.gray_marked y (List.mem_cons_of_mem x hy), ?_⟩
  intro y hy hgray z hz
  by_cases hyx : y = x
  · subst hyx
    exact hx z hz
  · refine h.black y hy ?_ z hz
    rw [List.mem_cons, not_or]
    exact ⟨hyx, hgray⟩

/-- The order of the waiting list does not matter. -/
theorem congr_gray {gray' : List α} (h : TriColour root next marked gray)
    (hgray : ∀ x, x ∈ gray' ↔ x ∈ gray) : TriColour root next marked gray' := by
  refine ⟨h.sound, fun y hy => h.gray_marked y ((hgray y).mp hy), ?_⟩
  intro y hy hnot
  exact h.black y hy (by rwa [hgray] at hnot)

/-- When nothing waits, the marked objects are the reachable ones. -/
theorem exact (h : TriColour root next marked []) (hroot : ∀ x, root x → marked x) (x : α) :
    marked x ↔ Reaches root next x := by
  constructor
  · exact h.sound x
  · intro hx
    induction hx with
    | root hx => exact hroot _ hx
    | next _ hxy ih => exact h.black _ ih List.not_mem_nil _ hxy

end TriColour

end KirbyLang.Tracing
