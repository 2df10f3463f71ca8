import Mathlib.Data.Nat.Notation

/-!
# Items of different lengths

A store in which items stand one behind the other and only an item itself tells how long it is, as
the instructions of a machine do.

* `Boundary`: the places where an item begins or the last one ends;
* `Boundary.gap`: no item begins inside another;
* `Boundary.mono`, `Boundary.restrict`: a store that is continued.
-/

namespace KirbyLang.Boundaries

/-- The places at which an item begins or the last one ends. `length` gives the length of the item
at a place, if there can be one. -/
inductive Boundary (length : ℕ → Option ℕ) (size : ℕ) : ℕ → Prop
  | start : Boundary length size 0
  | next {place count : ℕ} (before : Boundary length size place)
      (found : length place = some count) (fits : place + count ≤ size) :
      Boundary length size (place + count)

/-- The store holds whole items up to its end. -/
def Whole (length : ℕ → Option ℕ) (size : ℕ) : Prop := Boundary length size size

/-- No item is empty. -/
def Nonempty (length : ℕ → Option ℕ) : Prop := ∀ place count, length place = some count → 0 < count

variable {length length' : ℕ → Option ℕ} {size size' place place' count : ℕ}

theorem Boundary.le (h : Boundary length size place) : place ≤ size := by
  cases h with
  | start => exact Nat.zero_le size
  | next _ _ fits => exact fits

/-- An item ends before the next one begins. -/
theorem Boundary.gap (hpos : Nonempty length) (h : Boundary length size place)
    (h' : Boundary length size place') (hlt : place < place') :
    ∃ count, length place = some count ∧ place + count ≤ place' := by
  induction place' using Nat.strongRecOn generalizing place with
  | ind place' ih =>
    cases h' with
    | start => exact absurd hlt (Nat.not_lt_zero place)
    | @next last count hlast hfound hfits =>
      have hcount := hpos last count hfound
      rcases Nat.lt_trichotomy place last with hbefore | rfl | hbehind
      · obtain ⟨count', hfound', hle⟩ := ih last (by omega) h hlast hbefore
        exact ⟨count', hfound', by omega⟩
      · exact ⟨count, hfound, Nat.le_refl _⟩
      · -- the place would be inside the last item
        obtain ⟨count', hfound', hle⟩ := ih place hlt hlast h hbehind
        rw [hfound] at hfound'
        cases hfound'
        omega

/-- In a store of whole items there is an item at every boundary but the end. -/
theorem Whole.item (hwhole : Whole length size) (hpos : Nonempty length)
    (h : Boundary length size place) (hlt : place < size) :
    ∃ count, length place = some count ∧ place + count ≤ size := h.gap hpos hwhole hlt

/-- The items are found in another store too. -/
theorem Boundary.mono (hsize : size ≤ size')
    (hfound : ∀ place count, Boundary length size place → length place = some count →
      place + count ≤ size → length' place = some count)
    (h : Boundary length size place) : Boundary length' size' place := by
  induction h with
  | start => exact .start
  | next hbefore hitem hfits ih =>
    exact .next ih (hfound _ _ hbefore hitem hfits) (Nat.le_trans hfits hsize)

/-- What begins in the first part of a longer store begins there already. -/
theorem Boundary.restrict (hpos : Nonempty length) (hwhole : Whole length size)
    (hfound : ∀ place count, Boundary length size place → length place = some count →
      place + count ≤ size → length' place = some count)
    (h : Boundary length' size' place) (hle : place ≤ size) : Boundary length size place := by
  induction h with
  | start => exact .start
  | @next last count hbefore hitem hfits ih =>
    have hcases : count = 0 ∨ last < size := by omega
    rcases hcases with rfl | hlt
    · exact ih hle
    have hlast := ih (Nat.le_of_lt hlt)
    obtain ⟨count', hitem', hfits'⟩ := hwhole.item hpos hlast hlt
    have hsame := hfound last count' hlast hitem' hfits'
    rw [hitem] at hsame
    cases hsame
    exact .next hlast hitem' hfits'

/-- A store that is continued by one item. -/
theorem Whole.append (hwhole : Whole length size)
    (hfound : ∀ place count, Boundary length size place → length place = some count →
      place + count ≤ size → length' place = some count)
    (hitem : length' size = some count) (hsize : size' = size + count) : Whole length' size' := by
  subst hsize
  exact .next (hwhole.mono (Nat.le_add_right size count) hfound) hitem (Nat.le_refl _)

/-- Where the boundaries of the continued store are. -/
theorem Boundary.of_append (hpos : Nonempty length) (hpos' : Nonempty length')
    (hwhole : Whole length size)
    (hfound : ∀ place count, Boundary length size place → length place = some count →
      place + count ≤ size → length' place = some count)
    (hitem : length' size = some count) (h : Boundary length' (size + count) place) :
    Boundary length size place ∨ place = size + count := by
  rcases Nat.lt_or_ge size place with hlt | hle
  · have hend : Boundary length' (size + count) size :=
      hwhole.mono (Nat.le_add_right size count) hfound
    obtain ⟨count', hitem', hbound⟩ := hend.gap hpos' h hlt
    rw [hitem] at hitem'
    cases hitem'
    exact .inr (Nat.le_antisymm h.le hbound)
  · exact .inl (h.restrict hpos hwhole hfound hle)

end KirbyLang.Boundaries
