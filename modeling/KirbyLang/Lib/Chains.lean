import Mathlib.Data.Finset.Card
import Mathlib.Data.Finset.Range
import Mathlib.Tactic.Common

/-!
# Chains of links

Each thing may be linked to a next one. A chain from a thing ends, or goes on for ever, perhaps
around a cycle that the thing itself is not on.

* `follow next n a`: where `n` links lead from `a`;
* `Endless next a`: however many links are followed, there is another one;
* `endless_of_follow`: among finitely many things with a link, more links than things never end.
-/

namespace KirbyLang.Chains

variable {α : Type*} {next : α → Option α} {a b : α} {m n : ℕ}

/-- Follow `n` links. -/
def follow (next : α → Option α) : ℕ → α → Option α
  | 0, a => some a
  | n + 1, a => (next a).bind (follow next n)

/-- Following the links never ends. -/
def Endless (next : α → Option α) (a : α) : Prop := ∀ n, (follow next n a).isSome

@[simp] theorem follow_zero (a : α) : follow next 0 a = some a := rfl

theorem follow_succ (n : ℕ) (a : α) : follow next (n + 1) a = (next a).bind (follow next n) := rfl

/-- Links followed in two stretches. -/
theorem follow_add (m n : ℕ) (a : α) :
    follow next (m + n) a = (follow next m a).bind (follow next n) := by
  induction m generalizing a with
  | zero => rw [Nat.zero_add, follow_zero, Option.bind_some]
  | succ m ih =>
    rw [Nat.add_right_comm, follow_succ, follow_succ]
    cases next a with
    | none => rfl
    | some b => exact ih b

theorem follow_isSome_mono (h : (follow next n a).isSome) (hmn : m ≤ n) :
    (follow next m a).isSome := by
  obtain ⟨d, rfl⟩ := Nat.exists_eq_add_of_le hmn
  rw [follow_add] at h
  cases hm : follow next m a with
  | none =>
    rw [hm] at h
    cases h
  | some b => rfl

theorem endless_of_next (h : next a = some b) : Endless next a ↔ Endless next b := by
  constructor
  · intro ha n
    have hn := ha (n + 1)
    rwa [follow_succ, h, Option.bind_some] at hn
  · intro hb n
    cases n with
    | zero => rfl
    | succ n =>
      rw [follow_succ, h, Option.bind_some]
      exact hb n

theorem not_endless_of_next (h : next a = none) : ¬ Endless next a := by
  intro ha
  have hone := ha 1
  rw [follow_succ, h] at hone
  cases hone

/-- A chain that comes back to where it was never ends. -/
theorem endless_of_cycle (hn : 0 < n) (h : follow next n a = some a) : Endless next a := by
  intro m
  induction m using Nat.strong_induction_on with
  | _ m ih =>
    rcases Nat.lt_or_ge m n with hlt | hge
    · have hsome : (follow next n a).isSome := by rw [h]; rfl
      exact follow_isSome_mono hsome (Nat.le_of_lt hlt)
    · obtain ⟨d, rfl⟩ := Nat.exists_eq_add_of_le hge
      rw [follow_add, h, Option.bind_some]
      exact ih d (by omega)

/-- What a chain leads to never ends, so neither does the chain. -/
theorem endless_of_follow_eq (h : follow next n a = some b) (hb : Endless next b) :
    Endless next a := by
  intro m
  have hlong : (follow next (n + m) a).isSome := by
    rw [follow_add, h, Option.bind_some]
    exact hb m
  exact follow_isSome_mono hlong (Nat.le_add_left m n)

/-- Where only the members of a finite set have a link, a chain that is longer than the set has
met some member twice, and never ends. -/
theorem endless_of_follow [DecidableEq α] {linked : Finset α}
    (hlinked : ∀ a, (next a).isSome → a ∈ linked) (hlong : linked.card < n)
    (h : (follow next n a).isSome) : Endless next a := by
  -- the members met on the way
  obtain ⟨met, hmet⟩ : ∃ met : ℕ → α, ∀ i ≤ n, follow next i a = some (met i) := by
    refine ⟨fun i => (follow next i a).getD a, fun i hi => ?_⟩
    obtain ⟨b, hb⟩ := Option.isSome_iff_exists.mp (follow_isSome_mono h hi)
    show follow next i a = some ((follow next i a).getD a)
    rw [hb]
    rfl
  have hmaps : Set.MapsTo met (Finset.range n) linked := by
    intro i hi
    have hlt : i < n := Finset.mem_range.mp hi
    apply hlinked
    have hsucc := hmet (i + 1) hlt
    rw [follow_add, hmet i (Nat.le_of_lt hlt), Option.bind_some, follow_succ] at hsucc
    cases hnext : next (met i) with
    | none =>
      rw [hnext] at hsucc
      cases hsucc
    | some b => rfl
  have hcard : linked.card < (Finset.range n).card := by rwa [Finset.card_range]
  obtain ⟨i, hi, j, hj, hne, hsame⟩ := Finset.exists_ne_map_eq_of_card_lt_of_maps_to hcard hmaps
  rw [Finset.mem_range] at hi hj
  have hback : ∀ i j, i < j → j < n → met i = met j → Endless next a := by
    intro i j hlt hj hsame
    obtain ⟨d, rfl⟩ := Nat.exists_eq_add_of_le (Nat.le_of_lt hlt)
    have hcycle := hmet (i + d) (Nat.le_of_lt hj)
    rw [follow_add, hmet i (by omega), Option.bind_some, ← hsame] at hcycle
    exact endless_of_follow_eq (hmet i (by omega)) (endless_of_cycle (by omega) hcycle)
  rcases Nat.lt_or_gt_of_ne hne with hlt | hgt
  · exact hback i j hlt hj hsame
  · exact hback j i hgt hi hsame.symm

end KirbyLang.Chains
