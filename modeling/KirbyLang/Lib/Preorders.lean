import Mathlib.Order.Defs.Unbundled

/-!
# Programs within a preorder

Programs over a state that may fail, and a preorder on the states. What is put together from
programs whose effect is within the preorder has an effect within it.

* `StaysFrom`, `Stays`: the effect of a program is within a relation, from a state and from all;
* `StaysFrom.bind`, `Stays.forM`, `Stays.mapM`: programs put together.
-/

namespace KirbyLang.Preorders

variable {σ α β : Type} {R : σ → σ → Prop} {s s' : σ}

/-- When the program does not fail, the state it started from and the one it ends in are related. -/
def StaysFrom (R : σ → σ → Prop) (p : StateT σ Option α) (s : σ) : Prop :=
  ∀ a s', p s = some (a, s') → R s s'

def Stays (R : σ → σ → Prop) (p : StateT σ Option α) : Prop := ∀ s, StaysFrom R p s

theorem bind_eq_some {p : StateT σ Option α} {f : α → StateT σ Option β} {b : β} {s'' : σ}
    (h : (p >>= f) s = some (b, s'')) : ∃ a s', p s = some (a, s') ∧ f a s' = some (b, s'') := by
  obtain ⟨⟨a, s'⟩, hp, hf⟩ := Option.bind_eq_some_iff.mp h
  exact ⟨a, s', hp, hf⟩

/-- The state is read, and what is read is of use to the rest of the program. -/
theorem StaysFrom.read {f : σ → Option α} {g : α → StateT σ Option β}
    (h : ∀ a, f s = some a → StaysFrom R (g a) s) :
    StaysFrom R ((fun s => (f s).map (·, s) : StateT σ Option α) >>= g) s := by
  intro b s'' hb
  obtain ⟨a, s', ha, hg⟩ := bind_eq_some hb
  obtain ⟨a', ha', heq⟩ := Option.map_eq_some_iff.mp ha
  cases heq
  exact h a ha' b s'' hg

section Rules

variable [IsPreorder σ R]

theorem stays_pure (a : α) : Stays R (pure a) := by
  intro s b s' h
  cases h
  exact Std.Refl.refl s

theorem StaysFrom.bind {p : StateT σ Option α} {f : α → StateT σ Option β}
    (hp : StaysFrom R p s) (hf : ∀ a s', p s = some (a, s') → StaysFrom R (f a) s') :
    StaysFrom R (p >>= f) s := by
  intro b s'' h
  obtain ⟨a, s', ha, hb⟩ := bind_eq_some h
  exact IsTrans.trans _ _ _ (hp a s' ha) (hf a s' ha b s'' hb)

theorem Stays.bind {p : StateT σ Option α} {f : α → StateT σ Option β} (hp : Stays R p)
    (hf : ∀ a, Stays R (f a)) : Stays R (p >>= f) :=
  fun s => (hp s).bind fun a s' _ => hf a s'

theorem Stays.forM {γ : Type*} {xs : List γ} {f : γ → StateT σ Option PUnit}
    (h : ∀ x, Stays R (f x)) : Stays R (xs.forM f) := by
  induction xs with
  | nil => exact stays_pure ()
  | cons x xs ih => exact (h x).bind fun _ => ih

theorem Stays.mapM {xs : List β} {f : β → StateT σ Option α} (h : ∀ x, Stays R (f x)) :
    Stays R (xs.mapM f) := by
  induction xs with
  | nil => exact stays_pure []
  | cons x xs ih =>
    rw [List.mapM_cons]
    exact (h x).bind fun _ => ih.bind fun _ => stays_pure _

theorem stays_read (f : σ → Option α) :
    Stays R (fun s => (f s).map (·, s) : StateT σ Option α) := by
  intro s a s' h
  obtain ⟨a', -, heq⟩ := Option.map_eq_some_iff.mp h
  cases heq
  exact Std.Refl.refl s

end Rules

end KirbyLang.Preorders
