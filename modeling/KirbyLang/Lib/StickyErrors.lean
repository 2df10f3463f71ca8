import Mathlib.Data.List.Basic

/-!
# Programs with an error flag

A program over a state that reports errors there and goes on. Once there is an error there always
is one, and what the program does after it does not matter.

* `Triple`: a property before, a program, a property after unless there is an error;
* `Triple.bind`, `Triple.both`: how triples are put together;
* `triple_before`: what is known refers to an earlier state;
* `triple_forM`: loops with an invariant.
-/

namespace KirbyLang.StickyErrors

variable {σ α β : Type} {erred : σ → Prop}

/-- From a state with `pre` the program ends with an error or in a state with `post`. It takes no
error away. -/
def Triple (erred : σ → Prop) (pre : σ → Prop) (p : StateM σ α) (post : α → σ → Prop) : Prop :=
  ∀ s, (erred s → erred (p.run s).2) ∧ (pre s → erred (p.run s).2 ∨ post (p.run s).1 (p.run s).2)

variable {pre pre' : σ → Prop} {p : StateM σ α} {post post' : α → σ → Prop}
  {f : α → StateM σ β} {final : β → σ → Prop}

theorem Triple.bind (hp : Triple erred pre p post) (hf : ∀ a, Triple erred (post a) (f a) final) :
    Triple erred pre (p >>= f) final := by
  intro s
  have hrest := hf (p.run s).1 (p.run s).2
  refine ⟨fun herr => hrest.1 ((hp s).1 herr), fun hpre => ?_⟩
  rcases (hp s).2 hpre with herr | hpost
  · exact .inl (hrest.1 herr)
  · exact hrest.2 hpost

theorem Triple.weaken (h : Triple erred pre p post) (hpre : ∀ s, pre' s → pre s)
    (hpost : ∀ a s, post a s → post' a s) : Triple erred pre' p post' :=
  fun s => ⟨(h s).1, fun hs => ((h s).2 (hpre s hs)).imp_right (hpost _ _)⟩

theorem Triple.strengthen (h : Triple erred pre p post) (hpre : ∀ s, pre' s → pre s) :
    Triple erred pre' p post := h.weaken hpre fun _ _ hs => hs

theorem Triple.both (h : Triple erred pre p post) (h' : Triple erred pre' p post') :
    Triple erred (fun s => pre s ∧ pre' s) p fun a s => post a s ∧ post' a s := by
  intro s
  refine ⟨(h s).1, fun hs => ?_⟩
  rcases (h s).2 hs.1 with herr | hpost
  · exact .inl herr
  · exact ((h' s).2 hs.2).imp_right fun hpost' => ⟨hpost, hpost'⟩

/-- The second triple holds whether there is an error or not. -/
theorem Triple.always (h : Triple erred pre p post) (h' : Triple (fun _ => False) pre' p post') :
    Triple erred (fun s => pre s ∧ pre' s) p fun a s => post a s ∧ post' a s := by
  intro s
  refine ⟨(h s).1, fun hs => ((h s).2 hs.1).imp_right fun hpost => ⟨hpost, ?_⟩⟩
  exact ((h' s).2 hs.2).resolve_left id

/-- What is known of the state refers to a state from before. -/
theorem triple_before {pre : σ → σ → Prop} {post : σ → α → σ → Prop} {known : σ → Prop}
    (h : ∀ before, Triple erred (pre before) p (post before)) :
    Triple erred (fun s => ∃ before, known before ∧ pre before s) p fun a s =>
      ∃ before, known before ∧ post before a s := by
  refine fun s => ⟨(h s s).1, fun ⟨before, hknown, hpre⟩ => ?_⟩
  exact ((h before s).2 hpre).imp_right fun hpost => ⟨before, hknown, hpost⟩

theorem triple_pure {a : α} (h : ∀ s, pre s → post a s) : Triple erred pre (pure a) post :=
  fun s => ⟨id, fun hs => .inr (h s hs)⟩

/-- The state is read. -/
theorem triple_get {g : σ → StateM σ β}
    (h : ∀ s, Triple erred (fun s' => s' = s ∧ pre s) (g s) final) :
    Triple erred pre (get >>= g) final :=
  fun s => ⟨(h s s).1, fun hs => (h s s).2 ⟨rfl, hs⟩⟩

/-- The state is read, and what is read of it does not matter. -/
theorem triple_read {g : σ → StateM σ β} (h : ∀ s, Triple erred pre (g s) final) :
    Triple erred pre (get >>= g) final := fun s => h s s

theorem triple_modify {g : σ → σ} {after : σ → Prop} (herr : ∀ s, erred s → erred (g s))
    (h : ∀ s, pre s → after (g s)) :
    Triple erred pre (modify g : StateM σ PUnit) fun _ => after :=
  fun s => ⟨herr s, fun hs => .inr (h s hs)⟩

/-- A program that always reports an error. -/
theorem triple_error (h : ∀ s, erred (p.run s).2) : Triple erred pre p post :=
  fun s => ⟨fun _ => h s, fun _ => .inl (h s)⟩

theorem Triple.ite {c : Prop} [Decidable c] {q : StateM σ α} (hp : c → Triple erred pre p post)
    (hq : ¬ c → Triple erred pre q post) : Triple erred pre (if c then p else q) post := by
  by_cases hc : c
  · rw [if_pos hc]
    exact hp hc
  · rw [if_neg hc]
    exact hq hc

theorem triple_forM {xs : List β} {g : β → StateM σ PUnit}
    (h : ∀ x ∈ xs, Triple erred pre (g x) fun _ => pre) :
    Triple erred pre (xs.forM g) fun _ => pre := by
  induction xs with
  | nil => exact triple_pure fun _ hs => hs
  | cons x xs ih =>
    exact (h x List.mem_cons_self).bind fun _ => ih fun y hy => h y (List.mem_cons_of_mem x hy)

end KirbyLang.StickyErrors
