import KirbyLang.Lib.Laws

/-!
# Triples

Programs from states with one property to states with another, which obey a law on the way. The
second property is asked for only where the program goes on.

* `Law.Triple`: the triple of a property, a program and a property;
* `Triple.bind`, `Triple.weaken`: how triples are put together;
* `triple_forM`: loops with an invariant.
-/

namespace KirbyLang.Laws

variable {σ ε α β : Type} {law : Law σ ε}

/-- From a state with `pre` the program obeys the law, and what it gives and the state it goes on in
have `post`. -/
def Law.Triple (law : Law σ ε) (pre : σ → Prop) (p : ExceptT ε (StateM σ) α) (post : α → σ → Prop) :
    Prop :=
  ∀ s, pre s →
    match p s with
    | (.ok a, s') => law.goes s s' ∧ post a s'
    | (.error e, s') => law.stops e s s'

section Rules

variable {pre pre' : σ → Prop} {p : ExceptT ε (StateM σ) α} {post post' : α → σ → Prop}
  {f : α → ExceptT ε (StateM σ) β} {final : β → σ → Prop} {s s' : σ}

theorem Law.Triple.ok {a : α} (h : law.Triple pre p post) (hpre : pre s) (hp : p s = (.ok a, s')) :
    law.goes s s' ∧ post a s' := by
  have hs := h s hpre
  rwa [hp] at hs

theorem Law.Triple.error {e : ε} (h : law.Triple pre p post) (hpre : pre s)
    (hp : p s = (.error e, s')) : law.stops e s s' := by
  have hs := h s hpre
  rwa [hp] at hs

theorem Law.Triple.bind (hp : law.Triple pre p post) (hf : ∀ a, law.Triple (post a) (f a) final) :
    law.Triple pre (p >>= f) final := by
  intro s hpre
  rcases hps : p s with ⟨e | a, s'⟩
  · rw [bind_error hps]
    exact hp.error hpre hps
  · rw [bind_ok hps]
    obtain ⟨hgoes, hpost⟩ := hp.ok hpre hps
    rcases hfs : f a s' with ⟨e | b, s''⟩
    · exact law.trans_stops hgoes ((hf a).error hpost hfs)
    · obtain ⟨hgoes', hfinal⟩ := (hf a).ok hpost hfs
      exact ⟨law.trans hgoes hgoes', hfinal⟩

theorem Law.Triple.weaken (h : law.Triple pre p post) (hpre : ∀ s, pre' s → pre s)
    (hpost : ∀ a s, post a s → post' a s) : law.Triple pre' p post' := by
  intro s hs
  rcases hps : p s with ⟨e | a, s'⟩
  · exact h.error (hpre s hs) hps
  · exact (h.ok (hpre s hs) hps).imp_right (hpost a s')

/-- From a given state the program gives what it gives there. -/
theorem Law.Triple.remember (h : law.Triple pre p post) (hs : pre s) :
    law.Triple (fun s' => s' = s) p fun a s' => p s = (.ok a, s') ∧ post a s' := by
  intro s' hsame
  obtain rfl : s' = s := hsame
  rcases hps : p s' with ⟨e | a, s''⟩
  · exact h.error hs hps
  · obtain ⟨hgoes, hpost⟩ := h.ok hs hps
    exact ⟨hgoes, rfl, hpost⟩

theorem triple_pure {a : α} (h : ∀ s, pre s → post a s) :
    law.Triple pre (pure a : ExceptT ε (StateM σ) α) post :=
  fun s hs => ⟨law.refl s, h s hs⟩

/-- The state is read; what it says when it is read stays true. -/
theorem triple_get {g : σ → ExceptT ε (StateM σ) β}
    (h : ∀ s, pre s → law.Triple (fun s' => s' = s) (g s) final) :
    law.Triple pre (get >>= g) final :=
  fun s hs => h s hs s rfl

/-- The state is read, and what is read of it does not matter. -/
theorem triple_read {g : σ → ExceptT ε (StateM σ) β} (h : ∀ s, law.Triple pre (g s) final) :
    law.Triple pre (get >>= g) final := fun s hs => h s s hs

theorem triple_modify {g : σ → σ} {after : σ → Prop} (hgoes : ∀ s, pre s → law.goes s (g s))
    (hpost : ∀ s, pre s → after (g s)) :
    law.Triple pre (modify g : ExceptT ε (StateM σ) PUnit) fun _ => after :=
  fun s hs => ⟨hgoes s hs, hpost s hs⟩

theorem triple_throw {e : ε} (h : ∀ s, law.stops e s s) :
    law.Triple pre (throw e : ExceptT ε (StateM σ) α) post := fun s _ => h s

theorem triple_forM {xs : List β} {g : β → ExceptT ε (StateM σ) PUnit}
    (h : ∀ x, law.Triple pre (g x) fun _ => pre) : law.Triple pre (xs.forM g) fun _ => pre := by
  induction xs with
  | nil => exact triple_pure fun _ hs => hs
  | cons x xs ih => exact (h x).bind fun _ => ih

end Rules

end KirbyLang.Laws
