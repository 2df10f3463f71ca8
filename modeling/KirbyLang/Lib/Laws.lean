import Mathlib.Logic.Basic
import Mathlib.Order.Defs.Unbundled

/-!
# Laws of programs

Programs over a state that can be stopped at any point. A law says how the state may change up to
the places where a program goes on, where it has failed, and where it is stopped. What is put
together from programs that obey a law obeys it.

* `Law.ObeysFrom`: a program obeys a law from a state; `Law.Obeys`: from every state;
* `ObeysFrom.bind`: a failure of the first part is a failure of the whole;
* `obeys_forM`: loops.
-/

namespace KirbyLang.Laws

/-- How a program may change the state. -/
structure Law (σ ε : Type) where
  goes : σ → σ → Prop
  fails : σ → σ → Prop
  stops : ε → σ → σ → Prop
  refl : ∀ s, goes s s
  trans : ∀ {s s' s''}, goes s s' → goes s' s'' → goes s s''
  trans_fails : ∀ {s s' s''}, goes s s' → fails s' s'' → fails s s''
  trans_stops : ∀ {e s s' s''}, goes s s' → stops e s' s'' → stops e s s''

variable {σ ε α β : Type} {law : Law σ ε} {s s' : σ}

namespace Law

/-- What a program does from a state. `failed` says which of its results mean that it has failed. -/
def ObeysFrom (law : Law σ ε) (failed : α → Prop) (p : ExceptT ε (StateM σ) α) (s : σ) : Prop :=
  match p s with
  | (.ok a, s') => (failed a → law.fails s s') ∧ (¬ failed a → law.goes s s')
  | (.error e, s') => law.stops e s s'

def Obeys (law : Law σ ε) (failed : α → Prop) (p : ExceptT ε (StateM σ) α) : Prop :=
  ∀ s, law.ObeysFrom failed p s

end Law

/-- No result means that the program has failed. -/
def never (_ : α) : Prop := False

@[simp] theorem never_iff (a : α) : never a ↔ False := Iff.rfl

section Rules

variable {failed : α → Prop} {failed' : β → Prop} {p : ExceptT ε (StateM σ) α}
  {f : α → ExceptT ε (StateM σ) β}

theorem bind_ok {a : α} (h : p s = (.ok a, s')) : (p >>= f) s = f a s' := by
  show (p s >>= fun r : Except ε α × σ => ExceptT.bindCont f r.1 r.2) = _
  rw [h]
  rfl

theorem bind_error {e : ε} (h : p s = (.error e, s')) : (p >>= f) s = (.error e, s') := by
  show (p s >>= fun r : Except ε α × σ => ExceptT.bindCont f r.1 r.2) = _
  rw [h]
  rfl

theorem bind_eq_ok {b : β} {s'' : σ} (h : (p >>= f) s = (.ok b, s'')) :
    ∃ a s', p s = (.ok a, s') ∧ f a s' = (.ok b, s'') := by
  rcases hp : p s with ⟨e | a, s'⟩
  · rw [bind_error hp] at h
    cases h
  · rw [bind_ok hp] at h
    exact ⟨a, s', rfl, h⟩

theorem obeysFrom_ok {a : α} (h : p s = (.ok a, s')) (hfailed : ¬ failed a) (hgoes : law.goes s s') :
    law.ObeysFrom failed p s := by
  unfold Law.ObeysFrom
  rw [h]
  exact ⟨fun ha => absurd ha hfailed, fun _ => hgoes⟩

theorem obeysFrom_error {e : ε} (h : p s = (.error e, s')) (hstops : law.stops e s s') :
    law.ObeysFrom failed p s := by
  unfold Law.ObeysFrom
  rw [h]
  exact hstops

theorem Law.ObeysFrom.goes {a : α} (h : law.ObeysFrom failed p s)
    (hp : p s = (.ok a, s')) (ha : ¬ failed a) : law.goes s s' := by
  unfold Law.ObeysFrom at h
  rw [hp] at h
  exact h.2 ha

theorem Law.ObeysFrom.fails {a : α} (h : law.ObeysFrom failed p s)
    (hp : p s = (.ok a, s')) (ha : failed a) : law.fails s s' := by
  unfold Law.ObeysFrom at h
  rw [hp] at h
  exact h.1 ha

theorem Law.ObeysFrom.stops {e : ε} (h : law.ObeysFrom failed p s) (hp : p s = (.error e, s')) :
    law.stops e s s' := by
  unfold Law.ObeysFrom at h
  rwa [hp] at h

theorem obeysFrom_pure {a : α} (ha : ¬ failed a) :
    law.ObeysFrom failed (pure a : ExceptT ε (StateM σ) α) s :=
  obeysFrom_ok rfl ha (law.refl s)

/-- The rest is not run when the first part has failed, and the whole has failed then. -/
theorem Law.ObeysFrom.bind_failed (hp : law.ObeysFrom failed p s)
    (hfail : ∀ a, failed a → ∃ b, f a = pure b ∧ failed' b)
    (hf : ∀ a s', p s = (.ok a, s') → ¬ failed a → law.ObeysFrom failed' (f a) s') :
    law.ObeysFrom failed' (p >>= f) s := by
  rcases hps : p s with ⟨e | a, s'⟩
  · exact obeysFrom_error (bind_error hps) (hp.stops hps)
  · by_cases ha : failed a
    · obtain ⟨b, hb, hfailed⟩ := hfail a ha
      have hrun : (p >>= f) s = (.ok b, s') := by
        rw [bind_ok hps, hb]
        rfl
      unfold Law.ObeysFrom
      rw [hrun]
      exact ⟨fun _ => hp.fails hps ha, fun hb => absurd hfailed hb⟩
    · have hgoes := hp.goes hps ha
      have hrest := hf a s' hps ha
      rcases hfs : f a s' with ⟨e | b, s''⟩
      · exact obeysFrom_error ((bind_ok hps).trans hfs) (law.trans_stops hgoes (hrest.stops hfs))
      · have hrun : (p >>= f) s = (.ok b, s'') := (bind_ok hps).trans hfs
        unfold Law.ObeysFrom
        rw [hrun]
        exact ⟨fun hb => law.trans_fails hgoes (hrest.fails hfs hb),
          fun hb => law.trans hgoes (hrest.goes hfs hb)⟩

theorem Law.ObeysFrom.bind (hp : law.ObeysFrom never p s)
    (hf : ∀ a s', p s = (.ok a, s') → law.ObeysFrom failed' (f a) s') :
    law.ObeysFrom failed' (p >>= f) s :=
  hp.bind_failed (fun _ ha => ha.elim) fun a s' h _ => hf a s' h

theorem Law.Obeys.bind_failed (hp : law.Obeys failed p)
    (hfail : ∀ a, failed a → ∃ b, f a = pure b ∧ failed' b)
    (hf : ∀ a, ¬ failed a → law.Obeys failed' (f a)) : law.Obeys failed' (p >>= f) :=
  fun s => (hp s).bind_failed hfail fun a s' _ ha => hf a ha s'

theorem Law.Obeys.bind (hp : law.Obeys never p) (hf : ∀ a, law.Obeys failed' (f a)) :
    law.Obeys failed' (p >>= f) :=
  fun s => (hp s).bind fun a s' _ => hf a s'

theorem obeys_pure {a : α} (ha : ¬ failed a) :
    law.Obeys failed (pure a : ExceptT ε (StateM σ) α) := fun _ => obeysFrom_pure ha

/-- The state is read. -/
theorem obeysFrom_get {g : σ → ExceptT ε (StateM σ) β} (h : law.ObeysFrom failed' (g s) s) :
    law.ObeysFrom failed' (get >>= g) s := h

/-- The state is read, and what is read of it is all that matters. -/
theorem obeys_read {g : σ → ExceptT ε (StateM σ) β} (h : ∀ s, law.Obeys failed' (g s)) :
    law.Obeys failed' (get >>= g) := fun s => h s s

theorem obeysFrom_modify {g : σ → σ} (h : law.goes s (g s)) :
    law.ObeysFrom never (modify g : ExceptT ε (StateM σ) PUnit) s :=
  obeysFrom_ok rfl (fun hfalse => hfalse) h

theorem obeysFrom_throw {e : ε} (h : law.stops e s s) :
    law.ObeysFrom failed (throw e : ExceptT ε (StateM σ) α) s := obeysFrom_error rfl h

theorem obeys_forM {xs : List β} {g : β → ExceptT ε (StateM σ) PUnit}
    (h : ∀ x, law.Obeys never (g x)) : law.Obeys never (xs.forM g) := by
  induction xs with
  | nil => exact obeys_pure fun hfalse => hfalse
  | cons x xs ih => exact (h x).bind fun _ => ih

/-! ### Since an earlier state -/

/-- What a program has done since an earlier state when it ends. -/
def Law.ObeysSince (law : Law σ ε) (s₀ : σ) (failed : α → Prop) (p : ExceptT ε (StateM σ) α) (s : σ) :
    Prop :=
  match p s with
  | (.ok a, s') => (failed a → law.fails s₀ s') ∧ (¬ failed a → law.goes s₀ s')
  | (.error e, s') => law.stops e s₀ s'

variable {s₀ : σ}

theorem Law.ObeysFrom.since (h : law.ObeysFrom failed p s) (hgoes : law.goes s₀ s) :
    law.ObeysSince s₀ failed p s := by
  unfold Law.ObeysSince
  rcases hp : p s with ⟨e | a, s'⟩
  · exact law.trans_stops hgoes (h.stops hp)
  · exact ⟨fun ha => law.trans_fails hgoes (h.fails hp ha), fun ha => law.trans hgoes (h.goes hp ha)⟩

theorem Law.ObeysSince.bind_failed (hp : law.ObeysSince s₀ failed p s)
    (hfail : ∀ a, failed a → ∃ b, f a = pure b ∧ failed' b)
    (hf : ∀ a s', p s = (.ok a, s') → ¬ failed a → law.goes s₀ s' →
      law.ObeysSince s₀ failed' (f a) s') :
    law.ObeysSince s₀ failed' (p >>= f) s := by
  unfold Law.ObeysSince at hp ⊢
  rcases hps : p s with ⟨e | a, s'⟩
  · rw [hps] at hp
    rw [bind_error hps]
    exact hp
  · rw [hps] at hp
    rw [bind_ok hps]
    by_cases ha : failed a
    · obtain ⟨b, hb, hfailed⟩ := hfail a ha
      rw [hb]
      exact ⟨fun _ => hp.1 ha, fun hb => absurd hfailed hb⟩
    · exact hf a s' hps ha (hp.2 ha)

theorem Law.ObeysSince.bind (hp : law.ObeysSince s₀ never p s)
    (hf : ∀ a s', p s = (.ok a, s') → law.goes s₀ s' → law.ObeysSince s₀ failed' (f a) s') :
    law.ObeysSince s₀ failed' (p >>= f) s :=
  hp.bind_failed (fun _ ha => ha.elim) fun a s' h _ => hf a s' h

theorem obeysSince_ok {a : α} (h : p s = (.ok a, s')) (hfailed : ¬ failed a)
    (hgoes : law.goes s₀ s') : law.ObeysSince s₀ failed p s := by
  unfold Law.ObeysSince
  rw [h]
  exact ⟨fun ha => absurd ha hfailed, fun _ => hgoes⟩

end Rules

end KirbyLang.Laws
