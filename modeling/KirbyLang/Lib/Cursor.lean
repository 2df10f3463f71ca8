import Mathlib.Data.List.Basic
import Mathlib.Data.Nat.Notation

/-!
# Readers over a cursor

A reader is a state transformer `StateM σ α`. A `Cursor σ β` says of a state whether reading is
still going well and which symbols are left. Two properties of a reader compose:

* `Parses C f bs a`: wherever `bs` is next, `f` consumes exactly `bs` and returns `a`;
* `Consumes C f R`: a run of `f` that is still going well afterwards was going well before, and
  what it consumed is related to what it returned by `R`.

The first gives "what is written can be read", the second "what is read was written that way".
-/

/-- How a state is read as a position in a string of symbols. -/
structure Cursor (σ β : Type) where
  /-- No problem has been found so far. -/
  ok : σ → Prop
  /-- The symbols not read yet. -/
  rest : σ → List β

namespace Cursor

variable {σ β α γ : Type} (C : Cursor σ β)

/-- Wherever `bs` is next, `f` consumes exactly `bs` and returns `a`. -/
def Parses (f : StateM σ α) (bs : List β) (a : α) : Prop :=
  ∀ s tail, C.ok s → C.rest s = bs ++ tail →
    (f.run s).1 = a ∧ C.ok (f.run s).2 ∧ C.rest (f.run s).2 = tail

/-- A run of `f` that ends well began well and consumed symbols related to its result. -/
def Consumes (f : StateM σ α) (R : α → List β → Prop) : Prop :=
  ∀ s, C.ok (f.run s).2 →
    C.ok s ∧ ∃ bs, C.rest s = bs ++ C.rest (f.run s).2 ∧ R (f.run s).1 bs

variable {C}

theorem run_bind (f : StateM σ α) (g : α → StateM σ γ) (s : σ) :
    (f >>= g).run s = (g (f.run s).1).run (f.run s).2 := rfl

theorem run_get_bind (g : σ → StateM σ γ) (s : σ) : (get >>= g).run s = (g s).run s := rfl

/-! ### Reading what was written -/

theorem Parses.pure (a : α) : C.Parses (Pure.pure a) [] a :=
  fun _ _ hok hrest => ⟨rfl, hok, hrest⟩

theorem Parses.bind {f : StateM σ α} {g : α → StateM σ γ} {bs cs : List β} {a : α} {c : γ}
    (hf : C.Parses f bs a) (hg : C.Parses (g a) cs c) : C.Parses (f >>= g) (bs ++ cs) c := by
  intro s tail hok hrest
  rw [List.append_assoc] at hrest
  obtain ⟨hval, hok', hrest'⟩ := hf s _ hok hrest
  rw [run_bind, hval]
  exact hg _ _ hok' hrest'

/-- The rule for a last part that consumes nothing. -/
theorem Parses.bind_nil {f : StateM σ α} {g : α → StateM σ γ} {bs : List β} {a : α} {c : γ}
    (hf : C.Parses f bs a) (hg : C.Parses (g a) [] c) : C.Parses (f >>= g) bs c := by
  have h := hf.bind hg
  rwa [List.append_nil] at h

/-- The rule for a first part that consumes nothing. -/
theorem Parses.nil_bind {f : StateM σ α} {g : α → StateM σ γ} {bs : List β} {a : α} {c : γ}
    (hf : C.Parses f [] a) (hg : C.Parses (g a) bs c) : C.Parses (f >>= g) bs c :=
  hf.bind hg

theorem Parses.map {f : StateM σ α} {bs : List β} {a : α} (hf : C.Parses f bs a) (h : α → γ) :
    C.Parses (do return h (← f)) bs (h a) :=
  hf.bind_nil (Parses.pure _)

/-- A reader that looks ahead without changing the state. -/
theorem Parses.peek {f : StateM σ α} {g : α → StateM σ γ} {bs : List β} {a : α} {c : γ}
    (hf : ∀ s tail, C.ok s → C.rest s = bs ++ tail → f.run s = (a, s))
    (hg : C.Parses (g a) bs c) : C.Parses (f >>= g) bs c := by
  intro s tail hok hrest
  rw [run_bind, hf s tail hok hrest]
  exact hg s tail hok hrest

theorem Parses.get_bind {g : σ → StateM σ γ} {bs : List β} {c : γ}
    (h : ∀ s, C.ok s → C.Parses (g s) bs c) : C.Parses (get >>= g) bs c :=
  fun s tail hok hrest => h s hok s tail hok hrest

/-- The early return of a reader that stops after a problem is not taken while all is well. -/
theorem Parses.unless {failed : σ → Bool} (hfail : ∀ s, C.ok s → failed s = false)
    {x g : StateM σ γ} {bs : List β} {c : γ} (hg : C.Parses g bs c) :
    C.Parses (get >>= fun s => if failed s then x else g) bs c := by
  refine Parses.get_bind fun s hok => ?_
  rw [hfail s hok, if_neg Bool.false_ne_true]
  exact hg

/-! ### What was read was written that way -/

theorem Consumes.mono {f : StateM σ α} {R S : α → List β → Prop} (h : C.Consumes f R)
    (hRS : ∀ a bs, R a bs → S a bs) : C.Consumes f S := by
  intro s hok
  obtain ⟨hs, bs, hrest, hR⟩ := h s hok
  exact ⟨hs, bs, hrest, hRS _ _ hR⟩

theorem Consumes.pure (a : α) : C.Consumes (Pure.pure a) fun x bs => x = a ∧ bs = [] :=
  fun _ hok => ⟨hok, [], rfl, rfl, rfl⟩

theorem Consumes.bind {f : StateM σ α} {g : α → StateM σ γ} {R : α → List β → Prop}
    {S : α → γ → List β → Prop} (hf : C.Consumes f R) (hg : ∀ a, C.Consumes (g a) (S a)) :
    C.Consumes (f >>= g) fun c bs => ∃ a xs ys, bs = xs ++ ys ∧ R a xs ∧ S a c ys := by
  intro s hok
  rw [run_bind] at hok ⊢
  obtain ⟨hok', ys, hrest', hS⟩ := hg _ _ hok
  obtain ⟨hs, xs, hrest, hR⟩ := hf _ hok'
  exact ⟨hs, xs ++ ys, by rw [hrest, hrest', List.append_assoc], _, xs, ys, rfl, hR, hS⟩

theorem Consumes.get_bind {g : σ → StateM σ γ} {R : γ → List β → Prop}
    (h : ∀ s, C.Consumes (g s) R) : C.Consumes (get >>= g) R :=
  fun s hok => h s s hok

/-- After an early return the state shows the problem, so a good end came through `g`. -/
theorem Consumes.unless {failed : σ → Bool} (hfail : ∀ s, failed s = true → ¬ C.ok s)
    {x : γ} {g : StateM σ γ} {R : γ → List β → Prop} (hg : C.Consumes g R) :
    C.Consumes (get >>= fun s => if failed s then Pure.pure x else g) R := by
  intro s hok
  change C.ok ((if failed s then Pure.pure x else g : StateM σ γ).run s).2 at hok
  change C.ok s ∧ ∃ bs, C.rest s =
    bs ++ C.rest ((if failed s then Pure.pure x else g : StateM σ γ).run s).2 ∧
      R ((if failed s then Pure.pure x else g : StateM σ γ).run s).1 bs
  split at hok
  · rename_i hf
    exact absurd hok (hfail s hf)
  · rename_i hf
    rw [if_neg hf]
    exact hg s hok

/-! ### Tables -/

/-- A table is at least as long as its items say. -/
theorem mul_le_length_flatMap {enc : α → List β} {k : ℕ} (as : List α)
    (h : ∀ a ∈ as, k ≤ (enc a).length) : as.length * k ≤ (as.flatMap enc).length := by
  induction as with
  | nil => simp
  | cons a as ih =>
    have ha := h a List.mem_cons_self
    have has := ih fun x hx => h x (List.mem_cons_of_mem _ hx)
    rw [List.flatMap_cons, List.length_append, List.length_cons, Nat.succ_mul]
    omega

/-- Run `item` `count` times, leaving early once `failed` holds of the state. -/
def readEach (failed : σ → Bool) (item : StateM σ α) : ℕ → StateM σ (List α)
  | 0 => Pure.pure []
  | count + 1 => do
    let a ← item
    let s ← get
    if failed s then Pure.pure [a]
    else do
      let as ← readEach failed item count
      Pure.pure (a :: as)

theorem Parses.readEach {failed : σ → Bool} {item : StateM σ α} {enc : α → List β}
    (hfail : ∀ s, C.ok s → failed s = false) (as : List α)
    (hitem : ∀ a ∈ as, C.Parses item (enc a) a) :
    C.Parses (Cursor.readEach failed item as.length) (as.flatMap enc) as := by
  induction as with
  | nil => exact Parses.pure []
  | cons a as ih =>
    have htail := ih fun x hx => hitem x (List.mem_cons_of_mem _ hx)
    rw [List.flatMap_cons]
    refine (hitem a List.mem_cons_self).bind (Parses.unless hfail ?_)
    intro s tail hok hrest
    obtain ⟨hval, hok', hrest'⟩ := htail s tail hok hrest
    refine ⟨?_, hok', hrest'⟩
    change a :: ((Cursor.readEach failed item as.length).run s).1 = _
    rw [hval]

/-- A table read to the end was written item by item. -/
theorem Consumes.readEach {failed : σ → Bool} {item : StateM σ α} {enc : α → List β}
    {P : α → Prop} (hfail : ∀ s, failed s = true → ¬ C.ok s)
    (hitem : C.Consumes item fun a bs => bs = enc a ∧ P a) (count : ℕ) :
    C.Consumes (Cursor.readEach failed item count) fun as bs =>
      as.length = count ∧ bs = as.flatMap enc ∧ ∀ a ∈ as, P a := by
  induction count with
  | zero =>
    refine (Consumes.pure []).mono ?_
    rintro as bs ⟨rfl, rfl⟩
    simp
  | succ count ih =>
    refine (hitem.bind fun a => Consumes.unless hfail (ih.bind fun as => Consumes.pure (a :: as)))
      |>.mono ?_
    rintro as bs ⟨a, xs, ys, rfl, ⟨rfl, ha⟩, as', zs, ws, rfl, ⟨rfl, rfl, has⟩, rfl, rfl⟩
    simp [ha]
    exact has

/-- An invariant that every item keeps is kept by the whole table. -/
theorem readEach_invariant {failed : σ → Bool} {item : StateM σ α} {I : σ → Prop}
    (hitem : ∀ s, I s → I (item.run s).2) (count : ℕ) (s : σ) (hs : I s) :
    I ((Cursor.readEach failed item count).run s).2 := by
  induction count generalizing s with
  | zero => exact hs
  | succ count ih =>
    change I ((if failed (item.run s).2 then _ else _ : StateM σ (List α)).run (item.run s).2).2
    split
    · exact hitem s hs
    · exact ih _ (hitem s hs)

end Cursor
