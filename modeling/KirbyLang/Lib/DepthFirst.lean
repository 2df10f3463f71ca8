import Mathlib.Data.List.Perm.Subperm
import Mathlib.Logic.Function.Basic
import Mathlib.Logic.Relation
import Mathlib.Tactic.Common

/-!
# Depth-first search with marks

A search of a finite graph that marks what is on its path and what is finished, reports an edge
back into the path, and does something for each node when it finishes it.

* `visit`, `visitAll`: the search, with fuel;
* `visitAll_total`: more fuel than there are nodes is enough, and more changes nothing;
* `visitAll_spec`: it reports exactly if there is a cycle; otherwise the nodes are finished in an
  order in which each comes after what it leads to.
-/

namespace KirbyLang.DepthFirst

open Relation

variable {α σ : Type*} [DecidableEq α]

/-- The marks, the reports so far, and what finishing nodes works on. -/
structure State (α σ : Type*) where
  resolving : α → Bool
  resolved : α → Bool
  cycles : List α
  payload : σ

def State.start (payload : σ) : State α σ := ⟨fun _ => false, fun _ => false, [], payload⟩

namespace State

def enter (s : State α σ) (a : α) : State α σ :=
  { s with resolving := Function.update s.resolving a true }

/-- A node on the path that is met again is reported and counts as finished, so that it is reported
once. -/
def report (s : State α σ) (a : α) : State α σ :=
  { s with cycles := s.cycles ++ [a], resolved := Function.update s.resolved a true }

def finish (action : α → σ → σ) (s : State α σ) (a : α) : State α σ where
  resolving := Function.update s.resolving a false
  resolved := Function.update s.resolved a true
  cycles := s.cycles
  payload := action a s.payload

end State

def visit (succ : α → List α) (action : α → σ → σ) : ℕ → α → State α σ → Option (State α σ)
  | 0, _, _ => none
  | fuel + 1, a, s =>
    if s.resolved a then some s
    else if s.resolving a then some (s.report a)
    else
      ((succ a).foldlM (fun s b => visit succ action fuel b s) (s.enter a)).map fun s =>
        s.finish action a

/-- The visits of a list of nodes, in order. -/
def visitAll (succ : α → List α) (action : α → σ → σ) (fuel : ℕ) (nodes : List α)
    (s : State α σ) : Option (State α σ) :=
  nodes.foldlM (fun s b => visit succ action fuel b s) s

/-- An edge of the graph. -/
def Edge (succ : α → List α) (a b : α) : Prop := b ∈ succ a

variable {succ : α → List α} {action : α → σ → σ} {s s' : State α σ} {a : α} {fuel : ℕ}

theorem visit_resolved (h : s.resolved a = true) :
    visit succ action (fuel + 1) a s = some s := by
  rw [visit, if_pos h]

theorem visit_resolving (h : s.resolved a = false) (h' : s.resolving a = true) :
    visit succ action (fuel + 1) a s = some (s.report a) := by
  rw [visit, if_neg (by simp [h]), if_pos h']

theorem visit_new (h : s.resolved a = false) (h' : s.resolving a = false) :
    visit succ action (fuel + 1) a s =
      (visitAll succ action fuel (succ a) (s.enter a)).map fun s => s.finish action a := by
  rw [visit, if_neg (by simp [h]), if_neg (by simp [h'])]
  rfl

theorem visitAll_cons (b : α) (nodes : List α) :
    visitAll succ action fuel (b :: nodes) s =
      (visit succ action fuel b s).bind (visitAll succ action fuel nodes) := rfl

/-! ### Fuel -/

namespace State

/-- A node that is on the path or finished. -/
def touched (s : State α σ) (a : α) : Bool := s.resolving a || s.resolved a

@[simp] theorem touched_enter (b : α) : (s.enter a).touched b = (decide (b = a) || s.touched b) := by
  by_cases h : b = a <;> simp [touched, enter, h]

@[simp] theorem touched_report (b : α) : (s.report a).touched b = (decide (b = a) || s.touched b) := by
  by_cases h : b = a <;> simp [touched, report, h]

@[simp] theorem touched_finish (b : α) :
    (s.finish action a).touched b = (decide (b = a) || s.touched b) := by
  by_cases h : b = a <;> simp [touched, finish, h]

end State

/-- The nodes that were not reached yet. -/
def untouched (nodes : List α) (s : State α σ) : ℕ := nodes.countP fun a => !s.touched a

omit [DecidableEq α] in
theorem untouched_le {nodes : List α} (h : ∀ b, s.touched b = true → s'.touched b = true) :
    untouched nodes s' ≤ untouched nodes s := by
  apply List.countP_mono_left
  intro b _ hb
  by_contra hnot
  simp only [Bool.not_eq_true', Bool.not_eq_false] at hb hnot
  simp [h b hnot] at hb

omit [DecidableEq α] in
theorem untouched_lt {nodes : List α} (ha : a ∈ nodes)
    (h : ∀ b, s.touched b = true → s'.touched b = true) (hbefore : s.touched a = false)
    (hafter : s'.touched a = true) : untouched nodes s' < untouched nodes s := by
  obtain ⟨before, after, rfl⟩ := List.append_of_mem ha
  have hle : untouched before s' ≤ untouched before s := untouched_le h
  have hle' : untouched after s' ≤ untouched after s := untouched_le h
  unfold untouched at hle hle' ⊢
  rw [List.countP_append, List.countP_append, List.countP_cons, List.countP_cons, hbefore, hafter]
  simp only [Bool.not_false, Bool.not_true, if_true, Bool.false_eq_true, if_false]
  omega

theorem visitAll_isSome {nodes : List α}
    (hvisit : ∀ a (s : State α σ), a ∈ nodes → untouched nodes s < fuel →
      ∃ s', visit succ action fuel a s = some s' ∧ ∀ b, s.touched b = true → s'.touched b = true)
    {bs : List α} (hbs : ∀ b ∈ bs, b ∈ nodes) (hfuel : untouched nodes s < fuel) :
    ∃ s', visitAll succ action fuel bs s = some s' ∧
      ∀ b, s.touched b = true → s'.touched b = true := by
  induction bs generalizing s with
  | nil => exact ⟨s, rfl, fun _ h => h⟩
  | cons b bs ih =>
    obtain ⟨t, ht, htouched⟩ := hvisit b s (hbs b List.mem_cons_self) hfuel
    have hle : untouched nodes t ≤ untouched nodes s := untouched_le htouched
    obtain ⟨u, hu, htouched'⟩ :=
      ih (fun c hc => hbs c (List.mem_cons_of_mem _ hc)) (Nat.lt_of_le_of_lt hle hfuel)
    exact ⟨u, by rw [visitAll_cons, ht]; exact hu, fun c hc => htouched' c (htouched c hc)⟩

/-- With more fuel than nodes that were not reached, a visit ends. -/
theorem visit_isSome {nodes : List α} (hclosed : ∀ a, ∀ b ∈ succ a, b ∈ nodes) (ha : a ∈ nodes)
    (hfuel : untouched nodes s < fuel) :
    ∃ s', visit succ action fuel a s = some s' ∧ ∀ b, s.touched b = true → s'.touched b = true := by
  induction fuel generalizing a s with
  | zero => cases hfuel
  | succ fuel ih =>
    cases hresolved : s.resolved a with
    | true => exact ⟨s, visit_resolved hresolved, fun _ h => h⟩
    | false =>
      cases hresolving : s.resolving a with
      | true => exact ⟨_, visit_resolving hresolved hresolving, fun b hb => by simp [hb]⟩
      | false =>
        have hmark : ∀ b, s.touched b = true → (s.enter a).touched b = true :=
          fun b hb => by simp [hb]
        have hlt : untouched nodes (s.enter a) < untouched nodes s :=
          untouched_lt ha hmark (by simp [State.touched, hresolved, hresolving]) (by simp)
        obtain ⟨t, ht, htouched⟩ := visitAll_isSome (fun a s ha hlt => ih ha hlt) (hclosed a)
          (Nat.lt_of_lt_of_le hlt (Nat.le_of_lt_succ hfuel))
        refine ⟨_, by rw [visit_new hresolved hresolving, ht]; rfl, fun b hb => ?_⟩
        simp [htouched b (hmark b hb)]

theorem visitAll_mono {fuel' : ℕ}
    (hvisit : ∀ a (s s' : State α σ), visit succ action fuel a s = some s' →
      visit succ action fuel' a s = some s')
    {nodes : List α} (h : visitAll succ action fuel nodes s = some s') :
    visitAll succ action fuel' nodes s = some s' := by
  induction nodes generalizing s with
  | nil => exact h
  | cons b nodes ih =>
    rw [visitAll_cons] at h ⊢
    obtain ⟨t, ht, hrest⟩ := Option.bind_eq_some_iff.mp h
    rw [hvisit b s t ht]
    exact ih hrest

/-- More fuel changes nothing. -/
theorem visit_mono (h : visit succ action fuel a s = some s') :
    visit succ action (fuel + 1) a s = some s' := by
  induction fuel generalizing a s s' with
  | zero => cases h
  | succ fuel ih =>
    cases hresolved : s.resolved a with
    | true => rwa [visit_resolved hresolved] at h ⊢
    | false =>
      cases hresolving : s.resolving a with
      | true => rwa [visit_resolving hresolved hresolving] at h ⊢
      | false =>
        rw [visit_new hresolved hresolving] at h ⊢
        obtain ⟨t, ht, rfl⟩ := Option.map_eq_some_iff.mp h
        rw [visitAll_mono (fun _ _ _ h => ih h) ht]
        rfl

theorem visitAll_of_le {nodes : List α} {fuel' : ℕ} (hle : fuel ≤ fuel')
    (h : visitAll succ action fuel nodes s = some s') :
    visitAll succ action fuel' nodes s = some s' := by
  induction hle with
  | refl => exact h
  | step _ ih => exact visitAll_mono (fun _ _ _ h => visit_mono h) ih

/-! ### Cycles and orders -/

/-- Each node of a list comes after all nodes it leads to. -/
def Topological (succ : α → List α) (order : List α) : Prop :=
  ∀ before b after, order = before ++ b :: after → ∀ c ∈ succ b, c ∈ before

omit [DecidableEq α] in
theorem Topological.concat {order : List α} (h : Topological succ order)
    (ha : ∀ c ∈ succ a, c ∈ order) : Topological succ (order ++ [a]) := by
  intro before b after heq c hc
  rcases List.eq_nil_or_concat after with rfl | ⟨rest, last, rfl⟩
  · obtain ⟨rfl, hba⟩ := List.append_inj' heq rfl
    obtain rfl : a = b := by simpa using hba
    exact ha c hc
  · have hsplit : order ++ [a] = (before ++ b :: rest) ++ [last] := by
      simpa [List.concat_eq_append] using heq
    obtain ⟨rfl, -⟩ := List.append_inj' hsplit rfl
    exact h before b rest rfl c hc

omit [DecidableEq α] in
theorem Topological.of_concat {order : List α} (h : Topological succ (order ++ [a])) :
    Topological succ order ∧ ∀ c ∈ succ a, c ∈ order := by
  constructor
  · rintro before b after rfl
    exact h before b (after ++ [a]) (by simp)
  · exact h order a [] rfl

omit [DecidableEq α] in
theorem Topological.mem_before {order : List α} (h : Topological succ order) {b c : α}
    (hpath : TransGen (Edge succ) b c) {before after : List α}
    (hb : order = before ++ b :: after) : c ∈ before := by
  induction hpath with
  | single hedge => exact h before b after hb _ hedge
  | tail _ hedge ih =>
    obtain ⟨pre, post, rfl⟩ := List.append_of_mem ih
    have hc := h pre _ (post ++ b :: after) (by simpa using hb) _ hedge
    exact List.mem_append_left _ hc

omit [DecidableEq α] in
theorem Topological.acyclic {order : List α} (h : Topological succ order) (hnodup : order.Nodup)
    {b : α} (hb : b ∈ order) : ¬ TransGen (Edge succ) b b := by
  intro hcycle
  obtain ⟨before, after, rfl⟩ := List.append_of_mem hb
  have hmem := h.mem_before hcycle rfl
  exact (List.nodup_append.mp hnodup).2.2 b hmem b List.mem_cons_self rfl

/-- The search has reported nothing yet: the nodes on its path, and those it has finished, in
order. -/
structure Clean (succ : α → List α) (action : α → σ → σ) (start : σ) (nodes path done : List α)
    (s : State α σ) : Prop where
  cycles : s.cycles = []
  resolving : ∀ b, s.resolving b = true ↔ b ∈ path
  resolved : ∀ b, s.resolved b = true ↔ b ∈ done
  apart : ∀ b ∈ path, b ∉ done
  nodup : done.Nodup
  nodes : ∀ b ∈ done, b ∈ nodes
  topological : Topological succ done
  payload : s.payload = done.foldl (fun p b => action b p) start

/-- What a visit comes to: a report, and then there is a cycle, or some nodes more are finished. -/
def Progress (succ : α → List α) (action : α → σ → σ) (start : σ) (nodes path done : List α)
    (reached : α → Prop) (s : State α σ) : Prop :=
  (s.cycles ≠ [] ∧ ∃ b, TransGen (Edge succ) b b) ∨
    ∃ done', (∀ b ∈ done, b ∈ done') ∧ (∀ b, reached b → b ∈ done') ∧
      Clean succ action start nodes path done' s

variable {start : σ} {nodes path done : List α}

/-- What each visit keeps, visits one after the other keep. -/
theorem visitAll_keeps {P : State α σ → Prop}
    (hvisit : ∀ a (s s' : State α σ), P s → visit succ action fuel a s = some s' → P s')
    {bs : List α} (hs : P s) (h : visitAll succ action fuel bs s = some s') : P s' := by
  induction bs generalizing s with
  | nil =>
    cases h
    exact hs
  | cons b bs ih =>
    rw [visitAll_cons] at h
    obtain ⟨t, ht, hrest⟩ := Option.bind_eq_some_iff.mp h
    exact ih (hvisit b s t hs ht) hrest

/-- What setting the marks, a report and finishing a node keep, a visit keeps. -/
theorem visit_keeps {P : State α σ → Prop} (henter : ∀ a (s : State α σ), P s → P (s.enter a))
    (hreport : ∀ a (s : State α σ), P s → P (s.report a))
    (hfinish : ∀ a (s : State α σ), P s → P (s.finish action a)) (hs : P s)
    (h : visit succ action fuel a s = some s') : P s' := by
  induction fuel generalizing a s s' with
  | zero => cases h
  | succ fuel ih =>
    cases hresolved : s.resolved a with
    | true =>
      rw [visit_resolved hresolved] at h
      cases h
      exact hs
    | false =>
      cases hresolving : s.resolving a with
      | true =>
        rw [visit_resolving hresolved hresolving] at h
        cases h
        exact hreport a s hs
      | false =>
        rw [visit_new hresolved hresolving] at h
        obtain ⟨t, ht, rfl⟩ := Option.map_eq_some_iff.mp h
        exact hfinish a t (visitAll_keeps (fun _ _ _ hs h => ih hs h) (henter a s hs) ht)

/-- Reports are not taken back. -/
theorem visit_cycles (h : visit succ action fuel a s = some s') : s.cycles <+: s'.cycles :=
  visit_keeps (P := fun t => s.cycles <+: t.cycles) (fun _ _ h => h)
    (fun _ _ h => h.trans (List.prefix_append _ _)) (fun _ _ h => h) List.prefix_rfl h

/-- Visits one after the other, from a place to which every node of the path leads. -/
theorem visitAll_progress
    (hvisit : ∀ a (s s' : State α σ) done, Clean succ action start nodes path done s →
      a ∈ nodes → (∀ b ∈ path, TransGen (Edge succ) b a) → visit succ action fuel a s = some s' →
        Progress succ action start nodes path done (· = a) s')
    {bs : List α} (hbs : ∀ b ∈ bs, b ∈ nodes ∧ ∀ c ∈ path, TransGen (Edge succ) c b)
    (hclean : Clean succ action start nodes path done s)
    (h : visitAll succ action fuel bs s = some s') :
    Progress succ action start nodes path done (· ∈ bs) s' := by
  induction bs generalizing s done with
  | nil =>
    cases h
    exact .inr ⟨done, fun _ hb => hb, fun _ hb => (nomatch hb), hclean⟩
  | cons b bs ih =>
    rw [visitAll_cons] at h
    obtain ⟨t, ht, hrest⟩ := Option.bind_eq_some_iff.mp h
    obtain ⟨hb, hpath⟩ := hbs b List.mem_cons_self
    rcases hvisit b s t done hclean hb hpath ht with ⟨hcycles, hcycle⟩ | ⟨done₁, hsub, hin, hclean₁⟩
    · refine .inl ⟨fun hnone => hcycles ?_, hcycle⟩
      have hprefix : t.cycles <+: s'.cycles :=
        visitAll_keeps (P := fun u => t.cycles <+: u.cycles)
          (fun _ _ _ h h' => h.trans (visit_cycles h')) List.prefix_rfl hrest
      rwa [hnone, List.prefix_nil] at hprefix
    · rcases ih (fun c hc => hbs c (List.mem_cons_of_mem _ hc)) hclean₁ hrest with
        hreport | ⟨done₂, hsub₂, hin₂, hclean₂⟩
      · exact .inl hreport
      · refine .inr ⟨done₂, fun c hc => hsub₂ c (hsub c hc), fun c hc => ?_, hclean₂⟩
        rcases List.mem_cons.mp hc with rfl | hc
        · exact hsub₂ c (hin c rfl)
        · exact hin₂ c hc

/-- A visit of a node that every node of the path leads to. -/
theorem visit_progress (hclosed : ∀ a, ∀ b ∈ succ a, b ∈ nodes)
    (hclean : Clean succ action start nodes path done s) (ha : a ∈ nodes)
    (hpath : ∀ b ∈ path, TransGen (Edge succ) b a) (h : visit succ action fuel a s = some s') :
    Progress succ action start nodes path done (· = a) s' := by
  induction fuel generalizing a s s' path done with
  | zero => cases h
  | succ fuel ih =>
    cases hresolved : s.resolved a with
    | true =>
      rw [visit_resolved hresolved] at h
      cases h
      refine .inr ⟨done, fun _ hb => hb, ?_, hclean⟩
      rintro b rfl
      exact (hclean.resolved b).mp hresolved
    | false =>
      cases hresolving : s.resolving a with
      | true =>
        rw [visit_resolving hresolved hresolving] at h
        cases h
        exact .inl ⟨by simp [State.report], a, hpath a ((hclean.resolving a).mp hresolving)⟩
      | false =>
        rw [visit_new hresolved hresolving] at h
        obtain ⟨t, ht, rfl⟩ := Option.map_eq_some_iff.mp h
        have hnotPath : a ∉ path := fun hin => by simp [(hclean.resolving a).mpr hin] at hresolving
        have hnotDone : a ∉ done := fun hin => by simp [(hclean.resolved a).mpr hin] at hresolved
        have henter : Clean succ action start nodes (a :: path) done (s.enter a) := by
          refine { hclean with resolving := fun b => ?_, apart := fun b hb => ?_ }
          · by_cases hba : b = a <;> simp [State.enter, hba, hclean.resolving]
          · rcases List.mem_cons.mp hb with rfl | hb
            · exact hnotDone
            · exact hclean.apart b hb
        have hsucc : ∀ b ∈ succ a, b ∈ nodes ∧ ∀ c ∈ a :: path, TransGen (Edge succ) c b := by
          intro b hb
          refine ⟨hclosed a b hb, fun c hc => ?_⟩
          rcases List.mem_cons.mp hc with rfl | hc
          · exact .single hb
          · exact .tail (hpath c hc) hb
        rcases visitAll_progress (fun a s s' done hclean ha hpath h => ih hclean ha hpath h) hsucc
          henter ht with hreport | ⟨done', hsub, hin, hclean'⟩
        · exact .inl hreport
        · -- the node is finished after everything it leads to
          have hnotDone' : a ∉ done' := hclean'.apart a List.mem_cons_self
          refine .inr ⟨done' ++ [a], fun b hb => List.mem_append_left _ (hsub b hb), ?_, ?_⟩
          · rintro b rfl
            exact List.mem_append_right _ List.mem_cons_self
          · exact
              { cycles := hclean'.cycles
                resolving := fun b => by
                  by_cases hba : b = a
                  · simp [State.finish, hba, hnotPath]
                  · simp [State.finish, hba, hclean'.resolving]
                resolved := fun b => by
                  by_cases hba : b = a <;> simp [State.finish, hba, hclean'.resolved]
                apart := fun b hb hdone => by
                  rcases List.mem_append.mp hdone with hdone | hdone
                  · exact hclean'.apart b (List.mem_cons_of_mem _ hb) hdone
                  · exact hnotPath (List.mem_singleton.mp hdone ▸ hb)
                nodup := List.nodup_append.mpr ⟨hclean'.nodup, by simp,
                  fun b hb c hc hbc => hnotDone' (List.mem_singleton.mp hc ▸ hbc ▸ hb)⟩
                nodes := fun b hb => by
                  rcases List.mem_append.mp hb with hb | hb
                  · exact hclean'.nodes b hb
                  · exact List.mem_singleton.mp hb ▸ ha
                topological := hclean'.topological.concat hin
                payload := by
                  rw [List.foldl_append, ← hclean'.payload]
                  rfl }

/-! ### The whole search -/

/-- The search of all nodes ends; it reports exactly if there is a cycle, and otherwise it acts on
the nodes in an order in which each comes after all it leads to. More fuel changes nothing. -/
theorem visitAll_spec (hclosed : ∀ a, ∀ b ∈ succ a, b ∈ nodes)
    (hsources : ∀ a, succ a ≠ [] → a ∈ nodes) (hnodup : nodes.Nodup) (start : σ) :
    ∃ s, (∀ fuel > nodes.length, visitAll succ action fuel nodes (.start start) = some s) ∧
      (s.cycles ≠ [] ↔ ∃ a, TransGen (Edge succ) a a) ∧
      (s.cycles = [] → ∃ order : List α, order.Perm nodes ∧ Topological succ order ∧
        s.payload = order.foldl (fun p b => action b p) start) := by
  have huntouched : untouched nodes (State.start start : State α σ) < nodes.length + 1 :=
    Nat.lt_succ_of_le List.countP_le_length
  have hvisit : ∀ a (s : State α σ), a ∈ nodes → untouched nodes s < nodes.length + 1 →
      ∃ s', visit succ action (nodes.length + 1) a s = some s' ∧
        ∀ b, s.touched b = true → s'.touched b = true :=
    fun _ _ ha hlt => visit_isSome hclosed ha hlt
  obtain ⟨s, hs, -⟩ := visitAll_isSome hvisit (fun _ hb => hb) huntouched
  have hclean : Clean succ action start nodes [] [] (.start start) :=
    { cycles := rfl
      resolving := by simp [State.start]
      resolved := by simp [State.start]
      apart := by simp
      nodup := List.nodup_nil
      nodes := by simp
      topological := by simp [Topological]
      payload := rfl }
  have hprogress := visitAll_progress
    (fun a s s' done hclean ha hpath h => visit_progress hclosed hclean ha hpath h)
    (fun b hb => ⟨hb, fun _ hc => (List.not_mem_nil hc).elim⟩) hclean hs
  refine ⟨s, fun fuel hfuel => visitAll_of_le hfuel hs, ?_⟩
  rcases hprogress with ⟨hcycles, hcycle⟩ | ⟨order, -, hall, hfinal⟩
  · exact ⟨iff_of_true hcycles hcycle, fun hnone => absurd hnone hcycles⟩
  · have hacyclic : ¬ ∃ a, TransGen (Edge succ) a a := by
      rintro ⟨a, hcycle⟩
      have hsource : succ a ≠ [] := by
        obtain ⟨b, hedge, -⟩ := TransGen.head'_iff.mp hcycle
        exact List.ne_nil_of_mem hedge
      exact hfinal.topological.acyclic hfinal.nodup (hall a (hsources a hsource)) hcycle
    refine ⟨iff_of_false (not_not.mpr hfinal.cycles) hacyclic, fun _ => ⟨order, ?_,
      hfinal.topological, hfinal.payload⟩⟩
    exact (List.perm_ext_iff_of_nodup hfinal.nodup hnodup).mpr fun a =>
      ⟨hfinal.nodes a, hall a⟩

end KirbyLang.DepthFirst
