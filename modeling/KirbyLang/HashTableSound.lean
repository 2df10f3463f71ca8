import KirbyLang.HashTable
import KirbyLang.Lib.Loops

/-!
# The invariant of hash tables

Every key can be reached from its own hash over entries that are not empty, no key is stored
twice, and `count` counts the entries in use. Each operation keeps it and acts on the keys and
values as on a finite map.
-/

namespace KirbyLang

open Probing

variable {κ ν : Type} {hash : κ → ℕ}

/-- An entry once the white keys have been removed. -/
def Entry.whiten (isMarked : κ → Bool) : Entry κ ν → Entry κ ν
  | .full key value => if isMarked key then .full key value else .tombstone
  | entry => entry

namespace Table

variable {table table' : Table κ ν} {key key' : κ} {value value' : ν} {p q : ℕ}

/-- An entry that a search goes past. -/
def Busy (table : Table κ ν) (p : ℕ) : Prop := table.entries p ≠ .empty

/-- The table holds `value` under `key`. -/
def Maps (table : Table κ ν) (key : κ) (value : ν) : Prop :=
  ∃ p < table.capacity, table.entries p = .full key value

/-- The table holds something under `key`. -/
def HasKey (table : Table κ ν) (key : κ) : Prop := ∃ value, table.Maps key value

/-- The entries in use, tombstones among them. -/
def used (table : Table κ ν) : Finset ℕ :=
  (Finset.range table.capacity).filter fun p => (table.entries p).isEmpty = false

structure Sound (hash : κ → ℕ) (table : Table κ ν) : Prop where
  chained : ∀ p < table.capacity, ∀ key value, table.entries p = .full key value →
    Chained table.capacity table.Busy (hash key) p
  unique : ∀ p < table.capacity, ∀ q < table.capacity, ∀ key v w,
    table.entries p = .full key v → table.entries q = .full key w → p = q
  count_eq : table.count = table.used.card

/-- A sound table that keeps its load: it always has an empty entry to stop at. -/
structure Valid (hash : κ → ℕ) (table : Table κ ν) : Prop extends Sound hash table where
  load : 4 * table.count ≤ 3 * table.capacity

theorem busy_iff : table.Busy p ↔ (table.entries p).isEmpty = false := by
  unfold Busy
  cases table.entries p <;> simp [Entry.isEmpty]

@[simp] theorem not_busy : ¬ table.Busy p ↔ table.entries p = .empty := by
  unfold Busy
  simp

theorem mem_used : p ∈ table.used ↔ p < table.capacity ∧ table.Busy p := by
  unfold used
  rw [Finset.mem_filter, Finset.mem_range, busy_iff]

/-- A table with fewer entries in use than it has room for has an empty one. -/
theorem Sound.exists_empty (h : table.Sound hash) (hroom : table.count < table.capacity) :
    ∃ p < table.capacity, table.entries p = .empty := by
  by_contra hnone
  have hall : Finset.range table.capacity ⊆ table.used := by
    intro p hp
    rw [Finset.mem_range] at hp
    exact mem_used.mpr ⟨hp, fun hempty => hnone ⟨p, hp, hempty⟩⟩
  have hcard := Finset.card_le_card hall
  rw [Finset.card_range, ← h.count_eq] at hcard
  omega

theorem Valid.room (h : table.Valid hash) (hcap : 0 < table.capacity) :
    table.count < table.capacity := by
  have := h.load
  omega

/-- The table without entries. -/
theorem sound_empty (hash : κ → ℕ) (capacity : ℕ) :
    ({ capacity } : Table κ ν).Sound hash := by
  constructor
  · intro p _ key value h
    cases h
  · intro p _ q _ key v w h
    cases h
  · simp [used, Entry.isEmpty]

theorem valid_empty (hash : κ → ℕ) (capacity : ℕ) :
    ({ capacity } : Table κ ν).Valid hash :=
  ⟨sound_empty hash capacity, Nat.zero_le _⟩

/-- A table with every key where its search starts. -/
theorem valid_of_home
    (hhome : ∀ p < table.capacity, ∀ key value, table.entries p = .full key value →
      hash key % table.capacity = p)
    (hcount : table.count = table.used.card) (hload : 4 * table.count ≤ 3 * table.capacity) :
    table.Valid hash := by
  refine ⟨⟨fun p hp key value h => ?_, fun p hp q hq key v w hv hw => ?_, hcount⟩, hload⟩
  · refine ⟨0, Nat.zero_lt_of_lt hp, ?_, fun j hj => absurd hj (Nat.not_lt_zero j)⟩
    rw [cell, Nat.add_zero]
    exact hhome p hp key value h
  · rw [← hhome p hp key v hv, hhome q hq key w hw]

theorem not_maps_empty (capacity : ℕ) : ¬ ({ capacity } : Table κ ν).Maps key value := by
  rintro ⟨p, _, hp⟩
  cases hp

theorem Sound.maps_functional (h : table.Sound hash) (hv : table.Maps key value)
    (hw : table.Maps key value') : value = value' := by
  obtain ⟨p, hp, hpv⟩ := hv
  obtain ⟨q, hq, hqw⟩ := hw
  have hpq := h.unique p hp q hq key value value' hpv hqw
  rw [hpq, hqw] at hpv
  cases hpv
  rfl

/-! ### The search for a key -/

/-- Where a search for `key` ends: at an empty entry or at the key's own. -/
def Ends (table : Table κ ν) (key : κ) (p : ℕ) : Prop :=
  table.entries p = .empty ∨ ∃ value, table.entries p = .full key value

section Search

variable [DecidableEq κ]

/-- The loop of `findEntry`, `i` steps before its end: it gives the entry of the key, or the first
tombstone it saw, or the empty entry it ended at. -/
theorem findEntryLoop_ends {start a i rounds : ℕ} (t : Option ℕ)
    (hrounds : i < rounds) (hgo : ∀ j < i, ¬ table.Ends key (cell table.capacity start (a + j)))
    (hend : table.Ends key (cell table.capacity start (a + i))) :
    ∃ p, findEntryLoop table.entries table.capacity key rounds (cell table.capacity start a)
        t = some p ∧
      ((p = cell table.capacity start (a + i) ∧ ∃ value, table.entries p = .full key value) ∨
        (table.entries (cell table.capacity start (a + i)) = .empty ∧
          (t = some p ∨ t = none ∧ ∃ j ≤ i, p = cell table.capacity start (a + j) ∧
            (table.entries p = .empty ∨ table.entries p = .tombstone)))) := by
  induction i generalizing a rounds t with
  | zero =>
    obtain ⟨rounds, rfl⟩ : ∃ r, rounds = r + 1 := ⟨rounds - 1, by omega⟩
    rw [Nat.add_zero] at hend ⊢
    unfold findEntryLoop
    rcases hend with hempty | ⟨value, hfull⟩
    · refine ⟨t.getD (cell table.capacity start a), by rw [hempty], .inr ⟨hempty, ?_⟩⟩
      cases t with
      | none => exact .inr ⟨rfl, 0, Nat.le_refl 0, rfl, .inl hempty⟩
      | some t => exact .inl rfl
    · exact ⟨cell table.capacity start a, by rw [hfull]; simp, .inl ⟨rfl, value, hfull⟩⟩
  | succ i ih =>
    obtain ⟨rounds, rfl⟩ : ∃ r, rounds = r + 1 := ⟨rounds - 1, by omega⟩
    have hlt : i < rounds := by omega
    have hhere := hgo 0 (Nat.succ_pos i)
    rw [Nat.add_zero] at hhere
    have hshift : ∀ j, a + 1 + j = a + (j + 1) := fun j => by omega
    have hgo' : ∀ j < i, ¬ table.Ends key (cell table.capacity start (a + 1 + j)) := by
      intro j hj
      rw [hshift]
      exact hgo (j + 1) (by omega)
    rw [← hshift] at hend
    unfold findEntryLoop
    rw [cell_succ]
    cases hentry : table.entries (cell table.capacity start a) with
    | empty => exact absurd (.inl hentry) hhere
    | tombstone =>
      obtain ⟨p, hp, hcase⟩ := ih (t.or (some (cell table.capacity start a))) hlt hgo' hend
      refine ⟨p, hp, ?_⟩
      rw [hshift] at hcase
      rcases hcase with hfull | ⟨hempty, hseen | ⟨hnone, -⟩⟩
      · exact .inl hfull
      · refine .inr ⟨hempty, ?_⟩
        cases t with
        | none =>
          cases hseen
          exact .inr ⟨rfl, 0, Nat.zero_le _, rfl, .inr hentry⟩
        | some t => exact .inl hseen
      · cases t <;> cases hnone
    | full key' value =>
      have hne : key' ≠ key := by
        rintro rfl
        exact hhere (.inr ⟨value, hentry⟩)
      obtain ⟨p, hp, hcase⟩ := ih t hlt hgo' hend
      refine ⟨p, by simpa [hne] using hp, ?_⟩
      rw [hshift] at hcase
      rcases hcase with hfull | ⟨hempty, hseen | ⟨hnone, j, hj, hpj, hfree⟩⟩
      · exact .inl hfull
      · exact .inr ⟨hempty, .inl hseen⟩
      · exact .inr ⟨hempty, .inr ⟨hnone, j + 1, by omega, by rw [hpj, hshift], hfree⟩⟩

/-- What `findEntry` finds: the entry of the key when it has one, and otherwise a free entry that
the key can be reached at. -/
structure Found (hash : κ → ℕ) (table : Table κ ν) (key : κ) (p : ℕ) : Prop where
  eq_some : findEntry hash table.entries table.capacity key = some p
  lt : p < table.capacity
  here : (∃ value, table.entries p = .full key value) ∨
    (¬ table.HasKey key ∧ (table.entries p = .empty ∨ table.entries p = .tombstone) ∧
      Chained table.capacity table.Busy (hash key) p)

omit [DecidableEq κ] in
/-- A search meets its end before it meets an empty entry, so a key that is stored is met. -/
theorem Sound.not_hasKey_of_ends (h : table.Sound hash) {i : ℕ}
    (hgo : ∀ j < i, ¬ table.Ends key (cell table.capacity (hash key) j))
    (hempty : table.entries (cell table.capacity (hash key) i) = .empty) :
    ¬ table.HasKey key := by
  rintro ⟨value, p, hp, hfull⟩
  obtain ⟨k, -, hcell, hbusy⟩ := h.chained p hp key value hfull
  rcases Nat.lt_trichotomy k i with hlt | rfl | hgt
  · exact hgo k hlt (.inr ⟨value, by rw [hcell, hfull]⟩)
  · rw [hcell, hfull] at hempty
    cases hempty
  · exact hbusy i hgt hempty

theorem Sound.found (h : table.Sound hash) (hroom : table.count < table.capacity) (key : κ) :
    ∃ p, table.Found hash key p := by
  obtain ⟨e, he, hempty⟩ := h.exists_empty hroom
  obtain ⟨i, hi, hend, hgo⟩ := exists_first (P := table.Ends key) he (.inl hempty) (hash key)
  have hcap : 0 < table.capacity := by omega
  have hgo' : ∀ j < i, ¬ table.Ends key (cell table.capacity (hash key) (0 + j)) := by
    simpa using hgo
  have hend' : table.Ends key (cell table.capacity (hash key) (0 + i)) := by simpa using hend
  obtain ⟨p, hp, hcase⟩ := findEntryLoop_ends none hi hgo' hend'
  simp only [Nat.zero_add] at hcase
  refine ⟨p, hp, ?_, ?_⟩
  · rcases hcase with ⟨rfl, -⟩ | ⟨-, hnone | ⟨-, j, -, rfl, -⟩⟩
    · exact cell_lt hcap
    · cases hnone
    · exact cell_lt hcap
  · rcases hcase with ⟨-, hfull⟩ | ⟨hstop, hnone | ⟨-, j, hj, rfl, hfree⟩⟩
    · exact .inl hfull
    · cases hnone
    · refine .inr ⟨h.not_hasKey_of_ends hgo hstop, hfree, j, by omega, rfl, fun k hk => ?_⟩
      exact fun hk' => hgo k (by omega) (.inl hk')

/-- A key that is stored is found at its entry. -/
theorem Sound.found_eq (h : table.Sound hash) (hfound : table.Found hash key p)
    (hq : q < table.capacity) (hfull : table.entries q = .full key value) : p = q := by
  rcases hfound.here with ⟨w, hw⟩ | ⟨habsent, -⟩
  · exact h.unique p hfound.lt q hq key w value hw hfull
  · exact absurd ⟨value, q, hq, hfull⟩ habsent

/-! ### Writing an entry -/

omit [DecidableEq κ] in
theorem maps_update (hp : p < table.capacity) {count : ℕ} {entry : Entry κ ν} :
    ({ table with count, entries := Function.update table.entries p entry } : Table κ ν).Maps
        key value ↔
      entry = .full key value ∨ ∃ q < table.capacity, q ≠ p ∧ table.entries q = .full key value := by
  constructor
  · rintro ⟨q, hq, hfull⟩
    by_cases hqp : q = p
    · subst hqp
      exact .inl (by simpa using hfull)
    · exact .inr ⟨q, hq, hqp, by simpa [hqp] using hfull⟩
  · rintro (rfl | ⟨q, hq, hqp, hfull⟩)
    · exact ⟨p, hp, by simp⟩
    · exact ⟨q, hq, by simpa [hqp] using hfull⟩

omit [DecidableEq κ] in
/-- The number of entries in use once one more may be. -/
theorem card_used_update (hp : p < table.capacity) {entry : Entry κ ν} {count : ℕ}
    (hentry : entry ≠ .empty) :
    ({ table with count, entries := Function.update table.entries p entry } : Table κ ν).used.card =
      if (table.entries p).isEmpty then table.used.card + 1 else table.used.card := by
  have hused : ({ table with count, entries := Function.update table.entries p entry } :
      Table κ ν).used = insert p table.used := by
    ext q
    rw [mem_used, Finset.mem_insert, mem_used]
    unfold Busy
    by_cases hqp : q = p
    · subst hqp
      simp [hentry, hp]
    · simp [hqp]
  rw [hused]
  split
  · rename_i hempty
    rw [Finset.card_insert_of_notMem]
    rw [mem_used, busy_iff]
    simp [hempty]
  · rename_i hfull
    rw [Finset.insert_eq_of_mem]
    rw [mem_used, busy_iff]
    exact ⟨hp, by simpa using hfull⟩

/-- Writing a key where it was found keeps a table sound, whatever is said to be in use. -/
theorem Sound.update (h : table.Sound hash) (hfound : table.Found hash key p) (value : ν)
    {count : ℕ}
    (hcount : count = if (table.entries p).isEmpty then table.count + 1 else table.count) :
    Sound hash { table with
      count, entries := Function.update table.entries p (.full key value) } := by
  have hbusy : ∀ q, table.Busy q → Busy { table with
      count, entries := Function.update table.entries p (.full key value) } q := by
    intro q hq
    by_cases hqp : q = p
    · subst hqp
      simp [Busy]
    · simpa [Busy, hqp] using hq
  constructor
  · intro q hq k v hfull
    refine Chained.mono hbusy ?_
    by_cases hqp : q = p
    · subst hqp
      obtain ⟨rfl, rfl⟩ : key = k ∧ value = v := by simpa using hfull
      rcases hfound.here with ⟨w, hw⟩ | ⟨-, -, hchain⟩
      · exact h.chained q hq key w hw
      · exact hchain
    · exact h.chained q hq k v (by simpa [hqp] using hfull)
  · intro q hq r hr k v w hqv hrw
    have hother : ∀ s < table.capacity, ∀ u, s ≠ p → table.entries s = .full key u → False := by
      intro s hs u hsp hfull
      exact hsp (h.found_eq hfound hs hfull).symm
    by_cases hqp : q = p <;> by_cases hrp : r = p
    · rw [hqp, hrp]
    · subst hqp
      obtain ⟨rfl, -⟩ : key = k ∧ value = v := by simpa using hqv
      exact (hother r hr w hrp (by simpa [hrp] using hrw)).elim
    · subst hrp
      obtain ⟨rfl, -⟩ : key = k ∧ value = w := by simpa using hrw
      exact (hother q hq v hqp (by simpa [hqp] using hqv)).elim
    · exact h.unique q hq r hr k v w (by simpa [hqp] using hqv) (by simpa [hrp] using hrw)
  · rw [card_used_update hfound.lt (by simp), ← h.count_eq]
    exact hcount

/-- The map after a key has been written where it was found. -/
theorem Sound.maps_update (h : table.Sound hash) (hfound : table.Found hash key p) {count : ℕ} :
    ({ table with count, entries := Function.update table.entries p (.full key value) } :
        Table κ ν).Maps key' value' ↔
      if key' = key then value' = value else table.Maps key' value' := by
  rw [Table.maps_update hfound.lt]
  constructor
  · rintro (hsame | ⟨q, hq, hqp, hfull⟩)
    · cases hsame
      simp
    · rw [if_neg]
      · exact ⟨q, hq, hfull⟩
      · rintro rfl
        exact hqp (h.found_eq hfound hq hfull).symm
  · split
    · rename_i heq
      rintro rfl
      exact .inl (by rw [heq])
    · rename_i hne
      rintro ⟨q, hq, hfull⟩
      refine .inr ⟨q, hq, ?_, hfull⟩
      rintro rfl
      rcases hfound.here with ⟨w, hw⟩ | ⟨-, hfree, -⟩
      · rw [hw] at hfull
        cases hfull
        exact hne rfl
      · rw [hfull] at hfree
        rcases hfree with h | h <;> cases h

/-! ### Reading, writing and deleting a key -/

omit [DecidableEq κ] in
theorem Sound.not_hasKey_of_count (h : table.Sound hash) (hcount : table.count = 0) :
    ¬ table.HasKey key := by
  rintro ⟨value, p, hp, hfull⟩
  have hmem : p ∈ table.used := mem_used.mpr ⟨hp, by unfold Busy; rw [hfull]; simp⟩
  have hcard := Finset.card_pos.mpr ⟨p, hmem⟩
  have := h.count_eq
  omega

theorem Found.maps_iff (h : table.Sound hash) (hfound : table.Found hash key p) :
    table.Maps key value ↔ table.entries p = .full key value := by
  constructor
  · rintro ⟨q, hq, hfull⟩
    rwa [h.found_eq hfound hq hfull]
  · intro hfull
    exact ⟨p, hfound.lt, hfull⟩

theorem Found.hasKey_iff (h : table.Sound hash) (hfound : table.Found hash key p) :
    table.HasKey key ↔ ∃ k v, table.entries p = .full k v := by
  constructor
  · rintro ⟨value, hmaps⟩
    exact ⟨key, value, (hfound.maps_iff h).mp hmaps⟩
  · rintro ⟨k, v, hfull⟩
    rcases hfound.here with ⟨w, hw⟩ | ⟨-, hfree, -⟩
    · exact ⟨w, p, hfound.lt, hw⟩
    · rw [hfull] at hfree
      rcases hfree with hfree | hfree <;> cases hfree

theorem findEntryLoop_lt {entries : ℕ → Entry κ ν} {capacity rounds index p : ℕ}
    {tombstone : Option ℕ} (h : findEntryLoop entries capacity key rounds index tombstone = some p)
    (hindex : index < capacity) (htombstone : ∀ q ∈ tombstone, q < capacity) : p < capacity := by
  have hnext : (index + 1) % capacity < capacity := Nat.mod_lt _ (by omega)
  induction rounds generalizing index tombstone with
  | zero => cases h
  | succ rounds ih =>
    unfold findEntryLoop at h
    cases hentry : entries index with
    | empty =>
      simp only [hentry, Option.some.injEq] at h
      cases tombstone with
      | none => exact h ▸ hindex
      | some q => exact h ▸ htombstone q rfl
    | tombstone =>
      simp only [hentry] at h
      refine ih h hnext (fun q hq => ?_) (Nat.mod_lt _ (by omega))
      cases tombstone with
      | none => exact Option.mem_some_iff.mp hq ▸ hindex
      | some q' => exact htombstone q hq
    | full key' value =>
      simp only [hentry] at h
      by_cases hkey : key' = key
      · rw [if_pos hkey, Option.some.injEq] at h
        exact h ▸ hindex
      · rw [if_neg hkey] at h
        exact ih h hnext htombstone (Nat.mod_lt _ (by omega))

/-- What is got from a table, sound or not, is in it. -/
theorem exists_maps_of_tableGet (h : tableGet hash table key = some (some value)) :
    ∃ key', table.Maps key' value := by
  unfold KirbyLang.tableGet at h
  by_cases hcount : table.count = 0
  · rw [if_pos hcount] at h
    cases h
  · rw [if_neg hcount] at h
    obtain ⟨p, hp, hread⟩ := Option.bind_eq_some_iff.mp h
    have hlt : p < table.capacity := by
      by_cases hcapacity : table.capacity = 0
      · unfold findEntry at hp
        rw [hcapacity] at hp
        cases hp
      · exact findEntryLoop_lt hp (Nat.mod_lt _ (Nat.pos_of_ne_zero hcapacity)) (by simp)
    cases hentry : table.entries p with
    | full key' value' =>
      simp only [hentry] at hread
      cases hread
      exact ⟨key', p, hlt, hentry⟩
    | empty =>
      simp only [hentry] at hread
      cases hread
    | tombstone =>
      simp only [hentry] at hread
      cases hread

theorem Valid.tableGet (h : table.Valid hash) (key : κ) :
    ∃ result, tableGet hash table key = some result ∧
      ∀ value, result = some value ↔ table.Maps key value := by
  unfold KirbyLang.tableGet
  by_cases hcount : table.count = 0
  · refine ⟨none, by simp [hcount], fun value => ?_⟩
    simp only [reduceCtorEq, false_iff]
    exact fun hmaps => h.not_hasKey_of_count hcount ⟨value, hmaps⟩
  · have hcap : 0 < table.capacity := by
      have := h.load
      omega
    obtain ⟨p, hfound⟩ := h.found (h.room hcap) key
    simp only [hcount, if_false, hfound.eq_some, Option.bind_eq_bind, Option.bind_some]
    cases hentry : table.entries p with
    | full k v =>
      obtain ⟨w, hw⟩ := (hfound.hasKey_iff h.toSound).mpr ⟨k, v, hentry⟩
      have hkey : k = key := by
        rw [hfound.maps_iff h.toSound, hentry] at hw
        cases hw
        rfl
      refine ⟨some v, rfl, fun value => ?_⟩
      rw [hfound.maps_iff h.toSound, hentry, hkey]
      simp
    | empty => exact ⟨none, rfl, fun value => by rw [hfound.maps_iff h.toSound, hentry]; simp⟩
    | tombstone => exact ⟨none, rfl, fun value => by rw [hfound.maps_iff h.toSound, hentry]; simp⟩

/-- What a table holds once `value` has been stored under `key`. -/
def Stores (table table' : Table κ ν) (key : κ) (value : ν) : Prop :=
  ∀ k v, table'.Maps k v ↔ if k = key then v = value else table.Maps k v

theorem Valid.put (h : table.Valid hash) (hgrown : table.needsGrowth = false) (key : κ)
    (value : ν) :
    ∃ table' isNewKey, table.put hash key value = some (table', isNewKey) ∧ table'.Valid hash ∧
      table'.capacity = table.capacity ∧ table.Stores table' key value ∧
      (isNewKey = true ↔ ¬ table.HasKey key) := by
  have hload : 4 * (table.count + 1) ≤ 3 * table.capacity := by
    simpa [needsGrowth] using hgrown
  obtain ⟨p, hfound⟩ := h.found (by omega) key
  have hvalid : (table.write p key value).Valid hash := by
    refine ⟨h.update hfound value rfl, ?_⟩
    show 4 * (if _ then _ else _) ≤ 3 * table.capacity
    split <;> omega
  have hstores : table.Stores (table.write p key value) key value :=
    fun k v => h.maps_update hfound
  have hnew := hfound.hasKey_iff h.toSound
  unfold Table.put
  simp only [hfound.eq_some, Option.bind_eq_bind, Option.bind_some]
  cases hentry : table.entries p with
  | full k v =>
    exact ⟨_, false, rfl, hvalid, rfl, hstores, by simpa [hentry] using hnew⟩
  | empty => exact ⟨_, true, rfl, hvalid, rfl, hstores, by simpa [hentry] using hnew⟩
  | tombstone => exact ⟨_, true, rfl, hvalid, rfl, hstores, by simpa [hentry] using hnew⟩

omit [DecidableEq κ] in
/-- A tombstone in the place of an entry keeps a table valid. -/
theorem Valid.bury (h : table.Valid hash) (hp : p < table.capacity) (hbusy : table.Busy p) :
    Valid hash { table with entries := Function.update table.entries p .tombstone } := by
  have hother : ∀ q k v, Function.update table.entries p .tombstone q = .full k v →
      table.entries q = .full k v := by
    intro q k v hfull
    by_cases hqp : q = p
    · subst hqp
      simp at hfull
    · simpa [hqp] using hfull
  constructor
  · constructor
    · intro q hq k v hfull
      refine Chained.mono (fun r hr => ?_) (h.chained q hq k v (hother q k v hfull))
      by_cases hrp : r = p
      · subst hrp
        simp [Busy]
      · simpa [Busy, hrp] using hr
    · intro q hq r hr k v w hqv hrw
      exact h.unique q hq r hr k v w (hother q k v hqv) (hother r k w hrw)
    · rw [card_used_update hp (by simp), ← h.count_eq, busy_iff.mp hbusy]
      rfl
  · exact h.load

/-- Deleting the key of an entry puts a tombstone in its place. -/
theorem Valid.tableDelete_of_full (h : table.Valid hash) (hp : p < table.capacity)
    (hfull : table.entries p = .full key value) :
    tableDelete hash table key =
      some ({ table with entries := Function.update table.entries p .tombstone }, true) := by
  have hcount : table.count ≠ 0 := by
    intro hcount
    exact h.not_hasKey_of_count hcount ⟨value, p, hp, hfull⟩
  obtain ⟨q, hfound⟩ := h.found (h.room (by omega)) key
  have hq : q = p := h.found_eq hfound hp hfull
  subst hq
  unfold tableDelete
  simp only [hcount, if_false, hfound.eq_some, Option.bind_eq_bind, Option.bind_some, hfull]
  rfl

/-- Deleting a key that is not there changes nothing. -/
theorem Valid.tableDelete_of_not_hasKey (h : table.Valid hash) (habsent : ¬ table.HasKey key) :
    tableDelete hash table key = some (table, false) := by
  unfold tableDelete
  by_cases hcount : table.count = 0
  · simp [hcount]
  · have hcap : 0 < table.capacity := by
      have := h.load
      omega
    obtain ⟨p, hfound⟩ := h.found (h.room hcap) key
    simp only [hcount, if_false, hfound.eq_some, Option.bind_eq_bind, Option.bind_some]
    cases hentry : table.entries p with
    | full k v => exact absurd ((hfound.hasKey_iff h.toSound).mpr ⟨k, v, hentry⟩) habsent
    | empty => rfl
    | tombstone => rfl

/-! ### Growing -/

/-- The entries in use below `i`. -/
def usedBelow (table : Table κ ν) (i : ℕ) : Finset ℕ := table.used.filter (· < i)

omit [DecidableEq κ] in
theorem card_usedBelow_le (i : ℕ) : (table.usedBelow i).card ≤ table.used.card :=
  Finset.card_le_card (Finset.filter_subset _ _)

omit [DecidableEq κ] in
theorem usedBelow_succ_of_busy {i : ℕ} (hi : i < table.capacity) (hbusy : table.Busy i) :
    (table.usedBelow (i + 1)).card = (table.usedBelow i).card + 1 := by
  have hinsert : table.usedBelow (i + 1) = insert i (table.usedBelow i) := by
    ext p
    simp only [usedBelow, Finset.mem_filter, Finset.mem_insert]
    constructor
    · rintro ⟨hp, hlt⟩
      rcases Nat.lt_succ_iff_lt_or_eq.mp hlt with hlt | rfl
      · exact .inr ⟨hp, hlt⟩
      · exact .inl rfl
    · rintro (rfl | ⟨hp, hlt⟩)
      · exact ⟨mem_used.mpr ⟨hi, hbusy⟩, Nat.lt_succ_self _⟩
      · exact ⟨hp, Nat.lt_succ_of_lt hlt⟩
  rw [hinsert, Finset.card_insert_of_notMem]
  simp [usedBelow]

omit [DecidableEq κ] in
theorem usedBelow_succ_of_empty {i : ℕ} (hempty : table.entries i = .empty) :
    table.usedBelow (i + 1) = table.usedBelow i := by
  ext p
  simp only [usedBelow, Finset.mem_filter]
  constructor
  · rintro ⟨hp, hlt⟩
    rcases Nat.lt_succ_iff_lt_or_eq.mp hlt with hlt | rfl
    · exact ⟨hp, hlt⟩
    · exact absurd hempty (mem_used.mp hp).2
  · rintro ⟨hp, hlt⟩
    exact ⟨hp, Nat.lt_succ_of_lt hlt⟩

omit [DecidableEq κ] in
theorem card_usedBelow_mono (i : ℕ) :
    (table.usedBelow i).card ≤ (table.usedBelow (i + 1)).card := by
  apply Finset.card_le_card
  intro p hp
  simp only [usedBelow, Finset.mem_filter] at hp ⊢
  exact ⟨hp.1, by omega⟩

/-- The table that is being filled by `adjustCapacity`, once the entries below `i` are in it. -/
structure Refilled (hash : κ → ℕ) (table old : Table κ ν) (capacity i : ℕ) :
    Prop extends Sound hash table where
  capacity_eq : table.capacity = capacity
  no_tombstone : ∀ p, table.entries p ≠ .tombstone
  count_le : table.count ≤ (old.usedBelow i).card
  maps_iff : ∀ key value, table.Maps key value ↔ ∃ p < i, old.entries p = .full key value

/-- One more entry goes into the new table. -/
theorem Refilled.reinsert {old : Table κ ν} {capacity i : ℕ} (hold : old.Valid hash)
    (h : table.Refilled hash old capacity i) (hi : i < old.capacity)
    (hcap : old.capacity ≤ capacity) :
    ∃ table', Table.reinsert hash old table i = some table' ∧
      table'.Refilled hash old capacity (i + 1) := by
  have hsame : (∀ k v, old.entries i ≠ .full k v) → table.Refilled hash old capacity (i + 1) := by
    intro hnone
    refine ⟨h.toSound, h.capacity_eq, h.no_tombstone,
      Nat.le_trans h.count_le (card_usedBelow_mono i), fun k v => ?_⟩
    rw [h.maps_iff]
    constructor
    · rintro ⟨p, hp, hfull⟩
      exact ⟨p, by omega, hfull⟩
    · rintro ⟨p, hp, hfull⟩
      rcases Nat.lt_succ_iff_lt_or_eq.mp hp with hlt | rfl
      · exact ⟨p, hlt, hfull⟩
      · exact absurd hfull (hnone k v)
  unfold Table.reinsert
  cases hentry : old.entries i with
  | empty => exact ⟨table, rfl, hsame (by simp [hentry])⟩
  | tombstone => exact ⟨table, rfl, hsame (by simp [hentry])⟩
  | full key value =>
    have hcard := usedBelow_succ_of_busy hi (by unfold Busy; rw [hentry]; simp)
    have htotal : (old.usedBelow (i + 1)).card ≤ old.used.card := card_usedBelow_le (i + 1)
    have hcount := h.count_le
    have hload := hold.load
    rw [← hold.count_eq] at htotal
    have hroom : table.count < table.capacity := by
      rw [h.capacity_eq]
      omega
    obtain ⟨p, hfound⟩ := h.toSound.found hroom key
    have habsent : ¬ table.HasKey key := by
      rintro ⟨w, hw⟩
      obtain ⟨q, hq, hfull⟩ := (h.maps_iff key w).mp hw
      have := hold.unique q (by omega) i hi key w value hfull hentry
      omega
    have hempty : table.entries p = .empty := by
      rcases hfound.here with ⟨w, hw⟩ | ⟨-, hempty | htomb, -⟩
      · exact absurd ⟨w, p, hfound.lt, hw⟩ habsent
      · exact hempty
      · exact absurd htomb (h.no_tombstone p)
    have hcount' : table.count + 1 =
        if (table.entries p).isEmpty then table.count + 1 else table.count := by
      rw [hempty]
      rfl
    refine ⟨{ table with
        count := table.count + 1
        entries := Function.update table.entries p (.full key value) }, ?_, ?_⟩
    · show (findEntry hash table.entries table.capacity key).bind _ = _
      rw [hfound.eq_some]
      rfl
    refine ⟨h.toSound.update hfound value hcount', h.capacity_eq, fun q => ?_, ?_, fun k v => ?_⟩
    · by_cases hqp : q = p
      · subst hqp
        simp
      · simpa [hqp] using h.no_tombstone q
    · show table.count + 1 ≤ _
      omega
    · rw [h.toSound.maps_update hfound]
      constructor
      · split
        · rename_i heq
          rintro rfl
          exact ⟨i, Nat.lt_succ_self i, by rw [heq, hentry]⟩
        · intro hmaps
          obtain ⟨q, hq, hfull⟩ := (h.maps_iff k v).mp hmaps
          exact ⟨q, by omega, hfull⟩
      · rintro ⟨q, hq, hfull⟩
        rcases Nat.lt_succ_iff_lt_or_eq.mp hq with hlt | rfl
        · have hmaps := (h.maps_iff k v).mpr ⟨q, hlt, hfull⟩
          rw [if_neg]
          · exact hmaps
          · rintro rfl
            exact habsent ⟨v, hmaps⟩
        · rw [hentry] at hfull
          cases hfull
          simp

/-- A table that grows holds what it held, without tombstones. -/
theorem Valid.adjustCapacity (h : table.Valid hash) {capacity : ℕ}
    (hcap : table.capacity ≤ capacity) :
    ∃ table', table.adjustCapacity hash capacity = some table' ∧ table'.Valid hash ∧
      table'.capacity = capacity ∧ table'.count ≤ table.count ∧
      ∀ key value, table'.Maps key value ↔ table.Maps key value := by
  have hstart : ({ capacity } : Table κ ν).Refilled hash table capacity 0 := by
    refine ⟨sound_empty hash capacity, rfl, fun p => by simp, Nat.zero_le _, fun k v => ?_⟩
    simp only [not_maps_empty, false_iff]
    rintro ⟨p, hp, -⟩
    omega
  obtain ⟨table', htable', hfilled⟩ := Loops.foldlM_range_spec
    (P := fun i t => Refilled hash t table capacity i) hstart
    (fun i hi t ht => Refilled.reinsert h ht hi hcap)
  have hcount : table'.count ≤ table.count := by
    rw [h.count_eq]
    exact Nat.le_trans hfilled.count_le (card_usedBelow_le _)
  refine ⟨table', htable', ⟨hfilled.toSound, ?_⟩, hfilled.capacity_eq, hcount, fun k v => ?_⟩
  · have := h.load
    rw [hfilled.capacity_eq]
    omega
  · exact hfilled.maps_iff k v

end Search

theorem le_growCapacity (capacity : ℕ) : capacity ≤ growCapacity capacity := by
  unfold growCapacity
  split <;> omega

/-- A table that has grown has room for one more key. -/
theorem Valid.not_needsGrowth (h : table.Valid hash) (hcount : table'.count ≤ table.count)
    (hcap : table'.capacity = growCapacity table.capacity) : table'.needsGrowth = false := by
  have := h.load
  unfold growCapacity at hcap
  simp only [needsGrowth, decide_eq_false_iff_not, not_lt]
  split at hcap <;> omega

section Intern

/-! ### Interning -/

variable {same : κ → Bool}

/-- Where a search for a text ends. -/
def EndsText (table : Table κ ν) (same : κ → Bool) (p : ℕ) : Prop :=
  table.entries p = .empty ∨ ∃ key value, table.entries p = .full key value ∧ same key = true

theorem tableFindStringLoop_ends {start a i rounds : ℕ} (hrounds : i < rounds)
    (hgo : ∀ j < i, ¬ table.EndsText same (cell table.capacity start (a + j)))
    (hend : table.EndsText same (cell table.capacity start (a + i))) :
    ∃ found, tableFindStringLoop table same rounds (cell table.capacity start a) = some found ∧
      (found = none ∧ table.entries (cell table.capacity start (a + i)) = .empty ∨
        ∃ key value, found = some key ∧ same key = true ∧
          table.entries (cell table.capacity start (a + i)) = .full key value) := by
  induction i generalizing a rounds with
  | zero =>
    obtain ⟨rounds, rfl⟩ : ∃ r, rounds = r + 1 := ⟨rounds - 1, by omega⟩
    rw [Nat.add_zero] at hend ⊢
    unfold tableFindStringLoop
    rcases hend with hempty | ⟨key, value, hfull, hsame⟩
    · exact ⟨none, by rw [hempty], .inl ⟨rfl, hempty⟩⟩
    · exact ⟨some key, by rw [hfull]; simp [hsame], .inr ⟨key, value, rfl, hsame, hfull⟩⟩
  | succ i ih =>
    obtain ⟨rounds, rfl⟩ : ∃ r, rounds = r + 1 := ⟨rounds - 1, by omega⟩
    have hlt : i < rounds := by omega
    have hhere := hgo 0 (Nat.succ_pos i)
    rw [Nat.add_zero] at hhere
    have hshift : ∀ j, a + 1 + j = a + (j + 1) := fun j => by omega
    have hgo' : ∀ j < i, ¬ table.EndsText same (cell table.capacity start (a + 1 + j)) := by
      intro j hj
      rw [hshift]
      exact hgo (j + 1) (by omega)
    rw [← hshift] at hend ⊢
    unfold tableFindStringLoop
    rw [cell_succ]
    cases hentry : table.entries (cell table.capacity start a) with
    | empty => exact absurd (.inl hentry) hhere
    | tombstone => exact ih hlt hgo' hend
    | full key value =>
      have hne : same key ≠ true := fun hsame => hhere (.inr ⟨key, value, hentry, hsame⟩)
      simpa [hne] using ih hlt hgo' hend

/-- The search for a text, whose hash is the hash of every key with that text. -/
theorem Valid.tableFindString (h : table.Valid hash) {textHash : ℕ}
    (hsame : ∀ key, table.HasKey key → same key = true → hash key = textHash) :
    ∃ found, tableFindString table same textHash = some found ∧
      (∀ key, found = some key → table.HasKey key ∧ same key = true) ∧
      (found = none → ∀ key, table.HasKey key → same key = false) := by
  unfold KirbyLang.tableFindString
  by_cases hcount : table.count = 0
  · refine ⟨none, by simp [hcount], by simp, fun _ key hkey => ?_⟩
    exact absurd hkey (h.not_hasKey_of_count hcount)
  · have hload := h.load
    obtain ⟨e, he, hempty⟩ := h.exists_empty (by omega)
    obtain ⟨i, hi, hend, hgo⟩ := exists_first (P := table.EndsText same) he (.inl hempty) textHash
    have hcap : 0 < table.capacity := by omega
    have hgo' : ∀ j < i, ¬ table.EndsText same (cell table.capacity textHash (0 + j)) := by
      simpa using hgo
    have hend' : table.EndsText same (cell table.capacity textHash (0 + i)) := by
      simpa using hend
    obtain ⟨found, hfound, hcase⟩ := tableFindStringLoop_ends hi hgo' hend'
    rw [Nat.zero_add] at hcase
    refine ⟨found, by simpa [hcount] using hfound, ?_, ?_⟩
    · rintro key rfl
      rcases hcase with ⟨hnone, -⟩ | ⟨k, v, hk, hsamek, hfull⟩
      · cases hnone
      · cases hk
        exact ⟨⟨v, _, cell_lt hcap, hfull⟩, hsamek⟩
    · rintro rfl key hkey
      by_contra hne
      have hsamek : same key = true := by simpa using hne
      have hhash := hsame key hkey hsamek
      obtain ⟨value, p, hp, hfull⟩ := hkey
      rcases hcase with ⟨-, hstop⟩ | ⟨k, v, hk, -⟩
      · obtain ⟨j, -, hcell, hbusy⟩ := h.chained p hp key value hfull
        rw [hhash] at hcell hbusy
        -- The chain of the key cannot run over the empty entry the search ended at.
        rcases Nat.lt_trichotomy j i with hlt | rfl | hgt
        · exact hgo j hlt (.inr ⟨key, value, by rw [hcell, hfull], hsamek⟩)
        · rw [hcell, hfull] at hstop
          cases hstop
        · exact hbusy i hgt hstop
      · cases hk

end Intern

/-! ### Removing the white keys -/

section Whiten

variable [DecidableEq κ] {isMarked : κ → Bool}

/-- The table with the white keys removed from its entries below `i`. -/
def whitenBelow (isMarked : κ → Bool) (table : Table κ ν) (i : ℕ) : Table κ ν :=
  { table with
    entries := fun p => if p < i then (table.entries p).whiten isMarked else table.entries p }

/-- The table with all its white keys removed. -/
def whiten (isMarked : κ → Bool) (table : Table κ ν) : Table κ ν :=
  table.whitenBelow isMarked table.capacity

omit [DecidableEq κ] in
theorem whitenBelow_succ_of_eq {i : ℕ}
    (h : (table.entries i).whiten isMarked = table.entries i) :
    table.whitenBelow isMarked (i + 1) = table.whitenBelow isMarked i := by
  unfold whitenBelow
  congr 1
  funext p
  by_cases hpi : p = i
  · subst hpi
    simp [h]
  · have : p < i + 1 ↔ p < i := by omega
    simp [this]

omit [DecidableEq κ] in
theorem whitenBelow_succ_of_white {i : ℕ} (h : (table.entries i).whiten isMarked = .tombstone) :
    table.whitenBelow isMarked (i + 1) =
      { table.whitenBelow isMarked i with
        entries := Function.update (table.whitenBelow isMarked i).entries i .tombstone } := by
  unfold whitenBelow
  congr 1
  funext p
  by_cases hpi : p = i
  · subst hpi
    simp [h]
  · have : p < i + 1 ↔ p < i := by omega
    simp [this, hpi]

/-- `tableRemoveWhite` leaves a tombstone for each white key. -/
theorem Valid.tableRemoveWhite (h : table.Valid hash) (isMarked : κ → Bool) :
    tableRemoveWhite hash isMarked table = some (table.whiten isMarked) ∧
      (table.whiten isMarked).Valid hash := by
  have hstart : table.whitenBelow isMarked 0 = table := by simp [whitenBelow]
  have hloop := Loops.foldlM_range_spec (f := Table.removeIfWhite hash isMarked) (s := table)
    (n := table.capacity)
    (P := fun i t => t = table.whitenBelow isMarked i ∧ t.Valid hash) ⟨hstart.symm, h⟩
    (by
      rintro i hi t ⟨rfl, hvalid⟩
      have hentry : (table.whitenBelow isMarked i).entries i = table.entries i := by
        simp [whitenBelow]
      unfold Table.removeIfWhite
      rw [hentry]
      cases hfull : table.entries i with
      | empty =>
        have hsame : (table.entries i).whiten isMarked = table.entries i := by
          rw [hfull]
          rfl
        exact ⟨_, rfl, (whitenBelow_succ_of_eq hsame).symm, hvalid⟩
      | tombstone =>
        have hsame : (table.entries i).whiten isMarked = table.entries i := by
          rw [hfull]
          rfl
        exact ⟨_, rfl, (whitenBelow_succ_of_eq hsame).symm, hvalid⟩
      | full key value =>
        by_cases hmark : isMarked key
        · have hsame : (table.entries i).whiten isMarked = table.entries i := by
            rw [hfull]
            simp [Entry.whiten, hmark]
          exact ⟨_, by simp [hmark], (whitenBelow_succ_of_eq hsame).symm, hvalid⟩
        · have hwhite : (table.entries i).whiten isMarked = .tombstone := by
            rw [hfull]
            simp [Entry.whiten, hmark]
          have hi' : i < (table.whitenBelow isMarked i).capacity := hi
          have hdelete := hvalid.tableDelete_of_full hi' (hentry.trans hfull)
          refine ⟨table.whitenBelow isMarked (i + 1), ?_, rfl, ?_⟩
          · simp [hmark, hdelete, whitenBelow_succ_of_white hwhite]
          rw [whitenBelow_succ_of_white hwhite]
          refine hvalid.bury hi' ?_
          unfold Busy
          rw [hentry, hfull]
          simp)
  obtain ⟨t, ht, rfl, hvalid⟩ := hloop
  exact ⟨ht, hvalid⟩

omit [DecidableEq κ] in
theorem maps_whiten :
    (table.whiten isMarked).Maps key value ↔ table.Maps key value ∧ isMarked key = true := by
  have hentry : ∀ p < table.capacity, (table.whiten isMarked).entries p =
      (table.entries p).whiten isMarked := by
    intro p hp
    simp [whiten, whitenBelow, hp]
  constructor
  · rintro ⟨p, hp, hfull⟩
    have hp' : p < table.capacity := hp
    rw [hentry p hp'] at hfull
    cases he : table.entries p with
    | empty =>
      rw [he] at hfull
      cases hfull
    | tombstone =>
      rw [he] at hfull
      cases hfull
    | full k v =>
      rw [he] at hfull
      by_cases hmark : isMarked k
      · simp only [Entry.whiten, hmark, if_true, Entry.full.injEq] at hfull
        obtain ⟨rfl, rfl⟩ := hfull
        exact ⟨⟨p, hp, he⟩, hmark⟩
      · simp [Entry.whiten, hmark] at hfull
  · rintro ⟨⟨p, hp, hfull⟩, hmark⟩
    refine ⟨p, hp, ?_⟩
    rw [hentry p hp, hfull]
    simp [Entry.whiten, hmark]

end Whiten

/-! ### The field the search starts from -/

/-- Only the hashes of stored keys matter. -/
theorem Valid.congr {hash' : κ → ℕ} (h : table.Valid hash)
    (heq : ∀ key, table.HasKey key → hash' key = hash key) : table.Valid hash' := by
  refine ⟨⟨fun p hp key value hfull => ?_, h.unique, h.count_eq⟩, h.load⟩
  rw [heq key ⟨value, p, hp, hfull⟩]
  exact h.chained p hp key value hfull

end Table

end KirbyLang
