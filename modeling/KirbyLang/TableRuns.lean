import KirbyLang.HashTableSound

/-!
# Runs over hash tables

Any number of tables, written, read, grown and added to each other in any order. What a program
sees of them is what it would see of as many finite maps.

* `Table.set`, `tableAddAll`: the two operations that may grow a table, as the code runs them;
* `TableOp.exec`, `runTables`: one operation and a whole run on the tables;
* `TableOp.onMaps`, `runMaps`: the same on finite maps;
* `runTables_refines_runMaps`: the two agree.
-/

namespace KirbyLang

variable {ι κ ν : Type}

section Operations

variable [DecidableEq ι] [DecidableEq κ]

/-- `tableSet`, where nothing else happens to the table while it grows. -/
def Table.set (hash : κ → ℕ) (table : Table κ ν) (key : κ) (value : ν) :
    Option (Table κ ν × Bool) :=
  if table.needsGrowth then do
    let table ← table.adjustCapacity hash (growCapacity table.capacity)
    table.put hash key value
  else table.put hash key value

/-- The loop of `tableAddAll` from entry `i` on, for at most the given number of rounds. The table
that is read is looked at again in each round, for it may be the one that is written. -/
def tableAddAllLoop (hash : κ → ℕ) (source target : ι) :
    ℕ → ℕ → (ι → Table κ ν) → Option (ι → Table κ ν)
  | 0, _, _ => none
  | rounds + 1, i, tables =>
    if i < (tables source).capacity then
      match (tables source).entries i with
      | .full key value => do
        let (table, _) ← (tables target).set hash key value
        tableAddAllLoop hash source target rounds (i + 1) (Function.update tables target table)
      | _ => tableAddAllLoop hash source target rounds (i + 1) tables
    else some tables

/-- Rounds for every entry, and for those of a table that has grown while it was added to
itself. -/
def tableAddAll (hash : κ → ℕ) (source target : ι) (tables : ι → Table κ ν) :
    Option (ι → Table κ ν) :=
  tableAddAllLoop hash source target (growCapacity (tables source).capacity + 1) 0 tables

/-- A call on one of the tables. -/
inductive TableOp (ι κ ν : Type)
  | get (table : ι) (key : κ)
  | set (table : ι) (key : κ) (value : ν)
  | delete (table : ι) (key : κ)
  | addAll (source target : ι)
  | grow (table : ι)
  | removeWhite (table : ι) (isMarked : κ → Bool)

/-- What a call gives back: the value it found, its flag, or nothing. -/
inductive TableReply (ν : Type)
  | found (value : Option ν)
  | flag (holds : Bool)
  | done
  deriving DecidableEq

/-- One call, on the tables as the code keeps them. -/
def TableOp.exec (hash : κ → ℕ) (tables : ι → Table κ ν) :
    TableOp ι κ ν → Option (TableReply ν × (ι → Table κ ν))
  | .get table key => do
    let value ← tableGet hash (tables table) key
    return (.found value, tables)
  | .set table key value => do
    let (written, isNewKey) ← (tables table).set hash key value
    return (.flag isNewKey, Function.update tables table written)
  | .delete table key => do
    let (written, wasThere) ← tableDelete hash (tables table) key
    return (.flag wasThere, Function.update tables table written)
  | .addAll source target => do
    let tables ← tableAddAll hash source target tables
    return (.done, tables)
  | .grow table => do
    let grown ← (tables table).adjustCapacity hash (growCapacity (tables table).capacity)
    return (.done, Function.update tables table grown)
  | .removeWhite table isMarked => do
    let cleared ← tableRemoveWhite hash isMarked (tables table)
    return (.done, Function.update tables table cleared)

/-- Calls one after the other, with what each gives back. -/
def runTables (hash : κ → ℕ) :
    List (TableOp ι κ ν) → (ι → Table κ ν) → Option (List (TableReply ν) × (ι → Table κ ν))
  | [], tables => some ([], tables)
  | op :: ops, tables => do
    let (reply, tables) ← op.exec hash tables
    let (replies, tables) ← runTables hash ops tables
    return (reply :: replies, tables)

/-! ### The same calls on finite maps -/

/-- What a call means: a key holds what was last set under it and not deleted since. -/
def TableOp.onMaps (maps : ι → κ → Option ν) :
    TableOp ι κ ν → TableReply ν × (ι → κ → Option ν)
  | .get table key => (.found (maps table key), maps)
  | .set table key value =>
    (.flag (maps table key).isNone,
      Function.update maps table (Function.update (maps table) key (some value)))
  | .delete table key =>
    (.flag (maps table key).isSome,
      Function.update maps table (Function.update (maps table) key none))
  | .addAll source target =>
    (.done, Function.update maps target fun key => (maps source key).or (maps target key))
  | .grow _ => (.done, maps)
  | .removeWhite table isMarked =>
    (.done, Function.update maps table fun key => if isMarked key then maps table key else none)

def runMaps : List (TableOp ι κ ν) → (ι → κ → Option ν) → List (TableReply ν) × (ι → κ → Option ν)
  | [], maps => ([], maps)
  | op :: ops, maps =>
    let (reply, maps) := op.onMaps maps
    let (replies, maps) := runMaps ops maps
    (reply :: replies, maps)

end Operations

/-! ### A table and its map -/

namespace Table

variable {hash : κ → ℕ} {table table' : Table κ ν} {map map' : κ → Option ν} {key : κ} {value : ν}

/-- A valid table that holds exactly what a map holds. -/
structure Represents (hash : κ → ℕ) (table : Table κ ν) (map : κ → Option ν) : Prop
    extends Valid hash table where
  maps_iff : ∀ key value, table.Maps key value ↔ map key = some value

theorem represents_empty (hash : κ → ℕ) :
    ({} : Table κ ν).Represents hash fun _ => none := by
  refine ⟨valid_empty hash 0, fun key value => ?_⟩
  simp only [reduceCtorEq, iff_false]
  exact not_maps_empty 0

theorem Represents.congr (h : table.Represents hash map) (heq : ∀ key, map key = map' key) :
    table.Represents hash map' := by
  refine ⟨h.toValid, fun key value => ?_⟩
  rw [h.maps_iff, heq]

theorem Represents.hasKey_iff (h : table.Represents hash map) :
    table.HasKey key ↔ (map key).isSome := by
  unfold HasKey
  simp only [h.maps_iff]
  rw [Option.isSome_iff_exists]

section Operations

variable [DecidableEq κ]

theorem Represents.tableGet (h : table.Represents hash map) (key : κ) :
    tableGet hash table key = some (map key) := by
  obtain ⟨result, hresult, hmaps⟩ := h.toValid.tableGet key
  rw [hresult]
  congr 1
  apply Option.ext
  intro value
  exact (hmaps value).trans (h.maps_iff key value)

/-- The map after a key has been stored. -/
theorem Represents.stores (h : table.Represents hash map) (hvalid : table'.Valid hash)
    (hstores : table.Stores table' key value) :
    table'.Represents hash (Function.update map key (some value)) := by
  refine ⟨hvalid, fun k v => ?_⟩
  rw [hstores k v]
  by_cases hk : k = key
  · subst hk
    simp [eq_comm]
  · simp [hk, h.maps_iff]

/-- A table that grows keeps its map, and has room for one more key. -/
theorem Represents.grow (h : table.Represents hash map) :
    ∃ table', table.adjustCapacity hash (growCapacity table.capacity) = some table' ∧
      table'.Represents hash map ∧ table'.capacity = growCapacity table.capacity ∧
      table'.needsGrowth = false := by
  obtain ⟨table', hgrown, hvalid, hcap, hcount, hmaps⟩ :=
    h.toValid.adjustCapacity (le_growCapacity table.capacity)
  refine ⟨table', hgrown, ⟨hvalid, fun key value => ?_⟩, hcap, ?_⟩
  · rw [hmaps, h.maps_iff]
  · exact h.toValid.not_needsGrowth hcount hcap

/-- What `tableSet` does to a table: the second half follows a growth where there was no room. -/
theorem Represents.set (h : table.Represents hash map) (key : κ) (value : ν) :
    ∃ table', table.set hash key value = some (table', (map key).isNone) ∧
      table'.Represents hash (Function.update map key (some value)) ∧
      table'.capacity =
        if table.needsGrowth then growCapacity table.capacity else table.capacity := by
  have hput : ∀ t : Table κ ν, t.Represents hash map → t.needsGrowth = false →
      ∃ table', t.put hash key value = some (table', (map key).isNone) ∧
        table'.Represents hash (Function.update map key (some value)) ∧
        table'.capacity = t.capacity := by
    intro t ht hroom
    obtain ⟨table', isNewKey, hput, hvalid, hcap, hstores, hnew⟩ :=
      ht.toValid.put hroom key value
    refine ⟨table', ?_, ht.stores hvalid hstores, hcap⟩
    rw [hput]
    congr 2
    rw [ht.hasKey_iff] at hnew
    cases hmap : map key <;> simpa [hmap] using hnew
  unfold Table.set
  cases hneeds : table.needsGrowth with
  | false => simpa using hput table h hneeds
  | true =>
    obtain ⟨grown, hgrown, hrep, hcap, hroom⟩ := h.grow
    obtain ⟨table', hset, hrep', hcap'⟩ := hput grown hrep hroom
    exact ⟨table', by simpa [hgrown] using hset, hrep', by simpa [hcap] using hcap'⟩

theorem Represents.tableDelete (h : table.Represents hash map) (key : κ) :
    ∃ table', tableDelete hash table key = some (table', (map key).isSome) ∧
      table'.Represents hash (Function.update map key none) := by
  cases hmap : map key with
  | none =>
    have habsent : ¬ table.HasKey key := by simp [h.hasKey_iff, hmap]
    refine ⟨table, h.toValid.tableDelete_of_not_hasKey habsent, h.congr fun k => ?_⟩
    rw [← hmap, Function.update_eq_self]
  | some value =>
    obtain ⟨p, hp, hfull⟩ := (h.maps_iff key value).mpr hmap
    have hbusy : table.Busy p := by simp [Busy, hfull]
    refine ⟨_, h.toValid.tableDelete_of_full hp hfull, h.toValid.bury hp hbusy, fun k v => ?_⟩
    rw [Table.maps_update hp]
    by_cases hk : k = key
    · subst hk
      simp only [Function.update_self, reduceCtorEq, false_or, iff_false]
      rintro ⟨q, hq, hqp, hfull'⟩
      exact hqp (h.unique q hq p hp k v value hfull' hfull)
    · rw [Function.update_of_ne hk, ← h.maps_iff]
      constructor
      · rintro (hcontra | ⟨q, hq, -, hfull'⟩)
        · cases hcontra
        · exact ⟨q, hq, hfull'⟩
      · rintro ⟨q, hq, hfull'⟩
        refine .inr ⟨q, hq, ?_, hfull'⟩
        rintro rfl
        rw [hfull] at hfull'
        cases hfull'
        exact hk rfl

theorem Represents.tableRemoveWhite (h : table.Represents hash map) (isMarked : κ → Bool) :
    ∃ table', tableRemoveWhite hash isMarked table = some table' ∧
      table'.Represents hash fun key => if isMarked key then map key else none := by
  obtain ⟨hremoved, hvalid⟩ := h.toValid.tableRemoveWhite isMarked
  refine ⟨_, hremoved, hvalid, fun key value => ?_⟩
  rw [maps_whiten, h.maps_iff]
  cases isMarked key <;> simp

/-! ### Adding a table to a table -/

/-- Storing a key that is there already takes up no room. -/
theorem Represents.needsGrowth_set (h : table.Represents hash map) (hkey : map key = some value)
    {isNewKey : Bool} (hset : table.set hash key value = some (table', isNewKey)) :
    table'.needsGrowth = false := by
  have hput : ∀ t : Table κ ν, t.Represents hash map → t.needsGrowth = false →
      t.put hash key value = some (table', isNewKey) → table'.needsGrowth = false := by
    intro t ht hroom hput
    have hload : 4 * (t.count + 1) ≤ 3 * t.capacity := by simpa [needsGrowth] using hroom
    obtain ⟨p, hfound⟩ := ht.found (by omega) key
    have hfull := (hfound.maps_iff ht.toSound).mp ((ht.maps_iff key value).mpr hkey)
    unfold Table.put at hput
    simp only [hfound.eq_some, Option.bind_eq_bind, Option.bind_some, hfull, Option.pure_def,
      Option.some.injEq, Prod.mk.injEq] at hput
    obtain ⟨rfl, -⟩ := hput
    simpa [needsGrowth, write, hfull, Entry.isEmpty] using hroom
  unfold Table.set at hset
  cases hneeds : table.needsGrowth with
  | false => exact hput table h hneeds (by simpa [hneeds] using hset)
  | true =>
    obtain ⟨grown, hgrown, hrep, -, hroom⟩ := h.grow
    exact hput grown hrep hroom (by simpa [hneeds, hgrown] using hset)

end Operations

end Table

section AddAll

open Table

variable [DecidableEq ι] [DecidableEq κ] {hash : κ → ℕ} {tables : ι → Table κ ν}

/-- What the map of the target is once the entries of the source below `i` have been added. -/
structure AddedBelow (source : Table κ ν) (map : κ → Option ν) (i : ℕ) (map' : κ → Option ν) :
    Prop where
  added : ∀ key, ∀ p < i, ∀ value, source.entries p = .full key value → map' key = some value
  kept : ∀ key, (∀ p < i, ∀ value, source.entries p ≠ .full key value) → map' key = map key

omit [DecidableEq κ] in
theorem addedBelow_zero (source : Table κ ν) (map : κ → Option ν) :
    AddedBelow source map 0 map :=
  ⟨fun _ p hp => absurd hp (Nat.not_lt_zero p), fun _ _ => rfl⟩

omit [DecidableEq κ] in
theorem AddedBelow.skip {source : Table κ ν} {map map' : κ → Option ν} {i : ℕ}
    (h : AddedBelow source map i map') (hfree : ∀ key value, source.entries i ≠ .full key value) :
    AddedBelow source map (i + 1) map' := by
  constructor
  · intro key p hp value hfull
    rcases Nat.lt_succ_iff_lt_or_eq.mp hp with hlt | rfl
    · exact h.added key p hlt value hfull
    · exact absurd hfull (hfree key value)
  · intro key hnone
    exact h.kept key fun p hp => hnone p (Nat.lt_succ_of_lt hp)

theorem AddedBelow.add {source : Table κ ν} {map map' : κ → Option ν} {i : ℕ} {key : κ}
    {value : ν} (h : AddedBelow source map i map') (hvalid : source.Valid hash)
    (hi : i < source.capacity) (hfull : source.entries i = .full key value) :
    AddedBelow source map (i + 1) (Function.update map' key (some value)) := by
  constructor
  · intro k p hp v hp'
    by_cases hk : k = key
    · subst hk
      have hpi : p = i := hvalid.unique p (by omega) i hi k v value hp' hfull
      subst hpi
      rw [hfull] at hp'
      cases hp'
      simp
    · rw [Function.update_of_ne hk]
      rcases Nat.lt_succ_iff_lt_or_eq.mp hp with hlt | rfl
      · exact h.added k p hlt v hp'
      · rw [hfull] at hp'
        cases hp'
        exact absurd rfl hk
  · intro k hnone
    have hk : k ≠ key := by
      rintro rfl
      exact hnone i (Nat.lt_succ_self i) value hfull
    rw [Function.update_of_ne hk]
    exact h.kept k fun p hp => hnone p (Nat.lt_succ_of_lt hp)

omit [DecidableEq κ] in
/-- All entries added: what the source holds goes before what the target held. -/
theorem AddedBelow.all {source : Table κ ν} {map map' sourceMap : κ → Option ν}
    (h : AddedBelow source map source.capacity map') (hsource : source.Represents hash sourceMap)
    (key : κ) : map' key = (sourceMap key).or (map key) := by
  cases hmap : sourceMap key with
  | some value =>
    obtain ⟨p, hp, hfull⟩ := (hsource.maps_iff key value).mpr hmap
    exact h.added key p hp value hfull
  | none =>
    refine h.kept key fun p hp value hfull => ?_
    have hcontra := (hsource.maps_iff key value).mp ⟨p, hp, hfull⟩
    rw [hmap] at hcontra
    cases hcontra

/-- The loop from entry `i` on, into another table. -/
theorem tableAddAllLoop_of_ne {source target : ι} (hne : source ≠ target)
    (hvalid : (tables source).Valid hash) {map map' : κ → Option ν} {rounds i : ℕ}
    (hrounds : (tables source).capacity < rounds + i) (hi : i ≤ (tables source).capacity)
    (hrep : (tables target).Represents hash map') (hadded : AddedBelow (tables source) map i map') :
    ∃ table map'', tableAddAllLoop hash source target rounds i tables =
        some (Function.update tables target table) ∧ table.Represents hash map'' ∧
      AddedBelow (tables source) map (tables source).capacity map'' := by
  induction rounds generalizing i tables map' with
  | zero => omega
  | succ rounds ih =>
    unfold tableAddAllLoop
    by_cases hlt : i < (tables source).capacity
    · rw [if_pos hlt]
      have hskip : (∀ key value, (tables source).entries i ≠ .full key value) →
          ∃ table map'', tableAddAllLoop hash source target rounds (i + 1) tables =
              some (Function.update tables target table) ∧ table.Represents hash map'' ∧
            AddedBelow (tables source) map (tables source).capacity map'' := fun hfree =>
        ih hvalid (by omega) hlt hrep (hadded.skip hfree)
      cases hentry : (tables source).entries i with
      | empty => exact hskip (by simp [hentry])
      | tombstone => exact hskip (by simp [hentry])
      | full key value =>
        obtain ⟨written, hset, hrep', -⟩ := hrep.set key value
        simp only [hset, Option.bind_eq_bind, Option.bind_some]
        have hsource : Function.update tables target written source = tables source :=
          Function.update_of_ne hne written tables
        have hnext := @ih (Function.update tables target written) (hsource.symm ▸ hvalid)
          (Function.update map' key (some value)) (i + 1)
        rw [hsource, Function.update_self] at hnext
        obtain ⟨table, map'', hloop, hrest⟩ :=
          hnext (by omega) hlt hrep' (hadded.add hvalid hlt hentry)
        rw [Function.update_idem] at hloop
        exact ⟨table, map'', hloop, hrest⟩
    · rw [if_neg hlt]
      have hend : i = (tables source).capacity := by omega
      subst hend
      exact ⟨tables target, map', by rw [Function.update_eq_self], hrep, hadded⟩

/-- The loop of a table into itself: it stores what is there, and grows at most once. -/
theorem tableAddAllLoop_self {target : ι} {map : κ → Option ν} {capacity rounds i : ℕ}
    (hrounds : growCapacity capacity < rounds + i) (hi : i ≤ (tables target).capacity)
    (hrep : (tables target).Represents hash map)
    (hcap : (tables target).capacity = capacity ∨
      (tables target).capacity = growCapacity capacity ∧ (tables target).needsGrowth = false) :
    ∃ table, tableAddAllLoop hash target target rounds i tables =
        some (Function.update tables target table) ∧ table.Represents hash map := by
  have hle : (tables target).capacity ≤ growCapacity capacity := by
    rcases hcap with hcap | ⟨hcap, -⟩
    · rw [hcap]
      exact le_growCapacity capacity
    · exact Nat.le_of_eq hcap
  induction rounds generalizing i tables with
  | zero => omega
  | succ rounds ih =>
    unfold tableAddAllLoop
    by_cases hlt : i < (tables target).capacity
    · rw [if_pos hlt]
      cases hentry : (tables target).entries i with
      | empty => exact ih (by omega) hlt hrep hcap hle
      | tombstone => exact ih (by omega) hlt hrep hcap hle
      | full key value =>
        have hkey : map key = some value := (hrep.maps_iff key value).mp ⟨i, hlt, hentry⟩
        obtain ⟨written, hset, hrep', hcap'⟩ := hrep.set key value
        have hroom := hrep.needsGrowth_set hkey hset
        have hsame : written.Represents hash map :=
          hrep'.congr fun k => by rw [← hkey, Function.update_eq_self]
        have hgrown : written.capacity = capacity ∨
            written.capacity = growCapacity capacity ∧ written.needsGrowth = false := by
          rcases hcap with hcap | ⟨hcap, hfalse⟩
          · rw [hcap] at hcap'
            split at hcap'
            · exact .inr ⟨hcap', hroom⟩
            · exact .inl hcap'
          · rw [hfalse] at hcap'
            exact .inr ⟨hcap'.trans hcap, hroom⟩
        have hmono : (tables target).capacity ≤ written.capacity := by
          rw [hcap']
          split
          · exact le_growCapacity _
          · exact Nat.le_refl _
        have hle' : written.capacity ≤ growCapacity capacity := by
          rcases hgrown with hgrown | ⟨hgrown, -⟩
          · rw [hgrown]
            exact le_growCapacity capacity
          · exact Nat.le_of_eq hgrown
        simp only [hset, Option.bind_eq_bind, Option.bind_some]
        have hnext := @ih (Function.update tables target written) (i + 1)
        rw [Function.update_self] at hnext
        obtain ⟨table, hloop, hrest⟩ := hnext (by omega) (by omega) hsame hgrown hle'
        rw [Function.update_idem] at hloop
        exact ⟨table, hloop, hrest⟩
    · rw [if_neg hlt]
      exact ⟨tables target, by rw [Function.update_eq_self], hrep⟩

/-- What `tableAddAll` does to its target. -/
theorem tableAddAll_represents {maps : ι → κ → Option ν}
    (h : ∀ t, (tables t).Represents hash (maps t)) (source target : ι) :
    ∃ table, tableAddAll hash source target tables =
        some (Function.update tables target table) ∧
      table.Represents hash fun key => (maps source key).or (maps target key) := by
  unfold tableAddAll
  by_cases hne : source = target
  · subst hne
    obtain ⟨table, hloop, hrep⟩ :=
      tableAddAllLoop_self (i := 0) (Nat.lt_succ_self _) (Nat.zero_le _) (h source) (.inl rfl)
    exact ⟨table, hloop, hrep.congr fun key => by cases maps source key <;> rfl⟩
  · have hrounds := le_growCapacity (tables source).capacity
    obtain ⟨table, map, hloop, hrep, hadded⟩ :=
      tableAddAllLoop_of_ne hne (h source).toValid (i := 0)
        (Nat.lt_succ_of_le hrounds) (Nat.zero_le _) (h target) (addedBelow_zero _ _)
    exact ⟨table, hloop, hrep.congr (hadded.all (h source))⟩

end AddAll

/-! ### Runs -/

section Runs

open Table Probing

variable [DecidableEq ι] [DecidableEq κ] {hash : κ → ℕ} {tables : ι → Table κ ν}
  {maps : ι → κ → Option ν}

omit [DecidableEq κ] in
/-- One table written, the others as they were. -/
theorem represents_update (h : ∀ t, (tables t).Represents hash (maps t)) (target : ι)
    {table : Table κ ν} {map : κ → Option ν} (hrep : table.Represents hash map) (t : ι) :
    (Function.update tables target table t).Represents hash
      (Function.update maps target map t) := by
  by_cases ht : t = target
  · subst ht
    simpa using hrep
  · simpa [ht] using h t

/-- A call on tables gives back what it gives back on their maps. -/
theorem TableOp.exec_represents (h : ∀ t, (tables t).Represents hash (maps t))
    (op : TableOp ι κ ν) :
    ∃ tables', op.exec hash tables = some ((op.onMaps maps).1, tables') ∧
      ∀ t, (tables' t).Represents hash ((op.onMaps maps).2 t) := by
  cases op with
  | get table key =>
    have hget := (h table).tableGet key
    exact ⟨tables, by simp [exec, onMaps, hget], h⟩
  | set table key value =>
    obtain ⟨written, hset, hrep, -⟩ := (h table).set key value
    exact ⟨_, by simp [exec, onMaps, hset], represents_update h table hrep⟩
  | delete table key =>
    obtain ⟨written, hdelete, hrep⟩ := (h table).tableDelete key
    exact ⟨_, by simp [exec, onMaps, hdelete], represents_update h table hrep⟩
  | addAll source target =>
    obtain ⟨written, hadd, hrep⟩ := tableAddAll_represents h source target
    exact ⟨_, by simp [exec, onMaps, hadd], represents_update h target hrep⟩
  | grow table =>
    obtain ⟨grown, hgrown, hrep, -⟩ := (h table).grow
    refine ⟨Function.update tables table grown, by simp [exec, onMaps, hgrown], fun t => ?_⟩
    have hupdate := represents_update h table hrep t
    rwa [Function.update_eq_self] at hupdate
  | removeWhite table isMarked =>
    obtain ⟨cleared, hremove, hrep⟩ := (h table).tableRemoveWhite isMarked
    exact ⟨_, by simp [exec, onMaps, hremove], represents_update h table hrep⟩

theorem runTables_represents (h : ∀ t, (tables t).Represents hash (maps t))
    (ops : List (TableOp ι κ ν)) :
    ∃ tables', runTables hash ops tables = some ((runMaps ops maps).1, tables') ∧
      ∀ t, (tables' t).Represents hash ((runMaps ops maps).2 t) := by
  induction ops generalizing tables maps with
  | nil => exact ⟨tables, rfl, h⟩
  | cons op ops ih =>
    obtain ⟨tables₁, hexec, h₁⟩ := op.exec_represents h
    obtain ⟨tables₂, hrun, h₂⟩ := ih h₁
    exact ⟨tables₂, by simp [runTables, runMaps, hexec, hrun], h₂⟩

omit [DecidableEq κ] in
/-- The search for a text ends, whichever keys are taken to have it. -/
theorem Table.Valid.tableFindString_isSome {table : Table κ ν} (h : table.Valid hash)
    (same : κ → Bool) (textHash : ℕ) :
    (KirbyLang.tableFindString table same textHash).isSome := by
  unfold KirbyLang.tableFindString
  by_cases hcount : table.count = 0
  · simp [hcount]
  · have hload := h.load
    obtain ⟨e, he, hempty⟩ := h.exists_empty (by omega)
    obtain ⟨i, hi, hend, hgo⟩ := exists_first (P := table.EndsText same) he (.inl hempty) textHash
    have hgo' : ∀ j < i, ¬ table.EndsText same (cell table.capacity textHash (0 + j)) := by
      simpa using hgo
    have hend' : table.EndsText same (cell table.capacity textHash (0 + i)) := by simpa using hend
    obtain ⟨found, hfound, -⟩ := tableFindStringLoop_ends hi hgo' hend'
    rw [cell_zero] at hfound
    simp [hcount, hfound]

/-- A program that calls the operations on empty tables, whatever the hashes of its keys, sees
what it would see of finite maps. Every table it comes to keeps an entry at which the searches
end, and no key twice. -/
theorem runTables_refines_runMaps (hash : κ → ℕ) (ops : List (TableOp ι κ ν)) :
    ∃ tables, runTables hash ops (fun _ => {}) = some ((runMaps ops fun _ _ => none).1, tables) ∧
      ∀ t,
        (∀ key, tableGet hash (tables t) key = some ((runMaps ops fun _ _ => none).2 t key)) ∧
        (∀ p < (tables t).capacity, ∀ q < (tables t).capacity, ∀ key v w,
          (tables t).entries p = .full key v → (tables t).entries q = .full key w → p = q) ∧
        (0 < (tables t).capacity →
          (∃ p < (tables t).capacity, (tables t).entries p = .empty) ∧
          (∀ key, (findEntry hash (tables t).entries (tables t).capacity key).isSome) ∧
          ∀ same textHash, (tableFindString (tables t) same textHash).isSome) := by
  have hempty : ∀ _ : ι, ({} : Table κ ν).Represents hash fun _ => none :=
    fun _ => represents_empty hash
  obtain ⟨tables, hrun, hrep⟩ := runTables_represents hempty ops
  refine ⟨tables, hrun, fun t => ⟨(hrep t).tableGet, (hrep t).unique, fun hcap => ?_⟩⟩
  have hroom := (hrep t).toValid.room hcap
  refine ⟨(hrep t).exists_empty hroom, fun key => ?_, (hrep t).toValid.tableFindString_isSome⟩
  obtain ⟨p, hfound⟩ := (hrep t).found hroom key
  rw [hfound.eq_some]
  rfl

end Runs

end KirbyLang
