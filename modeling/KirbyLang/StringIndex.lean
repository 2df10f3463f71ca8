import KirbyLang.HashTableSound
import KirbyLang.Object

/-!
# Sets of strings with their index

`stringset.c` as it is written: the strings lie one after the other in an arena, and a hash table
without tombstones says where each of them starts. A slot of the table stands for the text that it
points to, so the search for a slot is the search of a table that has the texts as its keys.

* `arenaAppend`, `findSlot`, `adjustCapacity`, `stringSetContains`, `stringSetIntern`;
* `StringSet.table`: the index as a table from texts to offsets;
* `stringSetIntern_spec`: what an insertion returns, and what the set then holds.
-/

namespace KirbyLang.Indexed

open Vm (hashBytes)

structure StringSetEntry where
  offset : ℕ
  length : ℕ
  hash : UInt32
  deriving DecidableEq, Repr

/-- An empty slot has the length `-1` in C. Only the slots below `capacity` exist, and only
`arena.length` bytes of the arena are in use. -/
structure StringSet where
  arena : Bytes := []
  arenaCapacity : ℕ := 0
  entries : ℕ → Option StringSetEntry := fun _ => none
  count : ℕ := 0
  capacity : ℕ := 0

/-- The bytes of an arena from an offset on. -/
def slice (arena : Bytes) (offset length : ℕ) : Bytes := (arena.drop offset).take length

/-- Double a capacity until it is enough. -/
def doubleUntil (needed cap : ℕ) : ℕ :=
  if cap < needed ∧ 0 < cap then doubleUntil needed (cap * 2) else cap
termination_by needed - cap

/-- Append bytes to the arena and return the offset they start at. -/
def arenaAppend (set : StringSet) (chars : Bytes) : ℕ × StringSet :=
  let needed := set.arena.length + chars.length
  let arenaCapacity :=
    if set.arenaCapacity < needed then
      doubleUntil needed (if set.arenaCapacity < 64 then 64 else set.arenaCapacity)
    else set.arenaCapacity
  (set.arena.length, { set with arena := set.arena ++ chars, arenaCapacity })

/-- The loop of `findSlot`, for at most the given number of rounds. -/
def findSlotLoop (entries : ℕ → Option StringSetEntry) (capacity : ℕ) (arena chars : Bytes)
    (hash : UInt32) : ℕ → ℕ → Option ℕ
  | 0, _ => none
  | rounds + 1, index =>
    match entries index with
    | none => some index
    | some entry =>
      if entry.length == chars.length && entry.hash == hash &&
          slice arena entry.offset chars.length == chars then some index
      else findSlotLoop entries capacity arena chars hash rounds ((index + 1) % capacity)

/-- The matching slot, or the first empty one. Once around the table without either, the loop goes
on for ever. -/
def findSlot (entries : ℕ → Option StringSetEntry) (capacity : ℕ) (arena chars : Bytes)
    (hash : UInt32) : Option ℕ :=
  findSlotLoop entries capacity arena chars hash capacity (hash.toNat % capacity)

/-- One round of the loop of `adjustCapacity`. -/
def moveEntry (set : StringSet) (newCapacity : ℕ) (entries : ℕ → Option StringSetEntry) (i : ℕ) :
    Option (ℕ → Option StringSetEntry) :=
  match set.entries i with
  | none => some entries
  | some old => do
    let dest ← findSlot entries newCapacity set.arena (slice set.arena old.offset old.length) old.hash
    return Function.update entries dest (some old)

def adjustCapacity (set : StringSet) (newCapacity : ℕ) : Option StringSet := do
  let entries ← (List.range set.capacity).foldlM (moveEntry set newCapacity) fun _ => none
  return { set with entries, capacity := newCapacity }

def stringSetContains (set : StringSet) (chars : Bytes) : Option Bool :=
  if set.count = 0 then some false
  else do
    let slot ← findSlot set.entries set.capacity set.arena chars (hashBytes chars)
    return (set.entries slot).isSome

/-- `STRINGSET_MAX_LOAD` is 0.75, and what it allows is rounded down. -/
def needsGrowth (set : StringSet) : Bool := decide (3 * set.capacity / 4 < set.count + 1)

/-- `stringSetIntern` once there is room for one more string. -/
def internInRoom (set : StringSet) (chars : Bytes) : Option (ℕ × StringSet) := do
  let hash := hashBytes chars
  let slot ← findSlot set.entries set.capacity set.arena chars hash
  match set.entries slot with
  | some entry => return (entry.offset, set)
  | none =>
    let (offset, set) := arenaAppend set chars
    return (offset,
      { set with
        entries := Function.update set.entries slot (some ⟨offset, chars.length, hash⟩)
        count := set.count + 1 })

/-- The offset of a string, appended to the arena when it is not there yet. -/
def stringSetIntern (set : StringSet) (chars : Bytes) : Option (ℕ × StringSet) :=
  if needsGrowth set then do
    let newCapacity := if set.capacity < 8 then 8 else set.capacity * 2
    let set ← adjustCapacity set newCapacity
    internInRoom set chars
  else internInRoom set chars

/-! ### The index as a table -/

/-- The hash of a text, where a search for it starts. -/
def textHash (chars : Bytes) : ℕ := (hashBytes chars).toNat

/-- The text of an entry. -/
def StringSetEntry.text (entry : StringSetEntry) (arena : Bytes) : Bytes :=
  slice arena entry.offset entry.length

/-- A slot as an entry of a table: the text it points to, with its offset. -/
def slotEntry (arena : Bytes) : Option StringSetEntry → Entry Bytes ℕ
  | none => .empty
  | some entry => .full (entry.text arena) entry.offset

/-- The index of a set as a table from its texts to their offsets. -/
def StringSet.table (set : StringSet) : Table Bytes ℕ :=
  { count := set.count
    capacity := set.capacity
    entries := fun p => slotEntry set.arena (set.entries p) }

/-- An entry lies in the arena and has the hash of its text. -/
structure StringSetEntry.Stored (entry : StringSetEntry) (arena : Bytes) : Prop where
  in_arena : entry.offset + entry.length ≤ arena.length
  hash_eq : entry.hash = hashBytes (entry.text arena)

/-- Every entry is stored. -/
def AllStored (entries : ℕ → Option StringSetEntry) (arena : Bytes) : Prop :=
  ∀ p entry, entries p = some entry → entry.Stored arena

variable {arena chars text : Bytes} {entries : ℕ → Option StringSetEntry} {entry : StringSetEntry}
  {set set' : StringSet} {capacity offset : ℕ}

theorem length_slice {length : ℕ} (h : offset + length ≤ arena.length) :
    (slice arena offset length).length = length := by
  unfold slice
  rw [List.length_take, List.length_drop]
  omega

/-- Bytes that are there stay when more are appended. -/
theorem slice_append {length : ℕ} (h : offset + length ≤ arena.length) (more : Bytes) :
    slice (arena ++ more) offset length = slice arena offset length := by
  unfold slice
  rw [List.drop_append_of_le_length (by omega), List.take_append_of_le_length]
  rw [List.length_drop]
  omega

theorem slice_appended (arena chars : Bytes) :
    slice (arena ++ chars) arena.length chars.length = chars := by
  unfold slice
  rw [List.drop_left, List.take_length]

namespace StringSetEntry

theorem Stored.length_text (h : entry.Stored arena) : (entry.text arena).length = entry.length :=
  length_slice h.in_arena

theorem Stored.text_append (h : entry.Stored arena) (more : Bytes) :
    entry.text (arena ++ more) = entry.text arena :=
  slice_append h.in_arena more

theorem Stored.append (h : entry.Stored arena) (more : Bytes) : entry.Stored (arena ++ more) := by
  constructor
  · rw [List.length_append]
    exact Nat.le_trans h.in_arena (Nat.le_add_right _ _)
  · rw [h.text_append]
    exact h.hash_eq

/-- The comparison of `findSlot` is the comparison of the texts. -/
theorem Stored.matches_iff (h : entry.Stored arena) (chars : Bytes) :
    (entry.length == chars.length && entry.hash == hashBytes chars &&
      slice arena entry.offset chars.length == chars) = true ↔ entry.text arena = chars := by
  simp only [Bool.and_eq_true, beq_iff_eq]
  constructor
  · rintro ⟨⟨hlength, -⟩, hbytes⟩
    unfold text
    rw [hlength]
    exact hbytes
  · rintro rfl
    rw [h.length_text]
    exact ⟨⟨rfl, h.hash_eq⟩, rfl⟩

end StringSetEntry

/-- The search for a slot is the search for a text. -/
theorem findSlotLoop_eq (hstored : AllStored entries arena) (rounds index : ℕ) :
    findSlotLoop entries capacity arena chars (hashBytes chars) rounds index =
      findEntryLoop (fun p => slotEntry arena (entries p)) capacity chars rounds index none := by
  induction rounds generalizing index with
  | zero => rfl
  | succ rounds ih =>
    unfold findSlotLoop findEntryLoop
    cases hentry : entries index with
    | none => rfl
    | some entry =>
      have hmatch := (hstored index entry hentry).matches_iff chars
      simp only [slotEntry]
      by_cases heq : entry.text arena = chars
      · rw [if_pos (hmatch.mpr heq), if_pos heq]
      · rw [if_neg (fun h => heq (hmatch.mp h)), if_neg heq]
        exact ih _

theorem findSlot_eq (hstored : AllStored entries arena) :
    findSlot entries capacity arena chars (hashBytes chars) =
      findEntry textHash (fun p => slotEntry arena (entries p)) capacity chars :=
  findSlotLoop_eq hstored capacity _

theorem AllStored.append (h : AllStored entries arena) (more : Bytes) :
    AllStored entries (arena ++ more) :=
  fun p entry hentry => (h p entry hentry).append more

theorem AllStored.update (h : AllStored entries arena) (hentry : entry.Stored arena) (p : ℕ) :
    AllStored (Function.update entries p (some entry)) arena := by
  intro q other hother
  by_cases hq : q = p
  · subst hq
    simp only [Function.update_self, Option.some.injEq] at hother
    exact hother ▸ hentry
  · rw [Function.update_of_ne hq] at hother
    exact h q other hother

/-- The slots after one of them has been filled. -/
theorem slotEntry_update (entries : ℕ → Option StringSetEntry) (p : ℕ) :
    (fun q => slotEntry arena (Function.update entries p (some entry) q)) =
      Function.update (fun q => slotEntry arena (entries q)) p
        (.full (entry.text arena) entry.offset) := by
  funext q
  by_cases hq : q = p
  · subst hq
    simp [slotEntry]
  · simp [Function.update_of_ne hq]

/-! ### Growing the index -/

/-- The set in use: its entries are stored, its index is valid, and its arena has the room. -/
structure StringSet.Valid (set : StringSet) : Prop where
  stored : AllStored set.entries set.arena
  index : set.table.Valid textHash
  room : set.arena.length ≤ set.arenaCapacity

/-- The new slots while `adjustCapacity` fills them, as a table. -/
def filling (set : StringSet) (newCapacity i : ℕ) (entries : ℕ → Option StringSetEntry) :
    Table Bytes ℕ :=
  { count := (set.table.usedBelow i).card
    capacity := newCapacity
    entries := fun p => slotEntry set.arena (entries p) }

/-- One round moves an entry as a round of the table's own loop does. -/
theorem moveEntry_spec (h : set.Valid) {newCapacity i : ℕ} (hcap : set.capacity ≤ newCapacity)
    (hi : i < set.capacity) (hstored : AllStored entries set.arena)
    (hfilled : (filling set newCapacity i entries).Refilled textHash set.table newCapacity i) :
    ∃ entries', moveEntry set newCapacity entries i = some entries' ∧
      AllStored entries' set.arena ∧
      (filling set newCapacity (i + 1) entries').Refilled textHash set.table newCapacity (i + 1) := by
  obtain ⟨table', hreinsert, hfilled'⟩ := hfilled.reinsert h.index hi hcap
  unfold Table.reinsert at hreinsert
  unfold moveEntry
  cases hentry : set.entries i with
  | none =>
    have hempty : set.table.entries i = .empty := by simp [StringSet.table, hentry, slotEntry]
    rw [hempty] at hreinsert
    cases hreinsert
    refine ⟨entries, rfl, hstored, ?_⟩
    unfold filling
    rw [Table.usedBelow_succ_of_empty hempty]
    exact hfilled'
  | some old =>
    have hold := h.stored i old hentry
    have hfull : set.table.entries i = .full (old.text set.arena) old.offset := by
      simp [StringSet.table, hentry, slotEntry]
    have hbusy : set.table.Busy i := by simp [Table.Busy, hfull]
    have hsearch : findSlot entries newCapacity set.arena
        (slice set.arena old.offset old.length) old.hash =
          findEntry textHash (filling set newCapacity i entries).entries newCapacity
            (old.text set.arena) := by
      rw [hold.hash_eq]
      exact findSlot_eq hstored
    rw [hfull] at hreinsert
    cases hfind : findEntry textHash (filling set newCapacity i entries).entries newCapacity
        (old.text set.arena) with
    | none =>
      have hnone : (none : Option (Table Bytes ℕ)) = some table' := by
        rw [← hreinsert]
        show none = (findEntry textHash (filling set newCapacity i entries).entries newCapacity
          (old.text set.arena)).bind _
        rw [hfind]
        rfl
      cases hnone
    | some dest =>
      refine ⟨Function.update entries dest (some old), ?_, hstored.update hold dest, ?_⟩
      · simp only [hsearch, hfind]
        rfl
      have htable : table' = filling set newCapacity (i + 1)
          (Function.update entries dest (some old)) := by
        have hsome : some table' = some (filling set newCapacity (i + 1)
            (Function.update entries dest (some old))) := by
          rw [← hreinsert]
          show (findEntry textHash (filling set newCapacity i entries).entries newCapacity
            (old.text set.arena)).bind _ = _
          rw [hfind]
          unfold filling
          rw [slotEntry_update, Table.usedBelow_succ_of_busy hi hbusy]
          rfl
        exact Option.some.inj hsome
      rw [← htable]
      exact hfilled'

/-- An index that grows finds the same texts at the same offsets. -/
theorem adjustCapacity_spec (h : set.Valid) {newCapacity : ℕ} (hcap : set.capacity ≤ newCapacity) :
    ∃ set', adjustCapacity set newCapacity = some set' ∧ set'.Valid ∧ set'.arena = set.arena ∧
      set'.count = set.count ∧ set'.capacity = newCapacity ∧
      ∀ text offset, set'.table.Maps text offset ↔ set.table.Maps text offset := by
  have hnone : AllStored (fun _ => none) set.arena := fun p entry hentry => by cases hentry
  have hstart : (filling set newCapacity 0 fun _ => none).Refilled textHash set.table
      newCapacity 0 := by
    have hused : set.table.usedBelow 0 = ∅ := by simp [Table.usedBelow]
    have hempty : filling set newCapacity 0 (fun _ => none) =
        ({ capacity := newCapacity } : Table Bytes ℕ) := by
      unfold filling
      rw [hused]
      rfl
    rw [hempty]
    refine ⟨Table.sound_empty textHash newCapacity, rfl, fun p => by simp, Nat.zero_le _,
      fun k v => ?_⟩
    simp only [Table.not_maps_empty, false_iff]
    rintro ⟨p, hp, -⟩
    omega
  obtain ⟨entries, hloop, hstored, hfilled⟩ := Loops.foldlM_range_spec
    (P := fun i entries => AllStored entries set.arena ∧
      (filling set newCapacity i entries).Refilled textHash set.table newCapacity i)
    ⟨hnone, hstart⟩
    (fun i hi entries hP => moveEntry_spec h hcap hi hP.1 hP.2)
  have hcount : (set.table.usedBelow set.capacity).card = set.count := by
    have hall : set.table.usedBelow set.capacity = set.table.used := by
      unfold Table.usedBelow
      rw [Finset.filter_eq_self]
      intro p hp
      exact (Table.mem_used.mp hp).1
    rw [hall]
    exact h.index.count_eq.symm
  have htable : filling set newCapacity set.capacity entries =
      StringSet.table { set with entries, capacity := newCapacity } := by
    unfold filling
    rw [hcount]
    rfl
  rw [htable] at hfilled
  refine ⟨{ set with entries, capacity := newCapacity }, ?_, ⟨hstored, ⟨hfilled.toSound, ?_⟩, h.room⟩,
    rfl, rfl, rfl, fun text offset => ?_⟩
  · unfold adjustCapacity
    rw [hloop]
    rfl
  · have hload : 4 * set.count ≤ 3 * set.capacity := h.index.load
    show 4 * set.count ≤ 3 * newCapacity
    omega
  · exact hfilled.maps_iff text offset

/-! ### Membership and insertion -/

theorem findSlot_table (h : set.Valid) (chars : Bytes) :
    findSlot set.entries set.capacity set.arena chars (hashBytes chars) =
      findEntry textHash set.table.entries set.table.capacity chars :=
  findSlot_eq h.stored

/-- An index has no tombstones, so a text that is not there ends up in an empty slot. -/
theorem slot_of_found (set : StringSet) {p : ℕ} (h : set.table.Found textHash chars p) :
    (∃ entry, set.entries p = some entry ∧ set.table.Maps chars entry.offset) ∨
      set.entries p = none ∧ ¬ set.table.HasKey chars := by
  rcases h.here with ⟨offset, hfull⟩ | ⟨habsent, hfree, -⟩
  · cases hentry : set.entries p with
    | none => simp [StringSet.table, hentry, slotEntry] at hfull
    | some entry =>
      have hoffset : entry.offset = offset := by
        simp only [StringSet.table, hentry, slotEntry, Entry.full.injEq] at hfull
        exact hfull.2
      exact .inl ⟨entry, rfl, hoffset ▸ ⟨p, h.lt, hfull⟩⟩
  · refine .inr ⟨?_, habsent⟩
    cases hentry : set.entries p with
    | none => rfl
    | some entry => simp [StringSet.table, hentry, slotEntry] at hfree

theorem stringSetContains_spec (h : set.Valid) (chars : Bytes) :
    ∃ found, stringSetContains set chars = some found ∧
      (found = true ↔ set.table.HasKey chars) := by
  unfold stringSetContains
  by_cases hcount : set.count = 0
  · refine ⟨false, by simp [hcount], ?_⟩
    simp only [Bool.false_eq_true, false_iff]
    exact h.index.not_hasKey_of_count hcount
  · have hload : 4 * set.count ≤ 3 * set.capacity := h.index.load
    have hroom : set.table.count < set.table.capacity := by
      show set.count < set.capacity
      omega
    obtain ⟨p, hfound⟩ := h.index.found hroom chars
    rw [if_neg hcount, findSlot_table h, hfound.eq_some]
    rcases slot_of_found set hfound with ⟨entry, hentry, hmaps⟩ | ⟨hentry, habsent⟩
    · exact ⟨true, by simp [hentry], by simpa using ⟨entry.offset, hmaps⟩⟩
    · exact ⟨false, by simp [hentry], by simpa using habsent⟩

theorem le_doubleUntil (needed cap : ℕ) (hcap : 0 < cap) : needed ≤ doubleUntil needed cap := by
  induction cap using doubleUntil.induct needed with
  | case1 cap hlt ih =>
    unfold doubleUntil
    rw [if_pos hlt]
    exact ih (by omega)
  | case2 cap hge =>
    unfold doubleUntil
    rw [if_neg hge]
    omega

/-- What an insertion leaves behind: the text was there, and nothing has changed, or it has been
appended and can be found at its offset. -/
inductive Interned (set : StringSet) (chars : Bytes) (offset : ℕ) (set' : StringSet) : Prop
  | found (maps : set.table.Maps chars offset) (arena_eq : set'.arena = set.arena)
      (same : ∀ text o, set'.table.Maps text o ↔ set.table.Maps text o)
  | appended (absent : ¬ set.table.HasKey chars) (offset_eq : offset = set.arena.length)
      (arena_eq : set'.arena = set.arena ++ chars)
      (stores : set.table.Stores set'.table chars offset)

theorem internInRoom_spec (h : set.Valid) (hroom : 4 * (set.count + 1) ≤ 3 * set.capacity)
    (chars : Bytes) :
    ∃ offset set', internInRoom set chars = some (offset, set') ∧ set'.Valid ∧
      Interned set chars offset set' := by
  have hroom' : set.table.count < set.table.capacity := by
    show set.count < set.capacity
    omega
  obtain ⟨p, hfound⟩ := h.index.found hroom' chars
  unfold internInRoom
  simp only [findSlot_table h, hfound.eq_some, Option.bind_eq_bind, Option.bind_some]
  rcases slot_of_found set hfound with ⟨entry, hentry, hmaps⟩ | ⟨hentry, habsent⟩
  · refine ⟨entry.offset, set, by simp [hentry], h, .found hmaps rfl fun _ _ => Iff.rfl⟩
  let entry : StringSetEntry := ⟨set.arena.length, chars.length, hashBytes chars⟩
  let set' : StringSet :=
    { (arenaAppend set chars).2 with
      entries := Function.update set.entries p (some entry)
      count := set.count + 1 }
  have htext : entry.text (set.arena ++ chars) = chars := slice_appended set.arena chars
  have hstored : entry.Stored (set.arena ++ chars) := by
    constructor
    · rw [List.length_append]
    · rw [htext]
  -- the entries that are there point to what they pointed to
  have hslots : ∀ q, slotEntry (set.arena ++ chars) (set.entries q) =
      slotEntry set.arena (set.entries q) := by
    intro q
    cases hq : set.entries q with
    | none => rfl
    | some other => simp [slotEntry, (h.stored q other hq).text_append]
  have hempty : set.table.entries p = .empty := by simp [StringSet.table, hentry, slotEntry]
  have htable : set'.table = set.table.write p chars set.arena.length := by
    show Table.mk _ _ (fun q => slotEntry (set.arena ++ chars)
      (Function.update set.entries p (some entry) q)) = _
    rw [slotEntry_update, htext]
    simp only [hslots, Table.write, hempty, Entry.isEmpty, if_true]
    rfl
  have hvalid : (set.table.write p chars set.arena.length).Valid textHash := by
    refine ⟨h.index.update hfound _ rfl, ?_⟩
    simp only [Table.write, hempty, Entry.isEmpty, if_true]
    exact hroom
  refine ⟨set.arena.length, set', by simp [hentry, arenaAppend, set', entry], ⟨?_, ?_, ?_⟩,
    .appended habsent rfl rfl ?_⟩
  · exact (h.stored.append chars).update hstored p
  · rw [htable]
    exact hvalid
  · show (set.arena ++ chars).length ≤ if set.arenaCapacity < set.arena.length + chars.length then
      doubleUntil (set.arena.length + chars.length)
        (if set.arenaCapacity < 64 then 64 else set.arenaCapacity) else set.arenaCapacity
    rw [List.length_append]
    split
    · apply le_doubleUntil
      split <;> omega
    · omega
  · rw [htable]
    exact fun k v => h.index.maps_update hfound

/-- What an insertion returns and leaves behind. -/
theorem stringSetIntern_spec (h : set.Valid) (chars : Bytes) :
    ∃ offset set', stringSetIntern set chars = some (offset, set') ∧ set'.Valid ∧
      Interned set chars offset set' := by
  have hload : 4 * set.count ≤ 3 * set.capacity := h.index.load
  unfold stringSetIntern
  cases hgrow : needsGrowth set with
  | false =>
    have hroom : 4 * (set.count + 1) ≤ 3 * set.capacity := by
      simp only [needsGrowth, decide_eq_false_iff_not, not_lt] at hgrow
      omega
    simpa using internInRoom_spec h hroom chars
  | true =>
    obtain ⟨grown, hgrown, hvalid, harena, hcount, hcap, hmaps⟩ :=
      adjustCapacity_spec h (show set.capacity ≤ if set.capacity < 8 then 8 else set.capacity * 2 by
        split <;> omega)
    have hroom : 4 * (grown.count + 1) ≤ 3 * grown.capacity := by
      rw [hcount, hcap]
      split <;> omega
    obtain ⟨offset, set', hintern, hvalid', hcase⟩ := internInRoom_spec hvalid hroom chars
    refine ⟨offset, set', by simp [hgrown, hintern], hvalid', ?_⟩
    cases hcase with
    | found maps arena_eq same =>
      exact .found ((hmaps _ _).mp maps) (arena_eq.trans harena)
        fun text o => (same text o).trans (hmaps text o)
    | appended absent offset_eq arena_eq stores =>
      refine .appended ?_ (harena ▸ offset_eq) (harena ▸ arena_eq) fun text o => ?_
      · rintro ⟨o, ho⟩
        exact absent ⟨o, (hmaps _ _).mpr ho⟩
      · rw [stores text o, hmaps]

end KirbyLang.Indexed
