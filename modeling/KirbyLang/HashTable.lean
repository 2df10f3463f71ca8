import KirbyLang.Lib.Probing
import Mathlib.Data.Finset.Card
import Mathlib.Data.Finset.Range
import Mathlib.Logic.Function.Basic

/-!
# Hash tables

The open-addressed table of `hashtable.c`. Its keys are compared by address, so they are any type
with decidable equality; `hash` is the field of a key that the search starts from. Growing a table
allocates, which is the caller's business: `tableSet` is here in its two halves, `adjustCapacity`
and `put`. A probe loop that would never end gives `none`.
-/

namespace KirbyLang

open Probing

/-- An entry by its key and value: no key and nil, no key and a value, or both. -/
inductive Entry (κ ν : Type)
  | empty
  | tombstone
  | full (key : κ) (value : ν)
  deriving DecidableEq

/-- Whether the key is `NULL` and the value nil. -/
def Entry.isEmpty {κ ν : Type} : Entry κ ν → Bool
  | .empty => true
  | _ => false

/-- `count` is the number of entries that are not empty; only those below `capacity` exist. -/
structure Table (κ ν : Type) where
  count : ℕ := 0
  capacity : ℕ := 0
  entries : ℕ → Entry κ ν := fun _ => .empty

section Operations

variable {κ ν : Type} [DecidableEq κ]

/-- The loop of `findEntry`, for at most the given number of rounds. -/
def findEntryLoop (entries : ℕ → Entry κ ν) (capacity : ℕ) (key : κ) :
    ℕ → ℕ → Option ℕ → Option ℕ
  | 0, _, _ => none
  | rounds + 1, index, tombstone =>
    match entries index with
    | .empty => some (tombstone.getD index)
    | .tombstone =>
      findEntryLoop entries capacity key rounds ((index + 1) % capacity)
        (tombstone.or (some index))
    | .full key' _ =>
      if key' = key then some index
      else findEntryLoop entries capacity key rounds ((index + 1) % capacity) tombstone

/-- The entry of a key, or the entry where it belongs. Once around the table without an end, the
loop goes on for ever. -/
def findEntry (hash : κ → ℕ) (entries : ℕ → Entry κ ν) (capacity : ℕ) (key : κ) : Option ℕ :=
  findEntryLoop entries capacity key capacity (hash key % capacity) none

/-- `TABLE_MAX_LOAD` is 0.75. -/
def Table.needsGrowth (table : Table κ ν) : Bool :=
  decide (3 * table.capacity < 4 * (table.count + 1))

/-- `GROW_CAPACITY`. -/
def growCapacity (capacity : ℕ) : ℕ := if capacity < 8 then 8 else capacity * 2

/-- Write a key into the entry that was found for it. -/
def Table.write (table : Table κ ν) (index : ℕ) (key : κ) (value : ν) : Table κ ν :=
  { table with
    count := if (table.entries index).isEmpty then table.count + 1 else table.count
    entries := Function.update table.entries index (.full key value) }

/-- One round of the loop of `adjustCapacity`. -/
def Table.reinsert (hash : κ → ℕ) (old table : Table κ ν) (i : ℕ) : Option (Table κ ν) :=
  match old.entries i with
  | .full key value => do
    let index ← findEntry hash table.entries table.capacity key
    return { table with
      count := table.count + 1
      entries := Function.update table.entries index (.full key value) }
  | _ => some table

def Table.adjustCapacity (hash : κ → ℕ) (table : Table κ ν) (capacity : ℕ) :
    Option (Table κ ν) :=
  (List.range table.capacity).foldlM (Table.reinsert hash table) { capacity }

def tableGet (hash : κ → ℕ) (table : Table κ ν) (key : κ) : Option (Option ν) :=
  if table.count = 0 then some none
  else do
    let index ← findEntry hash table.entries table.capacity key
    match table.entries index with
    | .full _ value => return some value
    | _ => return none

/-- The rest of `tableSet`, once there is room. The flag says whether the key is new. -/
def Table.put (hash : κ → ℕ) (table : Table κ ν) (key : κ) (value : ν) :
    Option (Table κ ν × Bool) := do
  let index ← findEntry hash table.entries table.capacity key
  match table.entries index with
  | .full _ _ => return (table.write index key value, false)
  | _ => return (table.write index key value, true)

/-- The flag says whether the key was there. -/
def tableDelete (hash : κ → ℕ) (table : Table κ ν) (key : κ) : Option (Table κ ν × Bool) :=
  if table.count = 0 then some (table, false)
  else do
    let index ← findEntry hash table.entries table.capacity key
    match table.entries index with
    | .full _ _ =>
      return ({ table with entries := Function.update table.entries index .tombstone }, true)
    | _ => return (table, false)

/-- The loop of `tableFindString`; `same` compares a key with the text looked for. -/
def tableFindStringLoop (table : Table κ ν) (same : κ → Bool) : ℕ → ℕ → Option (Option κ)
  | 0, _ => none
  | rounds + 1, index =>
    match table.entries index with
    | .empty => some none
    | .tombstone => tableFindStringLoop table same rounds ((index + 1) % table.capacity)
    | .full key _ =>
      if same key then some (some key)
      else tableFindStringLoop table same rounds ((index + 1) % table.capacity)

/-- The key with a given text, whose hash is `hash`. -/
def tableFindString (table : Table κ ν) (same : κ → Bool) (hash : ℕ) : Option (Option κ) :=
  if table.count = 0 then some none
  else tableFindStringLoop table same table.capacity (hash % table.capacity)

/-- One round of the loop of `tableRemoveWhite`. -/
def Table.removeIfWhite (hash : κ → ℕ) (isMarked : κ → Bool) (table : Table κ ν) (i : ℕ) :
    Option (Table κ ν) :=
  match table.entries i with
  | .full key _ =>
    if isMarked key then some table
    else (tableDelete hash table key).map Prod.fst
  | _ => some table

def tableRemoveWhite (hash : κ → ℕ) (isMarked : κ → Bool) (table : Table κ ν) :
    Option (Table κ ν) :=
  (List.range table.capacity).foldlM (Table.removeIfWhite hash isMarked) table

end Operations

end KirbyLang
