import KirbyLang.StringIndex
import Mathlib.Data.List.Find

/-!
# Interned names

Insertions one after the other into a set of strings, and the names that the type checker makes of
tokens with such a set (`types.c`). A name is compared by its offset alone.

* `internAll`, `internAll_spec`: any number of insertions;
* `internTokenName`, `internedNamesEqual`: the names of the type checker;
* `interning_exact`: offsets stand for texts, and stay what they are;
* `Represents.stringSetIntern`: the set without its index inserts the same way.
-/

namespace KirbyLang.Indexed

variable {set set' : StringSet} {chars text : Bytes} {offset : ℕ} {xs rest : List Bytes}

/-- Insert strings one after the other. -/
def internAll (set : StringSet) : List Bytes → Option (List ℕ × StringSet)
  | [] => some ([], set)
  | chars :: rest => do
    let (offset, set) ← stringSetIntern set chars
    let (offsets, set) ← internAll set rest
    return (offset :: offsets, set)

/-! ### What a set holds -/

/-- What is held at an offset lies in the arena. -/
theorem StringSet.Valid.slice_of_maps (h : set.Valid) (hmaps : set.table.Maps text offset) :
    offset + text.length ≤ set.arena.length ∧ slice set.arena offset text.length = text := by
  obtain ⟨p, -, hfull⟩ := hmaps
  cases hentry : set.entries p with
  | none => simp [StringSet.table, hentry, slotEntry] at hfull
  | some entry =>
    simp only [StringSet.table, hentry, slotEntry, Entry.full.injEq] at hfull
    obtain ⟨rfl, rfl⟩ := hfull
    have hstored := h.stored p entry hentry
    rw [hstored.length_text]
    exact ⟨hstored.in_arena, rfl⟩

/-- A set in use, whose nonempty strings have offsets of their own. -/
structure StringSet.Distinct (set : StringSet) : Prop extends set.Valid where
  distinct : ∀ a b offset, set.table.Maps a offset → set.table.Maps b offset → a ≠ [] → b ≠ [] →
    a = b

theorem distinct_empty : ({} : StringSet).Distinct := by
  have hnone : ∀ text offset, ¬ ({} : StringSet).table.Maps text offset := by
    rintro text offset ⟨p, hp, -⟩
    exact Nat.not_lt_zero p hp
  refine ⟨⟨fun p entry h => (by cases h), Table.valid_empty textHash 0, Nat.zero_le _⟩, ?_⟩
  intro a b offset ha
  exact absurd ha (hnone a offset)

/-- An insertion, and what it does to what the set holds. -/
theorem StringSet.Distinct.intern (h : set.Distinct) (chars : Bytes) :
    ∃ offset set', stringSetIntern set chars = some (offset, set') ∧ set'.Distinct ∧
      set'.table.Maps chars offset ∧ set.arena <+: set'.arena ∧
      (∀ text o, set.table.Maps text o → set'.table.Maps text o) ∧
      ∀ text, set'.table.HasKey text ↔ set.table.HasKey text ∨ text = chars := by
  obtain ⟨offset, set', hintern, hvalid, hcase⟩ := stringSetIntern_spec h.toValid chars
  refine ⟨offset, set', hintern, ?_⟩
  cases hcase with
  | found maps arena_eq same =>
    refine ⟨⟨hvalid, fun a b o ha hb => ?_⟩, (same _ _).mpr maps, ?_, fun text o => (same text o).mpr,
      fun text => ?_⟩
    · exact h.distinct a b o ((same a o).mp ha) ((same b o).mp hb)
    · rw [arena_eq]
    · unfold Table.HasKey
      simp only [same]
      constructor
      · exact .inl
      · rintro (hkey | rfl)
        · exact hkey
        · exact ⟨offset, maps⟩
  | appended absent offset_eq arena_eq stores =>
    have hkept : ∀ text o, set.table.Maps text o → set'.table.Maps text o := by
      intro text o hmaps
      have hne : text ≠ chars := by
        rintro rfl
        exact absent ⟨o, hmaps⟩
      rw [stores, if_neg hne]
      exact hmaps
    -- what was there starts before the end of the arena, where the new string starts
    have hbefore : ∀ text o, set.table.Maps text o → text ≠ [] → o < offset := by
      intro text o hmaps hne
      have hlength := List.length_pos_iff.mpr hne
      have hin := (h.toValid.slice_of_maps hmaps).1
      omega
    refine ⟨⟨hvalid, fun a b o ha hb hane hbne => ?_⟩, ?_, ?_, hkept, fun text => ?_⟩
    · rw [stores] at ha hb
      split at ha <;> split at hb
      · rename_i ha' hb'
        rw [ha', hb']
      · have := hbefore b o hb hbne
        omega
      · have := hbefore a o ha hane
        omega
      · exact h.distinct a b o ha hb hane hbne
    · rw [stores, if_pos rfl]
    · rw [arena_eq]
      exact List.prefix_append _ _
    · unfold Table.HasKey
      simp only [stores text]
      by_cases heq : text = chars
      · simp [heq]
      · simp [heq]

/-- Bytes that were in the arena are where they were. -/
theorem slice_eq_of_isPrefix {arena arena' : Bytes} {length : ℕ} (h : arena <+: arena')
    (hin : offset + length ≤ arena.length) :
    slice arena' offset length = slice arena offset length := by
  obtain ⟨more, rfl⟩ := h
  exact slice_append hin more

/-! ### Any number of insertions -/

/-- The strings that were inserted are held at the offsets that were returned. -/
theorem internAll_spec (h : set.Distinct) (xs : List Bytes) :
    ∃ offsets set', internAll set xs = some (offsets, set') ∧ set'.Distinct ∧
      set.arena <+: set'.arena ∧ List.Forall₂ (fun x o => set'.table.Maps x o) xs offsets ∧
      (∀ text o, set.table.Maps text o → set'.table.Maps text o) ∧
      ∀ text, set'.table.HasKey text ↔ set.table.HasKey text ∨ text ∈ xs := by
  induction xs generalizing set with
  | nil => exact ⟨[], set, rfl, h, List.prefix_refl _, .nil, fun _ _ => id, fun text => by simp⟩
  | cons chars xs ih =>
    obtain ⟨offset, set₁, hintern, h₁, hmaps, harena, hkept, hkeys⟩ := h.intern chars
    obtain ⟨offsets, set₂, hrest, h₂, harena', hall, hkept', hkeys'⟩ := ih h₁
    refine ⟨offset :: offsets, set₂, by simp [internAll, hintern, hrest], h₂,
      harena.trans harena', .cons (hkept' _ _ hmaps) hall,
      fun text o ho => hkept' _ _ (hkept _ _ ho), fun text => ?_⟩
    rw [hkeys', hkeys, List.mem_cons]
    tauto

theorem internAll_append {offsets : List ℕ} (h : internAll set xs = some (offsets, set'))
    (rest : List Bytes) :
    internAll set (xs ++ rest) =
      (internAll set' rest).map fun result => (offsets ++ result.1, result.2) := by
  induction xs generalizing set offsets with
  | nil =>
    simp only [internAll, Option.some.injEq, Prod.mk.injEq] at h
    rw [← h.1, ← h.2]
    cases hrest : internAll set rest <;> simp [hrest]
  | cons chars xs ih =>
    simp only [List.cons_append, internAll, Option.bind_eq_bind] at h ⊢
    cases hintern : stringSetIntern set chars with
    | none => simp [hintern] at h
    | some result =>
      obtain ⟨offset, set₁⟩ := result
      simp only [hintern, Option.bind_some] at h ⊢
      cases hxs : internAll set₁ xs with
      | none => simp [hxs] at h
      | some tail =>
        obtain ⟨tailOffsets, set₂⟩ := tail
        simp only [hxs, Option.bind_some, Option.pure_def, Option.some.injEq, Prod.mk.injEq] at h
        obtain ⟨rfl, rfl⟩ := h
        rw [ih hxs]
        cases internAll set₂ rest <;> rfl

/-! ### The names of the type checker -/

structure InternedName where
  offset : ℕ
  length : ℕ
  deriving DecidableEq, Repr

/-- The name of a token with the given text. -/
def internTokenName (set : StringSet) (text : Bytes) : Option (InternedName × StringSet) :=
  if text.length = 0 then some (⟨0, 0⟩, set)
  else do
    let (offset, set) ← stringSetIntern set text
    return (⟨offset, text.length⟩, set)

/-- The text of a name. -/
def internedNameChars (set : StringSet) (name : InternedName) : Bytes :=
  slice set.arena name.offset name.length

def internedNamesEqual (a b : InternedName) : Bool := a.offset == b.offset

/-- The names of tokens, one after the other. -/
def internNames (set : StringSet) : List Bytes → Option (List InternedName × StringSet)
  | [] => some ([], set)
  | text :: rest => do
    let (name, set) ← internTokenName set text
    let (names, set) ← internNames set rest
    return (name :: names, set)

/-- A name stands for its text: it is held at the name's offset unless it is empty. -/
def NameOf (set : StringSet) (text : Bytes) (name : InternedName) : Prop :=
  name.length = text.length ∧ (text ≠ [] → set.table.Maps text name.offset)

theorem NameOf.chars_eq {name : InternedName} (h : NameOf set text name) (hvalid : set.Valid) :
    internedNameChars set name = text := by
  unfold internedNameChars
  rw [h.1]
  by_cases hempty : text = []
  · subst hempty
    simp [slice]
  · exact (hvalid.slice_of_maps (h.2 hempty)).2

theorem internNames_spec (h : set.Distinct) (xs : List Bytes) :
    ∃ names set', internNames set xs = some (names, set') ∧ set'.Distinct ∧
      List.Forall₂ (NameOf set') xs names ∧
      ∀ text o, set.table.Maps text o → set'.table.Maps text o := by
  induction xs generalizing set with
  | nil => exact ⟨[], set, rfl, h, .nil, fun _ _ => id⟩
  | cons text xs ih =>
    by_cases hempty : text.length = 0
    · obtain ⟨names, set₁, hrest, h₁, hall, hkept⟩ := ih h
      have hnil : text = [] := List.length_eq_zero_iff.mp hempty
      refine ⟨⟨0, 0⟩ :: names, set₁, by simp [internNames, internTokenName, hempty, hrest], h₁,
        .cons ⟨hempty.symm, fun hne => absurd hnil hne⟩ hall, hkept⟩
    · obtain ⟨offset, set₁, hintern, h₁, hmaps, -, hkept, -⟩ := h.intern text
      obtain ⟨names, set₂, hrest, h₂, hall, hkept'⟩ := ih h₁
      refine ⟨⟨offset, text.length⟩ :: names, set₂,
        by simp [internNames, internTokenName, hempty, hintern, hrest], h₂,
        .cons ⟨rfl, fun _ => hkept' _ _ hmaps⟩ hall, fun text o ho => hkept' _ _ (hkept _ _ ho)⟩

/-! ### Offsets stand for texts -/

theorem StringSet.Distinct.offsets_eq_iff (h : set.Distinct) {x y : Bytes} {o p : ℕ}
    (hx : set.table.Maps x o) (hy : set.table.Maps y p) (hxne : x ≠ []) (hyne : y ≠ []) :
    o = p ↔ x = y := by
  constructor
  · rintro rfl
    exact h.distinct x y o hx hy hxne hyne
  · rintro rfl
    exact h.index.maps_functional hx hy

/-- Strings inserted one after the other into an empty set: every search ends, membership is exact,
nonempty strings have the same offset exactly when they are equal, and each string is at its offset
then and after any further insertions. The names of the type checker are the same text exactly when
their offsets are equal. -/
theorem interning_exact (xs rest : List Bytes) :
    (∃ offsets set more set', internAll {} xs = some (offsets, set) ∧
      internAll {} (xs ++ rest) = some (offsets ++ more, set') ∧ offsets.length = xs.length ∧
      (∀ chars, stringSetContains set chars = some (decide (chars ∈ xs))) ∧
      (∀ (i j : ℕ) (x y : Bytes) (o p : ℕ), xs[i]? = some x → xs[j]? = some y → offsets[i]? = some o →
        offsets[j]? = some p → x ≠ [] → y ≠ [] → (o = p ↔ x = y)) ∧
      ∀ (i : ℕ) (x : Bytes) (o : ℕ), xs[i]? = some x → offsets[i]? = some o →
        slice set.arena o x.length = x ∧ slice set'.arena o x.length = x) ∧
    ∃ names set, internNames {} xs = some (names, set) ∧ names.length = xs.length ∧
      (∀ (i : ℕ) (x : Bytes) a, xs[i]? = some x → names[i]? = some a → internedNameChars set a = x) ∧
      ∀ (i j : ℕ) (x y : Bytes) a b, xs[i]? = some x → xs[j]? = some y → names[i]? = some a →
        names[j]? = some b → x ≠ [] → y ≠ [] → (internedNamesEqual a b = true ↔ x = y) := by
  have hnone : ∀ text, ¬ ({} : StringSet).table.HasKey text := by
    rintro text ⟨o, p, hp, -⟩
    exact Nat.not_lt_zero p hp
  constructor
  · obtain ⟨offsets, set, hrun, h, -, hall, -, hkeys⟩ := internAll_spec distinct_empty xs
    obtain ⟨more, set', hrest, h', harena, -, -, -⟩ := internAll_spec h rest
    have hmaps : ∀ (i : ℕ) (x : Bytes) (o : ℕ), xs[i]? = some x → offsets[i]? = some o →
        set.table.Maps x o := by
      intro i x o hx ho
      obtain ⟨hi, rfl⟩ := List.getElem?_eq_some_iff.mp hx
      obtain ⟨hi', rfl⟩ := List.getElem?_eq_some_iff.mp ho
      exact hall.get hi hi'
    refine ⟨offsets, set, more, set', hrun, ?_, hall.length_eq.symm, fun chars => ?_,
      fun i j x y o p hx hy ho hp hxne hyne => ?_, fun i x o hx ho => ?_⟩
    · rw [internAll_append hrun, hrest]
      rfl
    · obtain ⟨found, hfound, hiff⟩ := stringSetContains_spec h.toValid chars
      rw [hfound]
      congr 1
      rw [Bool.eq_iff_iff, hiff, hkeys, decide_eq_true_iff]
      simp [hnone]
    · exact h.offsets_eq_iff (hmaps i x o hx ho) (hmaps j y p hy hp) hxne hyne
    · obtain ⟨hin, hslice⟩ := h.toValid.slice_of_maps (hmaps i x o hx ho)
      exact ⟨hslice, by rw [slice_eq_of_isPrefix harena hin, hslice]⟩
  · obtain ⟨names, set, hrun, h, hall, -⟩ := internNames_spec distinct_empty xs
    have hname : ∀ (i : ℕ) (x : Bytes) a, xs[i]? = some x → names[i]? = some a → NameOf set x a := by
      intro i x a hx ha
      obtain ⟨hi, rfl⟩ := List.getElem?_eq_some_iff.mp hx
      obtain ⟨hi', rfl⟩ := List.getElem?_eq_some_iff.mp ha
      exact hall.get hi hi'
    refine ⟨names, set, hrun, hall.length_eq.symm, fun i x a hx ha => ?_,
      fun i j x y a b hx hy ha hb hxne hyne => ?_⟩
    · exact (hname i x a hx ha).chars_eq h.toValid
    · unfold internedNamesEqual
      rw [beq_iff_eq]
      exact h.offsets_eq_iff ((hname i x a hx ha).2 hxne) ((hname j y b hy hb).2 hyne) hxne hyne

/-! ### The set without its index -/

/-- A set of strings as a compiled unit keeps it, whose lookup finds what the index finds. -/
structure Represents (set : StringSet) (plain : KirbyLang.StringSet) : Prop where
  distinct : set.Distinct
  arena_eq : plain.arena = set.arena
  in_arena : ∀ entry ∈ plain.entries, entry.1 + entry.2 ≤ plain.arena.length
  maps_iff : ∀ text offset, set.table.Maps text offset ↔
    plain.find? text = some (offset, text.length)

variable {plain : KirbyLang.StringSet}

/-- A plain set that has got one more string finds that one too. -/
theorem find?_appended (hin : ∀ entry ∈ plain.entries, entry.1 + entry.2 ≤ plain.arena.length)
    (habsent : plain.find? chars = none) (text : Bytes) :
    KirbyLang.StringSet.find?
        { arena := plain.arena ++ chars
          entries := plain.entries ++ [(plain.arena.length, chars.length)] } text =
      if text = chars then some (plain.arena.length, chars.length) else plain.find? text := by
  have hold : (plain.entries.find? fun entry => entry.2 == text.length &&
      slice (plain.arena ++ chars) entry.1 entry.2 == text) = plain.find? text := by
    unfold KirbyLang.StringSet.find?
    apply List.find?_congr
    intro entry hentry
    rw [slice_append (hin entry hentry)]
    rfl
  have hnew : slice (plain.arena ++ chars) plain.arena.length chars.length = chars :=
    slice_appended plain.arena chars
  show ((plain.entries ++ [(plain.arena.length, chars.length)]).find? fun entry =>
    entry.2 == text.length && slice (plain.arena ++ chars) entry.1 entry.2 == text) = _
  rw [List.find?_append, hold]
  by_cases heq : text = chars
  · subst heq
    simp [habsent, hnew]
  · have hother : (chars == text) = false := by simpa using Ne.symm heq
    simp [heq, hnew, hother]

/-- The plain set, which looks through all its strings, inserts as the set with the index does. -/
theorem Represents.stringSetIntern (h : Represents set plain) (chars : Bytes) :
    ∃ set', stringSetIntern set chars =
        some ((KirbyLang.stringSetIntern plain chars).1, set') ∧
      Represents set' (KirbyLang.stringSetIntern plain chars).2 := by
  obtain ⟨offset, set', hintern, hvalid, hcase⟩ := stringSetIntern_spec h.distinct.toValid chars
  obtain ⟨_, _, hintern', hdistinct, -⟩ := h.distinct.intern chars
  obtain ⟨rfl, rfl⟩ : _ = offset ∧ _ = set' := by simpa [hintern] using hintern'.symm
  unfold KirbyLang.stringSetIntern
  cases hfind : plain.find? chars with
  | some entry =>
    have hlength : entry = (entry.1, chars.length) := by
      have hmatch := List.find?_some hfind
      simp only [Bool.and_eq_true, beq_iff_eq] at hmatch
      rw [← hmatch.1]
    have hmaps : set.table.Maps chars entry.1 := (h.maps_iff _ _).mpr (by rw [hfind, ← hlength])
    cases hcase with
    | found maps arena_eq same =>
      have hoffset := h.distinct.index.maps_functional maps hmaps
      exact ⟨_, by rw [hintern, hoffset], hdistinct, h.arena_eq.trans arena_eq.symm, h.in_arena,
        fun text o => (same text o).trans (h.maps_iff text o)⟩
    | appended absent => exact absurd ⟨entry.1, hmaps⟩ absent
  | none =>
    cases hcase with
    | found maps =>
      have hsome := (h.maps_iff _ _).mp maps
      rw [hfind] at hsome
      cases hsome
    | appended absent offset_eq arena_eq stores =>
      refine ⟨_, by rw [hintern, offset_eq, h.arena_eq], hdistinct, ?_, ?_, fun text o => ?_⟩
      · rw [arena_eq, ← h.arena_eq]
      · intro entry hentry
        rw [List.mem_append, List.mem_singleton] at hentry
        rw [List.length_append]
        rcases hentry with hentry | rfl
        · exact Nat.le_trans (h.in_arena entry hentry) (Nat.le_add_right _ _)
        · exact Nat.le_refl _
      · rw [stores, find?_appended h.in_arena hfind, offset_eq, h.arena_eq]
        by_cases heq : text = chars
        · simp [heq, eq_comm]
        · simp [heq, h.maps_iff]

end KirbyLang.Indexed
