import KirbyLang.Loader
import KirbyLang.UnitRoundTrip

/-!
# Decoding is safe

On arbitrary bytes the decoder reads only what is there and allocates no table the rest of the
input could not fill (`Reader.Inside`, an invariant of every reader). What it accepts is
well formed, so the loader stays inside the arena and the function table.
-/

namespace KirbyLang

/-! ### Reading and allocating inside the data -/

/-- The reader reads `data` and has stayed inside it: each range it took and each table it
allocated fits. -/
structure Reader.Inside (data : Bytes) (reader : Reader) : Prop where
  same : reader.data = data
  position : reader.position ≤ data.length
  taken : ∀ range ∈ reader.taken, range.1 + range.2 ≤ data.length
  allocated : ∀ table ∈ reader.allocated,
    table.countedAt + table.count * table.bytesEach ≤ data.length

/-- `f` keeps the reader inside its data. -/
def KeepsInside {α : Type} (f : ReadM α) : Prop :=
  ∀ data reader, reader.Inside data → ((f.run reader).2).Inside data

theorem KeepsInside.pure {α : Type} (a : α) : KeepsInside (Pure.pure a) := fun _ _ h => h

theorem KeepsInside.bind {α β : Type} {f : ReadM α} {g : α → ReadM β} (hf : KeepsInside f)
    (hg : ∀ a, KeepsInside (g a)) : KeepsInside (f >>= g) :=
  fun data reader h => hg _ data _ (hf data reader h)

theorem KeepsInside.get_bind {α : Type} {g : Reader → ReadM α} (hg : ∀ s, KeepsInside (g s)) :
    KeepsInside (get >>= g) :=
  fun data reader h => hg reader data reader h

theorem KeepsInside.map {α β : Type} {f : ReadM α} (hf : KeepsInside f) (g : α → β) :
    KeepsInside (do return g (← f)) :=
  hf.bind fun _ => KeepsInside.pure _

theorem KeepsInside.ite {α : Type} {c : Prop} [Decidable c] {f g : ReadM α} (hf : KeepsInside f)
    (hg : KeepsInside g) : KeepsInside (if c then f else g) := by
  split
  · exact hf
  · exact hg

theorem KeepsInside.readEach {α : Type} (failed : Reader → Bool) {item : ReadM α}
    (hitem : KeepsInside item) (count : ℕ) : KeepsInside (Cursor.readEach failed item count) :=
  fun data reader h => Cursor.readEach_invariant (hitem data) count reader h

theorem Reader.Inside.withStatus {data : Bytes} {reader : Reader} (h : reader.Inside data)
    (status : UnitDecodeStatus) : Reader.Inside data { reader with status } :=
  ⟨h.same, h.position, h.taken, h.allocated⟩

theorem fail_inside (status : UnitDecodeStatus) : KeepsInside (fail status) := by
  intro data reader h
  change Reader.Inside data (if reader.status = .ok then { reader with status } else reader)
  split
  · exact h.withStatus status
  · exact h

theorem failIf_inside (status : UnitDecodeStatus) (bad : Bool) :
    KeepsInside (failIf status bad) := by
  cases bad with
  | true => exact fail_inside status
  | false => exact KeepsInside.pure ()

/-- A `take` that succeeds found nothing wrong before and advances by what it took. -/
theorem take_run_some {count : ℕ} {reader : Reader} {found : Bytes}
    (h : ((take count).run reader).1 = some found) :
    reader.status = .ok ∧ count ≤ reader.data.length - reader.position ∧ found.length = count ∧
      (take count).run reader = (some found, { reader with
        position := reader.position + count
        taken := reader.taken ++ [(reader.position, count)] }) := by
  have hrun : (take count).run reader = if reader.status ≠ .ok then (none, reader)
      else if count > reader.data.length - reader.position then
        (none, { reader with status := .truncated })
      else (some ((reader.data.drop reader.position).take count), { reader with
        position := reader.position + count
        taken := reader.taken ++ [(reader.position, count)] }) := rfl
  rw [hrun] at h ⊢
  split at h
  · cases h
  rename_i hok
  split at h
  · cases h
  rename_i hfit
  obtain rfl := Option.some.inj h
  rw [if_neg hok, if_neg hfit]
  refine ⟨not_not.mp hok, by omega, ?_, rfl⟩
  rw [List.length_take, List.length_drop]
  omega

theorem take_inside (count : ℕ) : KeepsInside (take count) := by
  intro data reader h
  change Reader.Inside data (if reader.status ≠ .ok then (none, reader)
    else if count > reader.data.length - reader.position then
      (none, { reader with status := .truncated })
    else (some _, { reader with
      position := reader.position + count
      taken := reader.taken ++ [(reader.position, count)] }) : Option Bytes × Reader).2
  split
  · exact h
  split
  · exact h.withStatus _
  rename_i hfit
  have hin := h.position
  rw [h.same] at hfit
  have hend : reader.position + count ≤ data.length := by omega
  refine ⟨h.same, hend, ?_, h.allocated⟩
  intro range hrange
  rcases List.mem_append.mp hrange with hold | hnew
  · exact h.taken range hold
  · obtain rfl := List.mem_singleton.mp hnew
    exact hend

theorem readU8_inside : KeepsInside readU8 := (take_inside 1).map _

theorem readU16_inside : KeepsInside readU16 := (take_inside 2).map _

theorem readU32_inside : KeepsInside readU32 := (take_inside 4).map _

theorem readI32_inside : KeepsInside readI32 := readU32_inside.map _

theorem readSized_inside (size : ℕ) : KeepsInside (readSized size) := (take_inside size).map _

theorem readDouble_inside : KeepsInside readDouble := readSized_inside 8

theorem countFits_inside (count bytesEach : ℕ) : KeepsInside (countFits count bytesEach) :=
  KeepsInside.get_bind fun _ => KeepsInside.ite (KeepsInside.pure _) <|
    KeepsInside.ite ((fail_inside _).bind fun _ => KeepsInside.pure _) <|
    KeepsInside.ite ((fail_inside _).bind fun _ => KeepsInside.pure _) (KeepsInside.pure _)

/-- A positive answer of `countFits` leaves the reader alone and bounds the table. -/
theorem countFits_run_true {count bytesEach : ℕ} {reader : Reader}
    (h : ((countFits count bytesEach).run reader).1 = true) :
    (countFits count bytesEach).run reader = (true, reader) ∧
      count * bytesEach ≤ reader.data.length - reader.position := by
  by_cases hok : reader.status = .ok
  · rw [countFits_run hok] at h ⊢
    split at h
    · cases h
    rename_i hmax
    split at h
    · cases h
    rename_i hfit
    rw [if_neg hmax, if_neg hfit]
    refine ⟨rfl, ?_⟩
    calc count * bytesEach
        ≤ (reader.data.length - reader.position) / bytesEach * bytesEach :=
          Nat.mul_le_mul_right _ (not_lt.mp hfit)
      _ ≤ reader.data.length - reader.position := Nat.div_mul_le_self _ _
  · have hrun : (countFits count bytesEach).run reader = (false, reader) := by
      change (if reader.status ≠ .ok then _ else _ : ReadM Bool).run reader = _
      rw [if_pos hok]
      rfl
    rw [hrun] at h
    cases h

theorem allocateArray_inside {data : Bytes} {reader : Reader} (h : reader.Inside data)
    {count bytesEach countedAt : ℕ}
    (hfit : count = 0 ∨ countedAt + count * bytesEach ≤ data.length) :
    (((allocateArray count bytesEach countedAt).run reader).2).Inside data := by
  change Reader.Inside data (if count = 0 then reader else { reader with
    allocated := reader.allocated ++ [⟨count, bytesEach, countedAt⟩] })
  split
  · exact h
  rename_i hcount
  refine ⟨h.same, h.position, h.taken, ?_⟩
  intro table htable
  rcases List.mem_append.mp htable with hold | hnew
  · exact h.allocated table hold
  · obtain rfl := List.mem_singleton.mp hnew
    exact hfit.resolve_left hcount

/-- A table whose count was read just before `countedAt`, while the reader is still there. -/
theorem readCounted_inside {α : Type} {data : Bytes} {reader : Reader} (h : reader.Inside data)
    {count bytesEach : ℕ} {items : ReadM (List α)}
    (hitems : ∀ s, s.Inside data → ((items.run s).2).Inside data) :
    (((readCounted count bytesEach reader.position items).run reader).2).Inside data := by
  unfold readCounted
  rw [Cursor.run_bind]
  by_cases hfit : ((countFits count bytesEach).run reader).1 = true
  · obtain ⟨hrun, hbound⟩ := countFits_run_true hfit
    rw [hrun]
    rw [h.same] at hbound
    have hin := h.position
    exact hitems _ (allocateArray_inside h (Or.inr (by omega)))
  · rw [Bool.not_eq_true] at hfit
    rw [hfit]
    exact countFits_inside count bytesEach data reader h

theorem readTable_inside {α : Type} (bytesEach : ℕ) {items : ℕ → ReadM (List α)}
    (hitems : ∀ count, KeepsInside (items count)) : KeepsInside (readTable bytesEach items) := by
  refine readU32_inside.bind fun count => ?_
  intro data reader h
  exact readCounted_inside h (hitems count data)

theorem readNumber_inside : KeepsInside readNumber := by
  refine readU8_inside.bind fun numberKind => ?_
  cases NumberKind.ofByte? numberKind with
  | none => exact (fail_inside _).bind fun _ => KeepsInside.pure _
  | some k => exact KeepsInside.ite (readDouble_inside.map _) ((readSized_inside _).map _)

theorem readConstant_inside (arenaLen functionCount : ℕ) :
    KeepsInside (readConstant arenaLen functionCount) := by
  refine readU8_inside.bind fun kind => ?_
  refine KeepsInside.ite readNumber_inside <| KeepsInside.ite ?_ <|
    KeepsInside.ite (KeepsInside.pure _) <| KeepsInside.ite ?_ <| KeepsInside.ite ?_ ?_
  · exact readU8_inside.bind fun _ => (failIf_inside _ _).bind fun _ => KeepsInside.pure _
  · exact readI32_inside.bind fun _ => readI32_inside.bind fun _ =>
      (failIf_inside _ _).bind fun _ => KeepsInside.pure _
  · exact readI32_inside.bind fun _ => (failIf_inside _ _).bind fun _ => KeepsInside.pure _
  · exact (fail_inside _).bind fun _ => KeepsInside.pure _

theorem readUpvalue_inside : KeepsInside readUpvalue :=
  readU8_inside.bind fun _ => (failIf_inside _ _).bind fun _ => KeepsInside.get_bind fun _ =>
    KeepsInside.ite (KeepsInside.pure _) (readU8_inside.map _)

theorem readFunctionHeader_inside (arenaLen : ℕ) : KeepsInside (readFunctionHeader arenaLen) :=
  readI32_inside.bind fun _ => readI32_inside.bind fun _ => readU8_inside.bind fun _ =>
    readI32_inside.bind fun _ => readI32_inside.bind fun _ => (failIf_inside _ _).bind fun _ =>
    KeepsInside.pure _

theorem readCode_inside : KeepsInside readCode :=
  readTable_inside _ fun count => (take_inside count).bind fun _ =>
    (KeepsInside.readEach _ readI32_inside count).map _

theorem readFunction_inside (arenaLen functionCount : ℕ) :
    KeepsInside (readFunction arenaLen functionCount) := by
  refine (readFunctionHeader_inside arenaLen).bind fun fn => KeepsInside.get_bind fun _ => ?_
  refine KeepsInside.ite (KeepsInside.pure _) (readCode_inside.bind fun code => ?_)
  refine KeepsInside.get_bind fun _ => KeepsInside.ite (KeepsInside.pure _) ?_
  have hconstants := readTable_inside MIN_CONSTANT_BYTES fun count =>
    KeepsInside.readEach failed (readConstant_inside arenaLen functionCount) count
  refine hconstants.bind fun constants => KeepsInside.get_bind fun _ => ?_
  have hupvalues := readTable_inside UPVALUE_BYTES_EACH fun count =>
    KeepsInside.readEach failed readUpvalue_inside count
  exact KeepsInside.ite (KeepsInside.pure _) (hupvalues.map _)

theorem readPreamble_inside (version : Bytes) : KeepsInside (readPreamble version) :=
  (take_inside _).bind fun _ => (failIf_inside _ _).bind fun _ => readU16_inside.bind fun _ =>
    (failIf_inside _ _).bind fun _ => readU8_inside.bind fun _ => (take_inside _).bind fun _ =>
    failIf_inside _ _

theorem readArena_inside : KeepsInside readArena :=
  readU32_inside.bind fun _ => (failIf_inside _ _).bind fun _ => (take_inside _).map _

theorem readArena_of_not_ok {reader : Reader}
    (h : ((readArena.run reader).2).status ≠ .ok) : (readArena.run reader).1 = [] := by
  unfold readArena at h ⊢
  rw [Cursor.run_bind, Cursor.run_bind, Cursor.run_bind] at h ⊢
  generalize (readU32.run reader).1 = blobLength at h ⊢
  generalize ((failIf .invalid _).run (readU32.run reader).2).2 = s at h ⊢
  cases hblob : ((take blobLength).run s).1 with
  | none => rfl
  | some blob =>
    obtain ⟨hok, -, -, hrun⟩ := take_run_some hblob
    rw [hrun] at h
    exact absurd hok h

/-- The arena that was read is in the data, right after its length. -/
theorem readArena_bound {data : Bytes} {reader : Reader} (h : reader.Inside data) :
    ((readArena.run reader).1).length = 0 ∨
      reader.position + 4 + ((readArena.run reader).1).length ≤ data.length := by
  by_cases hok : ((readArena.run reader).2).status = .ok
  · right
    have hafter := readArena_inside data reader h
    have hcursor : unitCursor.ok (readArena.run reader).2 :=
      ⟨hok, by rw [hafter.same]; exact hafter.position⟩
    obtain ⟨-, bs, hrest, hbs, -⟩ := readArena_consumes reader hcursor
    have hlen := congrArg List.length hrest
    rw [unitCursor_rest, List.length_drop, List.length_append, hbs, List.length_append,
      putU32_length, h.same] at hlen
    omega
  · left
    rw [readArena_of_not_ok hok]
    rfl

theorem readFunctions_inside {data : Bytes} {arena : Bytes} {arenaCountedAt : ℕ}
    (harena : arena.length = 0 ∨ arenaCountedAt + arena.length ≤ data.length) {reader : Reader}
    (h : reader.Inside data) :
    (((readFunctions arena arenaCountedAt).run reader).2).Inside data := by
  unfold readFunctions
  rw [Cursor.run_bind]
  have hcount := readU32_inside data reader h
  generalize (readU32.run reader).1 = functionCount
  generalize (readU32.run reader).2 = s at hcount ⊢
  rw [Cursor.run_get_bind, Cursor.run_bind]
  have hcheck := failIf_inside .invalid (functionCount == 0) data s hcount
  have hposition : ((failIf .invalid (functionCount == 0)).run s).2.position = s.position := by
    cases functionCount == 0 with
    | false => rfl
    | true =>
      change (if s.status = .ok then { s with status := .invalid } else s : Reader).position = _
      split <;> rfl
  rw [← hposition]
  refine readCounted_inside hcheck fun s' hs' => ?_
  have halloc : (((allocateArray arena.length 1 arenaCountedAt).run s').2).Inside data :=
    allocateArray_inside hs' (by rwa [Nat.mul_one])
  exact KeepsInside.readEach failed (readFunction_inside arena.length functionCount)
    functionCount data _ halloc

theorem readUnit_inside (version : Bytes) : KeepsInside (readUnit version) := by
  refine (readPreamble_inside version).bind fun _ => ?_
  intro data reader h
  rw [Cursor.run_get_bind, Cursor.run_bind, Cursor.run_bind]
  have harena := readArena_bound h
  have hread := readArena_inside data reader h
  generalize (readArena.run reader).1 = arena at harena ⊢
  generalize (readArena.run reader).2 = s at hread ⊢
  exact readFunctions_inside harena hread

theorem unitDecodeM_inside (version : Bytes) : KeepsInside (unitDecodeM version) :=
  (readUnit_inside version).bind fun _ => KeepsInside.get_bind fun _ =>
    KeepsInside.ite (KeepsInside.pure _) <|
    KeepsInside.ite ((fail_inside _).bind fun _ => KeepsInside.pure _) (KeepsInside.pure _)

/-- Whatever the bytes are, the decoder reads and allocates inside them. -/
theorem unitDecodeRun_inside (version bytes : Bytes) :
    ((unitDecodeRun version bytes).2).Inside bytes :=
  unitDecodeM_inside version bytes { data := bytes } ⟨rfl, Nat.zero_le _, by simp, by simp⟩

/-! ### Loading what was accepted -/

theorem mapM_ok {α β ε : Type} {f : α → Except ε β} (as : List α)
    (h : ∀ a ∈ as, ∃ b, f a = .ok b) : ∃ bs, as.mapM f = .ok bs ∧ bs.length = as.length := by
  induction as with
  | nil => exact ⟨[], rfl, rfl⟩
  | cons a as ih =>
    obtain ⟨b, hb⟩ := h a List.mem_cons_self
    obtain ⟨bs, hbs, hlen⟩ := ih fun x hx => h x (List.mem_cons_of_mem _ hx)
    refine ⟨b :: bs, ?_, by simp [hlen]⟩
    rw [List.mapM_cons, hb, hbs]
    rfl

theorem copyString_ok {compiledUnit : CompiledUnit} {offset length : ℤ}
    (h : Slice offset length compiledUnit.strings.arena.length) :
    ∃ chars, copyString compiledUnit offset length = .ok chars :=
  ⟨_, if_pos h⟩

theorem functionAt_ok {byIndex : List ℕ} {functionIndex : ℤ}
    (h : 0 ≤ functionIndex ∧ functionIndex < byIndex.length) :
    ∃ address, functionAt byIndex functionIndex = .ok address := by
  have hlt : functionIndex.toNat < byIndex.length := by omega
  refine ⟨byIndex[functionIndex.toNat], ?_⟩
  rw [functionAt, if_neg (by omega), List.getElem?_eq_getElem hlt]

theorem allocateFunction_ok {compiledUnit : CompiledUnit} {fn : CompiledFn} {functionCount : ℕ}
    (h : fn.WellFormed compiledUnit.strings.arena.length functionCount) :
    ∃ allocated, allocateFunction compiledUnit fn = .ok allocated := by
  unfold allocateFunction
  split
  · rename_i hname
    obtain ⟨chars, hchars⟩ := copyString_ok (h.name hname)
    rw [hchars]
    exact ⟨_, rfl⟩
  · exact ⟨_, rfl⟩

theorem resolveConstToValue_ok {compiledUnit : CompiledUnit} {byIndex : List ℕ}
    {constant : CompiledConst}
    (h : constant.WellFormed compiledUnit.strings.arena.length byIndex.length) :
    ∃ value, resolveConstToValue compiledUnit byIndex constant = .ok value := by
  cases constant with
  | number kind payload => exact ⟨_, rfl⟩
  | boolean value => exact ⟨_, rfl⟩
  | nil => exact ⟨_, rfl⟩
  | string offset length =>
    obtain ⟨chars, hchars⟩ := copyString_ok h
    exact ⟨.string chars, by rw [resolveConstToValue, hchars]; rfl⟩
  | function functionIndex =>
    obtain ⟨address, haddress⟩ := functionAt_ok h
    exact ⟨.function address, by rw [resolveConstToValue, haddress]; rfl⟩

theorem loadUnit_ok (functions : List ObjFunction) {compiledUnit : CompiledUnit}
    (h : compiledUnit.WellFormed) : ∃ loaded, loadUnit functions compiledUnit = .ok loaded := by
  obtain ⟨allocated, hallocated, hlen⟩ := mapM_ok (f := allocateFunction compiledUnit)
    compiledUnit.functions fun fn hfn => allocateFunction_ok (h.functions fn hfn)
  have hcount : (List.range' functions.length allocated.length).length =
      compiledUnit.functions.length := by rw [List.length_range', hlen]
  have hresolve : ∀ pair ∈ compiledUnit.functions.zip allocated, ∃ fn,
      resolveConstsInFunction compiledUnit (List.range' functions.length allocated.length)
        pair.1 pair.2 = .ok fn := by
    rintro ⟨compiledFn, fn⟩ hpair
    have hwf := (h.functions compiledFn (List.of_mem_zip hpair).1).constants
    rw [← hcount] at hwf
    obtain ⟨constants, hconstants, -⟩ := mapM_ok compiledFn.constants
      fun constant hconstant => resolveConstToValue_ok (hwf constant hconstant)
    exact ⟨{ fn with constants }, by rw [resolveConstsInFunction, hconstants]; rfl⟩
  obtain ⟨resolved, hresolved, -⟩ := mapM_ok (compiledUnit.functions.zip allocated) hresolve
  obtain ⟨script, hscript⟩ := @functionAt_ok
    (List.range' functions.length allocated.length) 0
    ⟨le_rfl, by rw [hcount]; exact_mod_cast List.length_pos_of_ne_nil h.functions_ne_nil⟩
  refine ⟨(script, functions ++ resolved), ?_⟩
  rw [loadUnit, hallocated]
  change (do
    let resolved ← (compiledUnit.functions.zip allocated).mapM fun pair : CompiledFn × ObjFunction =>
      resolveConstsInFunction compiledUnit (List.range' functions.length allocated.length)
        pair.1 pair.2
    let script ← functionAt (List.range' functions.length allocated.length) 0
    return (script, functions ++ resolved)) = _
  rw [hresolved, hscript]
  rfl

/-- `unitDecode` on any bytes: it reads only positions below the length, each table it allocates
has no more elements than the bytes left after its count can hold, and a unit it returns has a
function, keeps its strings inside the arena and its function indices inside the unit, and loads
without an access outside either. -/
theorem unitDecode_safe (version bytes : Bytes) :
    (∀ range ∈ (unitDecodeRun version bytes).2.taken,
      ∀ i, range.1 ≤ i → i < range.1 + range.2 → i < bytes.length) ∧
    (∀ table ∈ (unitDecodeRun version bytes).2.allocated, table.countedAt ≤ bytes.length ∧
      table.count * table.bytesEach ≤ bytes.length - table.countedAt) ∧
    (∀ unit, unitDecode version bytes = some unit →
      unit.functions ≠ [] ∧
      (∀ fn ∈ unit.functions,
        (0 ≤ fn.nameLength → Slice fn.nameOffset fn.nameLength unit.strings.arena.length) ∧
        (∀ offset length, .string offset length ∈ fn.constants →
          Slice offset length unit.strings.arena.length) ∧
        (∀ functionIndex : ℤ, .function functionIndex ∈ fn.constants →
          0 ≤ functionIndex ∧ functionIndex < unit.functions.length)) ∧
      ∀ functions, ∃ loaded, loadUnit functions unit = .ok loaded) := by
  have hinside := unitDecodeRun_inside version bytes
  refine ⟨?_, ?_, ?_⟩
  · intro range hrange i _ hi
    exact lt_of_lt_of_le hi (hinside.taken range hrange)
  · intro table htable
    have hfit := hinside.allocated table htable
    omega
  · intro unit hunit
    obtain ⟨-, hwf, -, -⟩ := unitDecode_eq_some_iff.mp hunit
    refine ⟨hwf.functions_ne_nil, ?_, fun functions => loadUnit_ok functions hwf⟩
    intro fn hfn
    have hfnwf := hwf.functions fn hfn
    exact ⟨hfnwf.name, fun offset length h => hfnwf.constants _ h,
      fun functionIndex h => hfnwf.constants _ h⟩

end KirbyLang
