import KirbyLang.UnitBytes
import Mathlib.Tactic.Ring
import Mathlib.Tactic.NormNum

/-!
# The byte form is exact

For every reader of the decoder two facts: it reads back what the encoder wrote
(`Cursor.Parses`), and what it reads without a problem is exactly what the encoder writes for its
result (`Cursor.Consumes`). Assembled over a unit they give the round trip of a well-formed unit
and that decoding is canonical.
-/

namespace KirbyLang

/-- A reader as a position in its data. -/
def unitCursor : Cursor Reader UInt8 where
  ok reader := reader.status = .ok ∧ reader.position ≤ reader.data.length
  rest reader := reader.data.drop reader.position

@[simp] theorem unitCursor_ok (reader : Reader) :
    unitCursor.ok reader ↔ reader.status = .ok ∧ reader.position ≤ reader.data.length := Iff.rfl

@[simp] theorem unitCursor_rest (reader : Reader) :
    unitCursor.rest reader = reader.data.drop reader.position := rfl

theorem unitCursor_start (bytes : Bytes) :
    unitCursor.ok { data := bytes } ∧ unitCursor.rest { data := bytes } = bytes :=
  ⟨⟨rfl, Nat.zero_le _⟩, rfl⟩

/-! ### Well-formed units -/

/-- The range of C's `int`. -/
def IsInt (n : ℤ) : Prop := -2 ^ 31 ≤ n ∧ n < 2 ^ 31

/-- A slice of `total` things. -/
def Slice (offset length : ℤ) (total : ℕ) : Prop :=
  0 ≤ offset ∧ 0 ≤ length ∧ offset + length ≤ total

@[simp] theorem rangeInside_eq_true {offset length : ℤ} {total : ℕ} :
    rangeInside offset length total = true ↔ Slice offset length total := by
  simp [rangeInside, Slice, and_assoc]

/-- A constant of a unit with the given arena length and function count. -/
def CompiledConst.WellFormed (arenaLen functionCount : ℕ) : CompiledConst → Prop
  | .number kind payload => kind.Canonical payload
  | .boolean _ => True
  | .nil => True
  | .string offset length => Slice offset length arenaLen
  | .function index => 0 ≤ index ∧ index < functionCount

/-- A function of a unit with the given arena length and function count. -/
structure CompiledFn.WellFormed (arenaLen functionCount : ℕ) (fn : CompiledFn) : Prop where
  arity : 0 ≤ fn.arity ∧ fn.arity ≤ INT_MAX
  upvalueCount : 0 ≤ fn.upvalueCount ∧ fn.upvalueCount ≤ INT_MAX
  nameOffset : IsInt fn.nameOffset
  nameLength : IsInt fn.nameLength
  name : 0 ≤ fn.nameLength → Slice fn.nameOffset fn.nameLength arenaLen
  codeCount : fn.code.length ≤ INT_MAX
  lines : ∀ c ∈ fn.code, IsInt c.line
  constantCount : fn.constants.length ≤ INT_MAX
  constants : ∀ c ∈ fn.constants, c.WellFormed arenaLen functionCount
  upvalueDescCount : fn.upvalues.length ≤ INT_MAX

/-- A unit whose indices, offsets and counts are in range. -/
structure CompiledUnit.WellFormed (unit : CompiledUnit) : Prop where
  functions_ne_nil : unit.functions ≠ []
  arenaLen : unit.strings.arena.length ≤ INT_MAX
  functionCount : unit.functions.length ≤ INT_MAX
  functions : ∀ fn ∈ unit.functions,
    fn.WellFormed unit.strings.arena.length unit.functions.length

/-! ### Numbers -/

theorem putU16_eq (v : ℕ) : putU16 v = LittleEndian.bytes 2 v := LittleEndian.bytes_eq_shift 2 v

theorem putU32_eq (v : ℕ) : putU32 v = LittleEndian.bytes 4 v := LittleEndian.bytes_eq_shift 4 v

theorem putSized_eq (v size : ℕ) : putSized v size = LittleEndian.bytes size v :=
  LittleEndian.bytes_eq_shift size v

theorem orZero_some (bs : Bytes) : orZero (some bs) = LittleEndian.value bs :=
  LittleEndian.value_eq_or bs

theorem toI32_toU32 {n : ℤ} (h : IsInt n) : toI32 (toU32 n) = n := by
  obtain ⟨hlo, hhi⟩ := h
  unfold toI32 toU32
  split <;> omega

theorem toU32_toI32 {n : ℕ} (h : n < 2 ^ 32) : toU32 (toI32 n) = n := by
  unfold toI32 toU32
  split <;> omega

theorem isInt_toI32 {n : ℕ} (h : n < 2 ^ 32) : IsInt (toI32 n) := by
  unfold toI32 IsInt
  split <;> omega

theorem toU32_lt (n : ℤ) : toU32 n < 2 ^ 32 := by
  unfold toU32
  omega

/-! ### Reading bytes -/

theorem take_parses {count : ℕ} {bs : Bytes} (h : bs.length = count) :
    unitCursor.Parses (take count) bs (some bs) := by
  intro s tail hok hrest
  obtain ⟨hok, hin⟩ := hok
  rw [unitCursor_rest] at hrest
  have hlen : s.data.length - s.position = bs.length + tail.length := by
    rw [← List.length_drop, hrest, List.length_append]
  have hfit : ¬ count > s.data.length - s.position := by omega
  simp only [StateT.run, take, hok, ne_eq, not_true_eq_false, if_false, hfit, unitCursor_ok,
    unitCursor_rest, hrest, true_and]
  refine ⟨by rw [← h, List.take_left], by omega, ?_⟩
  rw [← List.drop_drop, hrest, ← h, List.drop_left]

theorem take_consumes (count : ℕ) :
    unitCursor.Consumes (take count) fun found bs => found = some bs ∧ bs.length = count := by
  intro s hok
  simp only [StateT.run, take, unitCursor_ok, unitCursor_rest] at hok ⊢
  by_cases hs : s.status = .ok
  · by_cases hfit : count > s.data.length - s.position
    · simp [hs, hfit] at hok
    · simp only [hs, ne_eq, not_true_eq_false, if_false, hfit, true_and] at hok ⊢
      refine ⟨by omega, (s.data.drop s.position).take count, ?_, rfl, ?_⟩
      · rw [← List.drop_drop, List.take_append_drop]
      · rw [List.length_take, List.length_drop]
        omega
  · simp [hs] at hok

theorem readU8_parses (b : UInt8) : unitCursor.Parses readU8 (putU8 b) b :=
  (take_parses rfl : unitCursor.Parses (take 1) [b] (some [b])).map (·.elim 0 (·.headD 0))

theorem readU8_consumes : unitCursor.Consumes readU8 fun b bs => bs = putU8 b := by
  refine ((take_consumes 1).bind fun found => Cursor.Consumes.pure _).mono ?_
  rintro b bs ⟨found, xs, ys, rfl, ⟨rfl, hlen⟩, rfl, rfl⟩
  obtain ⟨x, rfl⟩ := List.length_eq_one_iff.mp hlen
  rfl

/-- Reading a number of `size` bytes, whatever it is turned into afterwards. -/
theorem take_number_parses {α : Type} {size v : ℕ} (h : v < 256 ^ size) (g : ℕ → α) :
    unitCursor.Parses (do return g (orZero (← take size))) (LittleEndian.bytes size v) (g v) := by
  refine (take_parses (LittleEndian.length_bytes size v)).bind_nil ?_
  have hv : orZero (some (LittleEndian.bytes size v)) = v := by
    rw [orZero_some, LittleEndian.value_bytes_of_lt h]
  rw [hv]
  exact Cursor.Parses.pure _

theorem take_number_consumes {α : Type} (size : ℕ) (g : ℕ → α) :
    unitCursor.Consumes (do return g (orZero (← take size))) fun a bs =>
      ∃ v, v < 256 ^ size ∧ a = g v ∧ bs = LittleEndian.bytes size v := by
  refine ((take_consumes size).bind fun found => Cursor.Consumes.pure _).mono ?_
  rintro a bs ⟨found, xs, ys, rfl, ⟨rfl, hlen⟩, rfl, rfl⟩
  refine ⟨LittleEndian.value xs, hlen ▸ LittleEndian.value_lt xs, by rw [orZero_some], ?_⟩
  rw [← hlen, LittleEndian.bytes_value, List.append_nil]

theorem readU16_parses {v : ℕ} (h : v < 2 ^ 16) : unitCursor.Parses readU16 (putU16 v) v := by
  rw [putU16_eq]
  exact take_number_parses (by simpa using h) id

theorem readU16_consumes :
    unitCursor.Consumes readU16 fun v bs => bs = putU16 v ∧ v < 2 ^ 16 := by
  refine (take_number_consumes 2 id).mono ?_
  rintro v _ ⟨w, hv, (rfl : v = w), rfl⟩
  exact ⟨(putU16_eq v).symm, hv⟩

theorem readU32_parses {v : ℕ} (h : v < 2 ^ 32) : unitCursor.Parses readU32 (putU32 v) v := by
  rw [putU32_eq]
  exact take_number_parses (by simpa using h) id

theorem readU32_consumes :
    unitCursor.Consumes readU32 fun v bs => bs = putU32 v ∧ v < 2 ^ 32 := by
  refine (take_number_consumes 4 id).mono ?_
  rintro v _ ⟨w, hv, (rfl : v = w), rfl⟩
  exact ⟨(putU32_eq v).symm, hv⟩

theorem readI32_parses {n : ℤ} (h : IsInt n) : unitCursor.Parses readI32 (putI32 n) n := by
  have hread : unitCursor.Parses readI32 (putU32 (toU32 n)) (toI32 (toU32 n)) :=
    (readU32_parses (toU32_lt n)).map toI32
  rw [toI32_toU32 h] at hread
  exact hread

theorem readI32_consumes :
    unitCursor.Consumes readI32 fun n bs => bs = putI32 n ∧ IsInt n := by
  refine (readU32_consumes.bind fun v => Cursor.Consumes.pure _).mono ?_
  rintro _ _ ⟨v, xs, ys, rfl, ⟨rfl, hv⟩, rfl, rfl⟩
  rw [List.append_nil, putI32, toU32_toI32 hv]
  exact ⟨rfl, isInt_toI32 hv⟩

theorem readSized_parses {size v : ℕ} (h : v < 256 ^ size) :
    unitCursor.Parses (readSized size) (LittleEndian.bytes size v) (UInt64.ofNat v) :=
  take_number_parses h UInt64.ofNat

theorem readSized_consumes {size : ℕ} (hsize : size ≤ 8) :
    unitCursor.Consumes (readSized size) fun p bs =>
      bs = putSized p.toNat size ∧ p.toNat < 256 ^ size := by
  refine (take_number_consumes size UInt64.ofNat).mono ?_
  rintro _ _ ⟨v, hv, rfl, rfl⟩
  have hv64 : v < 2 ^ 64 := lt_of_lt_of_le hv <| by
    calc 256 ^ size ≤ 256 ^ 8 := Nat.pow_le_pow_right (by omega) hsize
      _ = 2 ^ 64 := by norm_num
  rw [UInt64.toNat_ofNat', Nat.mod_eq_of_lt hv64, putSized_eq]
  exact ⟨rfl, hv⟩

/-! ### Checks -/

theorem failed_of_ok {reader : Reader} (h : unitCursor.ok reader) : failed reader = false := by
  simpa [failed] using h.1

theorem not_ok_of_failed {reader : Reader} (h : failed reader = true) :
    ¬ unitCursor.ok reader := by
  intro hok
  rw [failed_of_ok hok] at h
  cases h

theorem fail_consumes (status : UnitDecodeStatus) (hbad : status ≠ .ok) (R : Unit → Bytes → Prop) :
    unitCursor.Consumes (fail status) R := by
  intro s hok
  obtain ⟨hok, -⟩ := hok
  change (if s.status = .ok then _ else _ : Reader).status = .ok at hok
  split at hok
  · exact absurd hok hbad
  · contradiction

/-- Whatever follows a reported problem, all is no longer well. -/
theorem fail_bind_consumes {α : Type} (a : α) (R : α → Bytes → Prop) :
    unitCursor.Consumes (do fail .invalid; return a) R :=
  ((fail_consumes .invalid (by decide) fun _ _ => False).bind
    fun _ => Cursor.Consumes.pure a).mono fun _ _ ⟨_, _, _, _, h, _⟩ => h.elim

theorem failIf_parses (status : UnitDecodeStatus) :
    unitCursor.Parses (failIf status false) [] () :=
  Cursor.Parses.pure ()

theorem failIf_consumes {status : UnitDecodeStatus} (hbad : status ≠ .ok) (bad : Bool) :
    unitCursor.Consumes (failIf status bad) fun _ bs => bs = [] ∧ bad = false := by
  cases bad with
  | true => exact fail_consumes status hbad _
  | false => exact (Cursor.Consumes.pure ()).mono fun _ _ h => ⟨h.2, rfl⟩

theorem failIf_invalid_consumes (bad : Bool) :
    unitCursor.Consumes (failIf .invalid bad) fun _ bs => bs = [] ∧ bad = false :=
  failIf_consumes (by decide) bad

theorem fail_run_of_ok {s : Reader} (h : s.status = .ok) (status : UnitDecodeStatus) :
    (fail status).run s = ((), { s with status }) := by
  change ((), if s.status = .ok then _ else _) = _
  rw [if_pos h]

theorem countFits_run {s : Reader} (hok : s.status = .ok) (count bytesEach : ℕ) :
    (countFits count bytesEach).run s =
      if count > INT_MAX then (false, { s with status := .invalid })
      else if count > (s.data.length - s.position) / bytesEach then
        (false, { s with status := .truncated })
      else (true, s) := by
  change (if s.status ≠ .ok then _ else if count > INT_MAX then _ else
    if count > (s.data.length - s.position) / bytesEach then _ else _ : ReadM Bool).run s = _
  rw [if_neg (not_not.mpr hok)]
  split
  · change (false, ((fail .invalid).run s).2) = _
    rw [fail_run_of_ok hok]
  split
  · change (false, ((fail .truncated).run s).2) = _
    rw [fail_run_of_ok hok]
  · rfl

theorem countFits_peek {count bytesEach : ℕ} {bs : Bytes} (hcount : count ≤ INT_MAX)
    (hpos : 0 < bytesEach) (hbs : count * bytesEach ≤ bs.length) (s : Reader) (tail : Bytes)
    (hok : unitCursor.ok s) (hrest : unitCursor.rest s = bs ++ tail) :
    (countFits count bytesEach).run s = (true, s) := by
  have hlen : s.data.length - s.position = bs.length + tail.length := by
    rw [← List.length_drop]
    exact (congrArg List.length hrest).trans List.length_append
  have hfit : ¬ count > (s.data.length - s.position) / bytesEach := by
    rw [not_lt, Nat.le_div_iff_mul_le hpos]
    omega
  rw [countFits_run hok.1, if_neg (by omega), if_neg hfit]

theorem countFits_consumes (count bytesEach : ℕ) :
    unitCursor.Consumes (countFits count bytesEach) fun fits bs =>
      bs = [] ∧ fits = true ∧ count ≤ INT_MAX := by
  intro s hok
  by_cases hs : s.status = .ok
  · rw [countFits_run hs] at hok ⊢
    split at hok
    · cases hok.1
    rename_i hmax
    split at hok
    · cases hok.1
    rename_i hfit
    rw [if_neg hmax, if_neg hfit]
    exact ⟨hok, [], rfl, rfl, rfl, by omega⟩
  · have hrun : (countFits count bytesEach).run s = (false, s) := by
      change (if s.status ≠ .ok then _ else _ : ReadM Bool).run s = _
      rw [if_pos hs]
      rfl
    rw [hrun] at hok
    exact absurd hok.1 hs

theorem allocateArray_parses (count bytesEach countedAt : ℕ) :
    unitCursor.Parses (allocateArray count bytesEach countedAt) [] () := by
  intro s tail hok hrest
  change () = () ∧ unitCursor.ok (if count = 0 then s else _) ∧
    unitCursor.rest (if count = 0 then s else _) = tail
  split <;> exact ⟨rfl, hok, hrest⟩

theorem allocateArray_consumes (count bytesEach countedAt : ℕ) :
    unitCursor.Consumes (allocateArray count bytesEach countedAt) fun _ bs => bs = [] := by
  intro s hok
  change unitCursor.ok (if count = 0 then s else _) at hok
  change unitCursor.ok s ∧ ∃ bs, unitCursor.rest s =
    bs ++ unitCursor.rest (if count = 0 then s else _) ∧ bs = []
  split at hok <;> rename_i h
  · exact ⟨hok, [], by rw [if_pos h]; rfl, rfl⟩
  · exact ⟨hok, [], by rw [if_neg h]; rfl, rfl⟩

theorem readCounted_parses {α : Type} {count bytesEach countedAt : ℕ} {items : ReadM (List α)}
    {as : List α} {bs : Bytes} (hcount : count ≤ INT_MAX) (hpos : 0 < bytesEach)
    (hbs : count * bytesEach ≤ bs.length) (hitems : unitCursor.Parses items bs as) :
    unitCursor.Parses (readCounted count bytesEach countedAt items) bs as :=
  Cursor.Parses.peek (countFits_peek hcount hpos hbs) <|
    (allocateArray_parses _ _ _).nil_bind hitems

theorem readCounted_consumes {α : Type} {count bytesEach countedAt : ℕ} {items : ReadM (List α)}
    {R : List α → Bytes → Prop} (hitems : unitCursor.Consumes items R) :
    unitCursor.Consumes (readCounted count bytesEach countedAt items) fun as bs =>
      count ≤ INT_MAX ∧ R as bs := by
  refine ((countFits_consumes count bytesEach).bind
    (S := fun fits as bs => fits = true → R as bs) fun fits => ?_).mono ?_
  · cases fits with
    | false => exact (Cursor.Consumes.pure []).mono fun _ _ _ h => absurd h Bool.false_ne_true
    | true =>
      refine ((allocateArray_consumes _ _ _).bind fun _ => hitems).mono ?_
      rintro as bs ⟨_, xs, ys, rfl, rfl, hR⟩ -
      exact hR
  · rintro as bs ⟨fits, xs, ys, rfl, ⟨rfl, rfl, hmax⟩, hR⟩
    exact ⟨hmax, hR rfl⟩

theorem readTable_parses {α : Type} {bytesEach : ℕ} {items : ℕ → ReadM (List α)} {as : List α}
    {bs : Bytes} (hcount : as.length ≤ INT_MAX) (hpos : 0 < bytesEach)
    (hbs : as.length * bytesEach ≤ bs.length)
    (hitems : unitCursor.Parses (items as.length) bs as) :
    unitCursor.Parses (readTable bytesEach items) (putU32 as.length ++ bs) as := by
  have hlt : as.length < 2 ^ 32 := by
    unfold INT_MAX at hcount
    omega
  refine (readU32_parses hlt).bind (Cursor.Parses.get_bind fun s _ => ?_)
  exact readCounted_parses hcount hpos hbs hitems

theorem readTable_consumes {α : Type} {bytesEach : ℕ} {items : ℕ → ReadM (List α)}
    {R : ℕ → List α → Bytes → Prop}
    (hitems : ∀ count, unitCursor.Consumes (items count) (R count)) :
    unitCursor.Consumes (readTable bytesEach items) fun as bs =>
      ∃ count ys, bs = putU32 count ++ ys ∧ count ≤ INT_MAX ∧ R count as ys := by
  unfold readTable
  refine (readU32_consumes.bind (S := fun count as bs => count ≤ INT_MAX ∧ R count as bs)
    fun count => ?_).mono ?_
  · exact Cursor.Consumes.get_bind fun s => readCounted_consumes (hitems count)
  · rintro as bs ⟨count, xs, ys, rfl, ⟨rfl, -⟩, hmax, hR⟩
    exact ⟨count, ys, rfl, hmax, hR⟩

/-! ### Constants, upvalues, functions -/

theorem putU32_length (v : ℕ) : (putU32 v).length = 4 := by
  rw [putU32_eq, LittleEndian.length_bytes]

theorem putI32_length (n : ℤ) : (putI32 n).length = 4 := putU32_length _

theorem readDouble_parses (p : NumberPayload) :
    unitCursor.Parses readDouble (putDouble p) p := by
  have hread := readSized_parses (show p.toNat < 256 ^ 8 from p.toNat_lt)
  rw [UInt64.ofNat_toNat] at hread
  rw [putDouble, putSized_eq]
  exact hread

/-- The low bytes of a canonical integer, widened, are that integer. -/
theorem readInteger_parses {kind : NumberKind} {p : NumberPayload}
    (hint : kind.info.isFloat = false) (h : kind.Canonical p) :
    unitCursor.Parses (do return CompiledConst.number kind (kind.widen
      (← readSized kind.info.size))) (putSized p.u64 kind.info.size) (.number kind p) := by
  have hlow : p.toNat % 256 ^ kind.info.size < 256 ^ kind.info.size := Nat.mod_lt _ (by positivity)
  have hread := (readSized_parses hlow).map fun raw => CompiledConst.number kind (kind.widen raw)
  rw [NumberKind.widen_low hint h, LittleEndian.bytes_mod] at hread
  rw [putSized_eq]
  exact hread

/-- The byte written for a bool passes the check for one and is read back. -/
theorem boolByte (b : Bool) : decide ((if b then 1 else 0 : UInt8) > 1) = false ∧
    ((if b then 1 else 0 : UInt8) == 1) = b := by
  cases b <;> decide

theorem readConstant_parses {arenaLen functionCount : ℕ} {c : CompiledConst}
    (h : c.WellFormed arenaLen functionCount) (hint : arenaLen ≤ INT_MAX)
    (hcount : functionCount ≤ INT_MAX) :
    unitCursor.Parses (readConstant arenaLen functionCount) (encodeConstant c) c := by
  refine (readU8_parses c.kindByte).bind ?_
  unfold INT_MAX at hint hcount
  cases c with
  | number kind payload =>
    refine (readU8_parses kind.toByte).bind ?_
    rw [NumberKind.ofByte?_toByte]
    change unitCursor.Parses (if kind.info.isFloat = true then _ else _) _ _
    split
    · exact (readDouble_parses payload).map _
    · rename_i hfloat
      exact readInteger_parses (by simpa using hfloat) h
  | boolean value =>
    refine (readU8_parses _).bind_nil ?_
    rw [(boolByte value).1, (boolByte value).2]
    exact (failIf_parses _).bind_nil (Cursor.Parses.pure _)
  | nil => exact Cursor.Parses.pure _
  | string offset length =>
    obtain ⟨hoff, hlen, hsum⟩ := h
    have hgood : (!rangeInside offset length arenaLen) = false := by
      simp [rangeInside, hoff, hlen, hsum]
    refine (readI32_parses ⟨by omega, by omega⟩).bind ?_
    refine (readI32_parses ⟨by omega, by omega⟩).bind_nil ?_
    rw [hgood]
    exact (failIf_parses _).bind (Cursor.Parses.pure _)
  | function index =>
    obtain ⟨hlo, hhi⟩ := h
    have hgood : (decide (index < 0) || decide (index ≥ functionCount)) = false := by
      simp [hlo, hhi]
    refine (readI32_parses ⟨by omega, by omega⟩).bind_nil ?_
    rw [hgood]
    exact (failIf_parses _).bind (Cursor.Parses.pure _)

/-- A number constant is one of the ten kinds, and an integer's bytes are its low ones. -/
theorem readNumber_consumes (arenaLen functionCount : ℕ) :
    unitCursor.Consumes readNumber fun c bs =>
      bs = encodeConstantBody c ∧ c.kindByte = 0 ∧ c.WellFormed arenaLen functionCount := by
  refine (readU8_consumes.bind (S := fun byte c bs => putU8 byte ++ bs = encodeConstantBody c ∧
    c.kindByte = 0 ∧ c.WellFormed arenaLen functionCount) fun byte => ?_).mono ?_
  · split
    · exact fail_bind_consumes _ _
    rename_i k hk
    rw [← NumberKind.toByte_of_ofByte? hk]
    split <;> rename_i hfloat
    · refine ((readSized_consumes le_rfl).bind fun p => Cursor.Consumes.pure _).mono ?_
      rintro c bs ⟨p, xs, ys, rfl, ⟨rfl, -⟩, rfl, rfl⟩
      refine ⟨?_, rfl, ?_⟩
      · rw [encodeConstantBody, if_pos hfloat, List.append_nil]
        rfl
      · change k.Canonical p
        rw [NumberKind.Canonical, if_pos hfloat]
        trivial
    · have hint : k.info.isFloat = false := by simpa using hfloat
      refine ((readSized_consumes k.size_le).bind fun raw => Cursor.Consumes.pure _).mono ?_
      rintro c bs ⟨raw, xs, ys, rfl, ⟨rfl, hraw⟩, rfl, rfl⟩
      obtain ⟨hcanon, hlow⟩ := NumberKind.canonical_widen hint hraw
      refine ⟨?_, rfl, hcanon⟩
      rw [encodeConstantBody, if_neg hfloat, List.append_nil, putSized_eq, putSized_eq,
        NumberPayload.u64, ← LittleEndian.bytes_mod _ (k.widen raw).toNat, hlow]
  · rintro c bs ⟨byte, xs, ys, rfl, rfl, h⟩
    exact h

/-- A byte that passed the check for a bool is 0 or 1. -/
theorem bool_byte {b : UInt8} (h : decide (b > 1) = false) :
    b = if (b == 1) = true then 1 else 0 := by
  have hle : b.toNat ≤ 1 := by simpa [UInt8.lt_iff_toNat_lt] using h
  rcases Nat.le_one_iff_eq_zero_or_eq_one.mp hle with h0 | h1
  · obtain rfl : b = 0 := UInt8.toNat_inj.mp h0
    rfl
  · obtain rfl : b = 1 := UInt8.toNat_inj.mp h1
    rfl

theorem readConstantBody_consumes (arenaLen functionCount : ℕ) (kind : UInt8) :
    unitCursor.Consumes (readConstantBody arenaLen functionCount kind) fun c bs =>
      bs = encodeConstantBody c ∧ c.kindByte = kind ∧ c.WellFormed arenaLen functionCount := by
  unfold readConstantBody
  split
  · rename_i hkind
    exact hkind ▸ readNumber_consumes arenaLen functionCount
  split
  · rename_i hkind
    refine (readU8_consumes.bind fun value => (failIf_invalid_consumes _).bind fun _ =>
      Cursor.Consumes.pure _).mono ?_
    rintro c bs ⟨value, xs, ys, rfl, rfl, _, us, vs, rfl, ⟨rfl, hgood⟩, rfl, rfl⟩
    refine ⟨?_, hkind.symm, trivial⟩
    rw [encodeConstantBody, ← bool_byte hgood]
    rfl
  split
  · rename_i hkind
    refine (Cursor.Consumes.pure _).mono ?_
    rintro c bs ⟨rfl, rfl⟩
    exact ⟨rfl, hkind.symm, trivial⟩
  split
  · rename_i hkind
    refine (readI32_consumes.bind fun offset => readI32_consumes.bind fun length =>
      (failIf_invalid_consumes _).bind fun _ => Cursor.Consumes.pure _).mono ?_
    rintro c bs ⟨offset, xs, ys, rfl, ⟨rfl, -⟩, length, zs, ws, rfl, ⟨rfl, -⟩, _, us, vs, rfl,
      ⟨rfl, hgood⟩, rfl, rfl⟩
    refine ⟨by simp [encodeConstantBody], hkind.symm, ?_⟩
    exact rangeInside_eq_true.mp (by simpa using hgood)
  split
  · rename_i hkind
    refine (readI32_consumes.bind fun index => (failIf_invalid_consumes _).bind fun _ =>
      Cursor.Consumes.pure _).mono ?_
    rintro c bs ⟨index, xs, ys, rfl, ⟨rfl, -⟩, _, us, vs, rfl, ⟨rfl, hgood⟩, rfl, rfl⟩
    refine ⟨by simp [encodeConstantBody], hkind.symm, ?_⟩
    simpa [CompiledConst.WellFormed] using hgood
  · exact fail_bind_consumes _ _

theorem readConstant_consumes (arenaLen functionCount : ℕ) :
    unitCursor.Consumes (readConstant arenaLen functionCount) fun c bs =>
      bs = encodeConstant c ∧ c.WellFormed arenaLen functionCount := by
  refine (readU8_consumes.bind fun kind => readConstantBody_consumes _ _ kind).mono ?_
  rintro c bs ⟨kind, xs, ys, rfl, rfl, rfl, rfl, hwf⟩
  exact ⟨rfl, hwf⟩

theorem readUpvalue_parses (u : CompiledUpvalue) :
    unitCursor.Parses readUpvalue (encodeUpvalue u) u := by
  refine (readU8_parses _).bind ?_
  rw [(boolByte u.isLocal).1, (boolByte u.isLocal).2]
  exact (failIf_parses _).nil_bind
    (Cursor.Parses.unless (fun _ => failed_of_ok) ((readU8_parses u.index).map _))

theorem readUpvalue_consumes :
    unitCursor.Consumes readUpvalue fun u bs => bs = encodeUpvalue u := by
  refine (readU8_consumes.bind fun isLocal => (failIf_invalid_consumes _).bind fun _ =>
    Cursor.Consumes.unless (fun _ => not_ok_of_failed)
      (readU8_consumes.bind fun index => Cursor.Consumes.pure _)).mono ?_
  rintro u bs ⟨isLocal, xs, ys, rfl, rfl, _, zs, ws, rfl, ⟨rfl, hgood⟩, index, us, vs, rfl, rfl,
    rfl, rfl⟩
  change putU8 isLocal ++ ([] ++ (putU8 index ++ [])) = putU8 _ ++ putU8 index
  rw [← bool_byte hgood, List.append_nil]
  rfl

/-- The flag byte of a function is read back bit by bit, and only these bits are allowed. -/
theorem flags_of_bits (isStatic isPublic : Bool) :
    let flags := (if isStatic then FLAG_STATIC else 0) ||| (if isPublic then FLAG_PUBLIC else 0)
    (flags &&& ~~~(FLAG_STATIC ||| FLAG_PUBLIC) != 0) = false ∧
      (flags &&& FLAG_STATIC != 0) = isStatic ∧ (flags &&& FLAG_PUBLIC != 0) = isPublic := by
  cases isStatic <;> cases isPublic <;> decide

theorem bits_of_flags {flags : UInt8}
    (h : (flags &&& ~~~(FLAG_STATIC ||| FLAG_PUBLIC) != 0) = false) :
    (if (flags &&& FLAG_STATIC != 0) = true then FLAG_STATIC else 0) |||
      (if (flags &&& FLAG_PUBLIC != 0) = true then FLAG_PUBLIC else 0) = flags := by
  have hall : ∀ n < 256, (UInt8.ofNat n &&& ~~~(FLAG_STATIC ||| FLAG_PUBLIC) != 0) = false →
      (if (UInt8.ofNat n &&& FLAG_STATIC != 0) = true then FLAG_STATIC else 0) |||
        (if (UInt8.ofNat n &&& FLAG_PUBLIC != 0) = true then FLAG_PUBLIC else 0) =
        UInt8.ofNat n := by
    decide +kernel
  have hflags := hall flags.toNat flags.toNat_lt
  rw [UInt8.ofNat_toNat] at hflags
  exact hflags h

/-- The fixed fields of a function. -/
def encodeHeader (fn : CompiledFn) : Bytes :=
  putI32 fn.arity ++ (putI32 fn.upvalueCount ++ (putU8 (flagsOf fn) ++
    (putI32 fn.nameOffset ++ putI32 fn.nameLength)))

/-- The fixed fields of a function without its tables. -/
def CompiledFn.header (fn : CompiledFn) : CompiledFn :=
  { fn with code := [], constants := [], upvalues := [] }

theorem readFunctionHeader_parses {arenaLen functionCount : ℕ} {fn : CompiledFn}
    (h : fn.WellFormed arenaLen functionCount) :
    unitCursor.Parses (readFunctionHeader arenaLen) (encodeHeader fn) fn.header := by
  obtain ⟨⟨harity, harity'⟩, ⟨hup, hup'⟩, hoffset, hlength, hname, -⟩ := h
  unfold INT_MAX at harity' hup'
  obtain ⟨hflags, hstatic, hpublic⟩ := flags_of_bits fn.isStatic fn.isPublic
  refine (readI32_parses ⟨by omega, by omega⟩).bind ?_
  refine (readI32_parses ⟨by omega, by omega⟩).bind ?_
  refine (readU8_parses _).bind ?_
  refine (readI32_parses hoffset).bind ?_
  refine (readI32_parses hlength).bind_nil ?_
  have hgood : (flagsOf fn &&& ~~~(FLAG_STATIC ||| FLAG_PUBLIC) != 0 || decide (fn.arity < 0) ||
      decide (fn.upvalueCount < 0) || (decide (fn.nameLength ≥ 0) &&
        !rangeInside fn.nameOffset fn.nameLength arenaLen)) = false := by
    have hrange : 0 ≤ fn.nameLength → rangeInside fn.nameOffset fn.nameLength arenaLen = true :=
      fun hn => rangeInside_eq_true.mpr (hname hn)
    rw [flagsOf, hflags]
    by_cases hn : 0 ≤ fn.nameLength
    · simp [hrange hn, harity, hup]
    · simp [hn, harity, hup]
  rw [hgood]
  refine (failIf_parses _).bind_nil ?_
  have hheader : (⟨fn.arity, fn.upvalueCount, [], [], [], fn.nameOffset, fn.nameLength,
      flagsOf fn &&& FLAG_STATIC != 0, flagsOf fn &&& FLAG_PUBLIC != 0⟩ : CompiledFn) =
      fn.header := by
    rw [flagsOf, hstatic, hpublic]
    rfl
  rw [hheader]
  exact Cursor.Parses.pure _

theorem readFunctionHeader_consumes (arenaLen : ℕ) :
    unitCursor.Consumes (readFunctionHeader arenaLen) fun fn bs =>
      bs = encodeHeader fn ∧ fn.header = fn ∧ ∀ functionCount, fn.WellFormed arenaLen functionCount := by
  refine (readI32_consumes.bind fun arity => readI32_consumes.bind fun upvalueCount =>
    readU8_consumes.bind fun flags => readI32_consumes.bind fun nameOffset =>
    readI32_consumes.bind fun nameLength => (failIf_invalid_consumes _).bind fun _ =>
    Cursor.Consumes.pure _).mono ?_
  rintro fn bs ⟨arity, b₁, r₁, rfl, ⟨rfl, harity⟩, upvalueCount, b₂, r₂, rfl, ⟨rfl, hup⟩,
    flags, b₃, r₃, rfl, rfl, nameOffset, b₄, r₄, rfl, ⟨rfl, hoffset⟩, nameLength, b₅, r₅, rfl,
    ⟨rfl, hlength⟩, _, b₆, r₆, rfl, ⟨rfl, hgood⟩, rfl, rfl⟩
  simp only [Bool.or_eq_false_iff, Bool.and_eq_false_iff, decide_eq_false_iff_not, not_lt, not_le,
    Bool.not_eq_false'] at hgood
  obtain ⟨⟨⟨hflags, harity'⟩, hup'⟩, hname⟩ := hgood
  refine ⟨?_, rfl, fun functionCount => ?_⟩
  · simp only [encodeHeader, flagsOf, bits_of_flags hflags, List.append_nil]
  · refine ⟨⟨harity', ?_⟩, ⟨hup', ?_⟩, hoffset, hlength, fun hn => ?_, Nat.zero_le _, by simp,
      Nat.zero_le _, by simp, Nat.zero_le _⟩
    · have := harity.2
      unfold INT_MAX
      push_cast
      omega
    · have := hup.2
      unfold INT_MAX
      push_cast
      omega
    · rcases hname with hneg | hin
      · exact absurd hn (not_le.mpr hneg)
      · exact rangeInside_eq_true.mp hin

/-- The bytes and the lines of bytecode, put together again. -/
theorem zipWith_code (code : List CodeByte) :
    List.zipWith CodeByte.mk (code.map CodeByte.byte) (code.map CodeByte.line) = code := by
  induction code with
  | nil => rfl
  | cons c code ih => simp [ih]

theorem map_zipWith_code {xs : Bytes} {lines : List ℤ} (h : xs.length = lines.length) :
    (List.zipWith CodeByte.mk xs lines).map CodeByte.byte = xs ∧
      (List.zipWith CodeByte.mk xs lines).map CodeByte.line = lines := by
  induction xs generalizing lines with
  | nil => cases lines with
    | nil => exact ⟨rfl, rfl⟩
    | cons n lines => cases h
  | cons x xs ih => cases lines with
    | nil => cases h
    | cons n lines =>
      obtain ⟨hbytes, hlines⟩ := ih (by simpa using h)
      simp [hbytes, hlines]

theorem readCode_parses {code : List CodeByte} (hcount : code.length ≤ INT_MAX)
    (hlines : ∀ c ∈ code, IsInt c.line) :
    unitCursor.Parses readCode (putU32 code.length ++ (code.map CodeByte.byte ++
      (code.map CodeByte.line).flatMap putI32)) code := by
  have hlines' : ∀ n ∈ code.map CodeByte.line, IsInt n := by
    intro n hn
    obtain ⟨c, hc, rfl⟩ := List.mem_map.mp hn
    exact hlines c hc
  have hsum : ((code.map CodeByte.line).flatMap putI32).length = 4 * code.length := by
    rw [List.length_flatMap]
    simp [putI32_length, Function.comp_def, Nat.mul_comm]
  refine readTable_parses hcount (by decide) ?_ ?_
  · rw [List.length_append, hsum, List.length_map, CODE_BYTES_EACH]
    omega
  · refine (take_parses (List.length_map _)).bind ?_
    have htable : unitCursor.Parses (Cursor.readEach (fun _ => false) readI32 _) _ _ :=
      Cursor.Parses.readEach (fun _ _ => rfl) (code.map CodeByte.line)
        fun n hn => readI32_parses (hlines' n hn)
    rw [List.length_map] at htable
    have hzip := htable.map (List.zipWith CodeByte.mk (code.map CodeByte.byte))
    rw [zipWith_code] at hzip
    exact hzip

theorem readCode_consumes :
    unitCursor.Consumes readCode fun code bs =>
      bs = putU32 code.length ++ (code.map CodeByte.byte ++
        (code.map CodeByte.line).flatMap putI32) ∧
      code.length ≤ INT_MAX ∧ ∀ c ∈ code, IsInt c.line := by
  refine (readTable_consumes fun count => (take_consumes count).bind fun found =>
    (Cursor.Consumes.readEach (fun _ h => absurd h Bool.false_ne_true) readI32_consumes count).bind
      fun lines => Cursor.Consumes.pure _).mono ?_
  rintro code bs ⟨count, ys, rfl, hmax, found, xs, zs, rfl, ⟨rfl, hlen⟩, lines, us, vs, rfl,
    ⟨hlines, rfl, hint⟩, rfl, rfl⟩
  obtain ⟨hbytes, hline⟩ := map_zipWith_code (hlen.trans hlines.symm)
  have hcount : (List.zipWith CodeByte.mk xs lines).length = count := by
    rw [List.length_zipWith, hlen, hlines, Nat.min_self]
  refine ⟨?_, ?_, ?_⟩
  · rw [Option.getD_some, hcount, hbytes, hline, List.append_nil]
  · exact hcount.trans_le hmax
  · intro c hc
    have hmem : c.line ∈ lines := hline ▸ List.mem_map_of_mem hc
    exact hint _ hmem

theorem encodeFunction_eq (fn : CompiledFn) :
    encodeFunction fn = encodeHeader fn ++
      ((putU32 fn.code.length ++ (fn.code.map CodeByte.byte ++
        (fn.code.map CodeByte.line).flatMap putI32)) ++
      ((putU32 fn.constants.length ++ fn.constants.flatMap encodeConstant) ++
      (putU32 fn.upvalues.length ++ fn.upvalues.flatMap encodeUpvalue))) := by
  simp [encodeFunction, encodeHeader, CompiledFn.bytes]

theorem encodeHeader_length (fn : CompiledFn) : (encodeHeader fn).length = 17 := by
  simp [encodeHeader, putI32_length, putU8]

theorem min_function_bytes (fn : CompiledFn) :
    MIN_FUNCTION_BYTES ≤ (encodeFunction fn).length := by
  rw [encodeFunction_eq]
  simp only [List.length_append, encodeHeader_length, putU32_length, MIN_FUNCTION_BYTES]
  omega

theorem readFunction_parses {arenaLen functionCount : ℕ} {fn : CompiledFn}
    (h : fn.WellFormed arenaLen functionCount) (harena : arenaLen ≤ INT_MAX)
    (hcount : functionCount ≤ INT_MAX) :
    unitCursor.Parses (readFunction arenaLen functionCount) (encodeFunction fn) fn := by
  have hok : ∀ s, unitCursor.ok s → failed s = false := fun _ => failed_of_ok
  rw [encodeFunction_eq]
  refine (readFunctionHeader_parses h).bind (Cursor.Parses.unless hok ?_)
  refine (readCode_parses h.codeCount h.lines).bind (Cursor.Parses.unless hok ?_)
  refine (readTable_parses h.constantCount (by decide) ?_ ?_).bind (Cursor.Parses.unless hok ?_)
  · refine Cursor.mul_le_length_flatMap _ fun c _ => ?_
    simp [encodeConstant, putU8, MIN_CONSTANT_BYTES]
  · exact Cursor.Parses.readEach hok _ fun c hc => readConstant_parses (h.constants c hc) harena hcount
  · refine (readTable_parses h.upvalueDescCount (by decide) ?_ ?_).map _
    · refine Cursor.mul_le_length_flatMap _ fun u _ => ?_
      simp [encodeUpvalue, putU8, UPVALUE_BYTES_EACH]
    · exact Cursor.Parses.readEach hok _ fun u _ => readUpvalue_parses u

theorem readFunction_consumes (arenaLen functionCount : ℕ) :
    unitCursor.Consumes (readFunction arenaLen functionCount) fun fn bs =>
      bs = encodeFunction fn ∧ fn.WellFormed arenaLen functionCount := by
  have hfail : ∀ s, failed s = true → ¬ unitCursor.ok s := fun _ => not_ok_of_failed
  have hconsts : unitCursor.Consumes (readConstants arenaLen functionCount) _ :=
    readTable_consumes
      (Cursor.Consumes.readEach hfail (readConstant_consumes arenaLen functionCount))
  have hups : unitCursor.Consumes readUpvalues _ :=
    readTable_consumes (Cursor.Consumes.readEach (P := fun _ => True) hfail
      (readUpvalue_consumes.mono fun _ _ h => ⟨h, trivial⟩))
  refine ((readFunctionHeader_consumes arenaLen).bind fun fn => Cursor.Consumes.unless hfail
    (readCode_consumes.bind fun code => Cursor.Consumes.unless hfail
      (hconsts.bind fun constants => Cursor.Consumes.unless hfail
        (hups.bind fun upvalues => Cursor.Consumes.pure _)))).mono ?_
  rintro _ bs ⟨fn, b₁, r₁, rfl, ⟨rfl, hheader, hwf⟩, code, b₂, r₂, rfl, ⟨rfl, hcode, hlines⟩,
    constants, b₃, r₃, rfl, ⟨constantCount, ys, rfl, hmax, rfl, rfl, hconst⟩, upvalues, b₄, r₄, rfl,
    ⟨upvalueCount, zs, rfl, hmax', rfl, rfl, -⟩, rfl, rfl⟩
  refine ⟨?_, { hwf functionCount with
    codeCount := hcode, lines := hlines, constantCount := hmax, constants := hconst
    upvalueDescCount := hmax' }⟩
  rw [encodeFunction_eq, List.append_nil]
  rfl

/-! ### Units -/

/-- What `unitEncode` writes before the arena. -/
def encodePreamble (version : Bytes) : Bytes :=
  MAGIC ++ (putU16 UNIT_BYTES_FORMAT_VERSION ++ (putU8 (UInt8.ofNat version.length) ++ version))

theorem readPreamble_parses {version : Bytes} (h : version.length ≤ 255) :
    unitCursor.Parses (readPreamble version) (encodePreamble version) () := by
  have hlen : (UInt8.ofNat version.length).toNat = version.length := by
    rw [UInt8.toNat_ofNat', Nat.mod_eq_of_lt (by omega)]
  refine (take_parses rfl).bind ?_
  refine (failIf_parses _).nil_bind ?_
  refine (readU16_parses (by decide)).bind ?_
  refine (failIf_parses _).nil_bind ?_
  refine (readU8_parses _).bind ?_
  refine (take_parses hlen.symm).bind_nil ?_
  have hgood : ((some version).any fun bytes =>
      (UInt8.ofNat version.length).toNat != version.length || bytes != version) = false := by
    simp [hlen]
  rw [hgood]
  exact failIf_parses _

theorem readPreamble_consumes (version : Bytes) :
    unitCursor.Consumes (readPreamble version) fun _ bs =>
      bs = encodePreamble version ∧ version.length ≤ 255 := by
  refine ((take_consumes _).bind fun magic => (failIf_consumes (by decide) _).bind fun _ =>
    readU16_consumes.bind fun formatVersion => (failIf_consumes (by decide) _).bind fun _ =>
    readU8_consumes.bind fun versionLength => (take_consumes _).bind fun found =>
    failIf_consumes (by decide) _).mono ?_
  rintro _ bs ⟨magic, xs, r₁, rfl, ⟨rfl, -⟩, _, e₁, r₂, rfl, ⟨rfl, hmagic⟩, formatVersion, ys, r₃,
    rfl, ⟨rfl, -⟩, _, e₂, r₄, rfl, ⟨rfl, hformat⟩, versionLength, zs, r₅, rfl, rfl, found, ws, r₆,
    rfl, ⟨rfl, -⟩, rfl, hversion⟩
  simp only [Option.any_some, bne_eq_false_iff_eq, Bool.or_eq_false_iff] at hmagic hformat hversion
  obtain ⟨hlen, rfl⟩ := hversion
  subst hmagic hformat
  have hbyte : UInt8.ofNat ws.length = versionLength := by
    rw [← hlen, UInt8.ofNat_toNat]
  have hlt := versionLength.toNat_lt
  refine ⟨?_, by omega⟩
  simp only [encodePreamble, hbyte, List.nil_append, List.append_nil]

theorem unitEncode_eq (version : Bytes) (unit : CompiledUnit) :
    unitEncode version unit = encodePreamble version ++
      ((putU32 unit.strings.arena.length ++ unit.strings.arena) ++
      (putU32 unit.functions.length ++ unit.functions.flatMap encodeFunction)) := by
  simp [unitEncode, encodePreamble]

theorem readArena_parses {arena : Bytes} (h : arena.length ≤ INT_MAX) :
    unitCursor.Parses readArena (putU32 arena.length ++ arena) arena := by
  have hgood : decide (arena.length > INT_MAX) = false := by simpa using h
  unfold INT_MAX at h
  refine (readU32_parses (by omega)).bind ?_
  rw [hgood]
  exact (failIf_parses _).nil_bind ((take_parses rfl).map (·.getD []))

theorem readArena_consumes :
    unitCursor.Consumes readArena fun arena bs =>
      bs = putU32 arena.length ++ arena ∧ arena.length ≤ INT_MAX := by
  refine (readU32_consumes.bind fun blobLength => (failIf_invalid_consumes _).bind fun _ =>
    (take_consumes _).bind fun blob => Cursor.Consumes.pure _).mono ?_
  rintro _ bs ⟨blobLength, b₁, r₁, rfl, ⟨rfl, -⟩, _, e₁, r₂, rfl, ⟨rfl, hblob⟩, blob, arena, r₃,
    rfl, ⟨rfl, rfl⟩, rfl, rfl⟩
  exact ⟨by simp, by simpa using hblob⟩

theorem readFunctions_parses {arena : Bytes} {functions : List CompiledFn} (countedAt : ℕ)
    (harena : arena.length ≤ INT_MAX) (hcount : functions.length ≤ INT_MAX)
    (hne : functions ≠ [])
    (hwf : ∀ fn ∈ functions, fn.WellFormed arena.length functions.length) :
    unitCursor.Parses (readFunctions arena countedAt)
      (putU32 functions.length ++ functions.flatMap encodeFunction) functions := by
  have hsome : (functions.length == 0) = false := by simpa using hne
  have hlt : functions.length < 2 ^ 32 := by
    unfold INT_MAX at hcount
    omega
  refine (readU32_parses hlt).bind (Cursor.Parses.get_bind fun _ _ => ?_)
  rw [hsome]
  refine (failIf_parses _).nil_bind (readCounted_parses hcount (by decide)
    (Cursor.mul_le_length_flatMap _ fun fn _ => min_function_bytes fn) ?_)
  exact (allocateArray_parses _ _ _).nil_bind <|
    Cursor.Parses.readEach (fun _ => failed_of_ok) _ fun fn hfn =>
      readFunction_parses (hwf fn hfn) harena hcount

theorem readFunctions_consumes (arena : Bytes) (countedAt : ℕ) :
    unitCursor.Consumes (readFunctions arena countedAt) fun functions bs =>
      bs = putU32 functions.length ++ functions.flatMap encodeFunction ∧
        functions ≠ [] ∧ functions.length ≤ INT_MAX ∧
        ∀ fn ∈ functions, fn.WellFormed arena.length functions.length := by
  unfold readFunctions
  refine (readU32_consumes.bind (S := fun functionCount functions bs =>
    bs = functions.flatMap encodeFunction ∧ functions.length = functionCount ∧
      functions ≠ [] ∧ functions.length ≤ INT_MAX ∧
      ∀ fn ∈ functions, fn.WellFormed arena.length functions.length) fun functionCount => ?_).mono ?_
  · refine Cursor.Consumes.get_bind fun s => ?_
    have hitems := (allocateArray_consumes arena.length 1 countedAt).bind fun _ =>
      Cursor.Consumes.readEach (fun _ => not_ok_of_failed)
        (readFunction_consumes arena.length functionCount) functionCount
    refine ((failIf_invalid_consumes _).bind fun _ => readCounted_consumes hitems).mono ?_
    rintro functions bs ⟨_, e₁, r₂, rfl, ⟨rfl, hsome⟩, hmax, _, e₂, r₃, rfl, rfl, rfl, rfl, hwf⟩
    refine ⟨rfl, rfl, ?_, hmax, hwf⟩
    rintro rfl
    simp at hsome
  · rintro functions bs ⟨functionCount, b₁, r₁, rfl, ⟨rfl, -⟩, rfl, rfl, h⟩
    exact ⟨rfl, h⟩

/-- A unit as the decoder builds it: its string set has an arena but no entries. -/
def CompiledUnit.bare (unit : CompiledUnit) : CompiledUnit :=
  { strings := { arena := unit.strings.arena }, functions := unit.functions }

theorem readUnit_parses {version : Bytes} {unit : CompiledUnit} (hversion : version.length ≤ 255)
    (h : unit.WellFormed) :
    unitCursor.Parses (readUnit version) (unitEncode version unit) unit.bare := by
  rw [unitEncode_eq]
  refine (readPreamble_parses hversion).bind (Cursor.Parses.get_bind fun s _ => ?_)
  refine (readArena_parses h.arenaLen).bind ?_
  exact (readFunctions_parses _ h.arenaLen h.functionCount h.functions_ne_nil h.functions).map
    fun functions => ({ strings := { arena := unit.strings.arena }, functions } : CompiledUnit)

theorem readUnit_consumes (version : Bytes) :
    unitCursor.Consumes (readUnit version) fun unit bs =>
      bs = unitEncode version unit ∧ unit.WellFormed ∧ unit.bare = unit ∧
        version.length ≤ 255 := by
  unfold readUnit
  refine ((readPreamble_consumes version).bind (S := fun _ unit bs =>
    bs = (putU32 unit.strings.arena.length ++ unit.strings.arena) ++
      (putU32 unit.functions.length ++ unit.functions.flatMap encodeFunction) ∧
      unit.WellFormed ∧ unit.bare = unit) fun _ => Cursor.Consumes.get_bind fun s => ?_).mono ?_
  · refine (readArena_consumes.bind (S := fun arena unit bs =>
      bs = putU32 unit.functions.length ++ unit.functions.flatMap encodeFunction ∧
        (arena.length ≤ INT_MAX → unit.WellFormed) ∧ unit.strings = { arena })
      fun arena => ?_).mono ?_
    · refine ((readFunctions_consumes arena (s.position + 4)).bind fun functions =>
        Cursor.Consumes.pure _).mono ?_
      rintro _ bs ⟨functions, b₃, r₃, rfl, ⟨rfl, hne, hmax, hwf⟩, rfl, rfl⟩
      exact ⟨List.append_nil _, fun harena => ⟨hne, harena, hmax, hwf⟩, rfl⟩
    · rintro ⟨strings, functions⟩ bs ⟨arena, b₂, r₂, rfl, ⟨rfl, harena⟩, rfl, hwf, rfl⟩
      exact ⟨rfl, hwf harena, rfl⟩
  · rintro unit bs ⟨_, b₁, r₁, rfl, ⟨rfl, hversion⟩, rfl, hwf, hbare⟩
    exact ⟨unitEncode_eq version unit ▸ rfl, hwf, hbare, hversion⟩

/-! ### Decoding -/

theorem unitDecode_eq (version bytes : Bytes) :
    unitDecode version bytes =
      let result := (readUnit version).run { data := bytes }
      if failed result.2 ∨ result.2.position ≠ result.2.data.length then none
      else some result.1 := by
  rw [unitDecode, unitDecodeRun, unitDecodeM, Cursor.run_bind, Cursor.run_get_bind]
  generalize (readUnit version).run { data := bytes } = result
  dsimp only
  by_cases hfail : failed result.2 = true
  · rw [if_pos hfail, if_pos (Or.inl hfail)]
    rfl
  by_cases hend : result.2.position = result.2.data.length
  · rw [if_neg hfail, if_neg (not_not.mpr hend), if_neg (by tauto)]
    rfl
  · rw [if_neg hfail, if_pos hend, if_pos (Or.inr hend)]
    rfl

/-- `unitDecode` accepts exactly what `unitEncode` writes for well-formed units. -/
theorem unitDecode_eq_some_iff {version bytes : Bytes} {unit : CompiledUnit} :
    unitDecode version bytes = some unit ↔
      version.length ≤ 255 ∧ unit.WellFormed ∧ unit.bare = unit ∧
        bytes = unitEncode version unit := by
  rw [unitDecode_eq]
  constructor
  · intro h
    dsimp only at h
    split at h
    · cases h
    rename_i hgood
    obtain ⟨hstatus, hend⟩ := not_or.mp hgood
    have hend := not_not.mp hend
    have hok : unitCursor.ok ((readUnit version).run { data := bytes }).2 :=
      ⟨by simpa [failed] using hstatus, hend.le⟩
    obtain ⟨-, bs, hrest, rfl, hwf, hbare, hversion⟩ := readUnit_consumes version _ hok
    rw [unitCursor_rest, unitCursor_rest, hend, List.drop_length, List.append_nil,
      List.drop_zero] at hrest
    obtain rfl := Option.some.inj h
    exact ⟨hversion, hwf, hbare, hrest⟩
  · rintro ⟨hversion, hwf, hbare, rfl⟩
    obtain ⟨hok, hall⟩ := unitCursor_start (unitEncode version unit)
    obtain ⟨hval, ⟨hstatus, hin⟩, hrest⟩ := readUnit_parses hversion hwf
      { data := unitEncode version unit } [] hok (hall.trans (List.append_nil _).symm)
    rw [unitCursor_rest, List.drop_eq_nil_iff] at hrest
    dsimp only
    rw [if_neg, hval, hbare]
    rintro (hfail | hne)
    · simp [failed, hstatus] at hfail
    · omega

theorem CompiledUnit.WellFormed.bare {unit : CompiledUnit} (h : unit.WellFormed) :
    unit.bare.WellFormed :=
  ⟨h.functions_ne_nil, h.arenaLen, h.functionCount, h.functions⟩

theorem unitEncode_bare (version : Bytes) (unit : CompiledUnit) :
    unitEncode version unit.bare = unitEncode version unit := rfl

theorem unitDecode_unitEncode_bare {version : Bytes} {unit : CompiledUnit}
    (hversion : version.length ≤ 255) (h : unit.WellFormed) :
    unitDecode version (unitEncode version unit) = some unit.bare :=
  unitDecode_eq_some_iff.mpr ⟨hversion, h.bare, rfl, (unitEncode_bare version unit).symm⟩

/-- Decoding what was encoded gives back the arena and every field of every function. -/
theorem unitDecode_unitEncode {version : Bytes} {unit : CompiledUnit}
    (hversion : version.length ≤ 255) (h : unit.WellFormed) :
    ∃ decoded, unitDecode version (unitEncode version unit) = some decoded ∧
      decoded.strings.arena = unit.strings.arena ∧ decoded.functions = unit.functions :=
  ⟨unit.bare, unitDecode_unitEncode_bare hversion h, rfl, rfl⟩

/-- A script that holds one constant of every kind and captures one upvalue. -/
def sampleUnit : CompiledUnit where
  strings := { arena := [0x66, 0x6f, 0x6f] }
  functions :=
    [{ arity := 2, upvalueCount := 1, nameOffset := 0, nameLength := 3, isPublic := true
       code := [⟨0, 1⟩, ⟨0x2d, 300⟩]
       constants := [.number .i16 (-2), .number .f64 0x7ff8000000000001, .boolean true, .nil,
         .string 1 2, .function 0]
       upvalues := [⟨true, 7⟩] }]

theorem sampleUnit_wellFormed : sampleUnit.WellFormed where
  functions_ne_nil := by decide
  arenaLen := by decide
  functionCount := by decide
  functions := by
    intro fn hfn
    obtain rfl := List.mem_singleton.mp hfn
    refine ⟨by decide, by decide, by unfold IsInt; decide, by unfold IsInt; decide,
      fun _ => by unfold Slice; decide, by decide, ?_, by decide, ?_, by decide⟩
    · simp [IsInt]
    · simp [CompiledConst.WellFormed, Slice, NumberKind.Canonical]
      decide

theorem unitDecode_unitEncode_sample :
    ∃ decoded, unitDecode [0x31] (unitEncode [0x31] sampleUnit) = some decoded ∧
      decoded.strings.arena = sampleUnit.strings.arena ∧
      decoded.functions = sampleUnit.functions :=
  unitDecode_unitEncode (by decide) sampleUnit_wellFormed

/-- A unit's bytes end where they end: nothing longer starts with them. -/
theorem not_unitDecode_append {version bytes tail : Bytes} {unit : CompiledUnit}
    (h : unitDecode version bytes = some unit) (htail : tail ≠ []) :
    unitDecode version (bytes ++ tail) = none := by
  obtain ⟨hversion, hwf, -, rfl⟩ := unitDecode_eq_some_iff.mp h
  obtain ⟨hok, hall⟩ := unitCursor_start (unitEncode version unit ++ tail)
  obtain ⟨-, -, hrest⟩ := readUnit_parses hversion hwf
    { data := unitEncode version unit ++ tail } tail hok hall
  rw [unitDecode_eq]
  dsimp only
  rw [if_pos]
  right
  intro hend
  rw [unitCursor_rest, hend, List.drop_length] at hrest
  exact htail hrest.symm

/-- An accepted byte string is the only one for its unit, and no other accepted byte string starts
with it or is the start of it. -/
theorem unitDecode_canonical {version bytes : Bytes} {unit : CompiledUnit}
    (h : unitDecode version bytes = some unit) :
    unitEncode version unit = bytes ∧
      (∀ before, before <+: bytes → before ≠ bytes → unitDecode version before = none) ∧
      (∀ longer, bytes <+: longer → longer ≠ bytes → unitDecode version longer = none) := by
  refine ⟨(unitDecode_eq_some_iff.mp h).2.2.2.symm, ?_, ?_⟩
  · rintro before ⟨tail, rfl⟩ hne
    have htail : tail ≠ [] := by
      rintro rfl
      exact hne (List.append_nil _).symm
    by_contra hsome
    obtain ⟨earlier, hearlier⟩ := Option.ne_none_iff_exists'.mp hsome
    rw [not_unitDecode_append hearlier htail] at h
    cases h
  · rintro longer ⟨tail, rfl⟩ hne
    refine not_unitDecode_append h ?_
    rintro rfl
    exact hne (List.append_nil _)

/-- The bytes of `sampleUnit`: header and arena, the function's name and counts, its code with lines,
its constants and its upvalue. -/
def sampleBytes : Bytes :=
  [0x4b, 0x52, 0x42, 0x43, 3, 0, 1, 0x31, 3, 0, 0, 0, 0x66, 0x6f, 0x6f] ++
  [1, 0, 0, 0, 2, 0, 0, 0, 1, 0, 0, 0, 2, 0, 0, 0, 0, 3, 0, 0, 0] ++
  [2, 0, 0, 0, 0, 0x2d, 1, 0, 0, 0, 0x2c, 1, 0, 0] ++
  [6, 0, 0, 0, 0, 2, 0xfe, 0xff, 0, 8, 1, 0, 0, 0, 0, 0, 0xf8, 0x7f, 1, 1, 2] ++
  [3, 1, 0, 0, 0, 2, 0, 0, 0, 4, 0, 0, 0, 0] ++
  [1, 0, 0, 0, 1, 7]

theorem unitDecode_sampleBytes : unitDecode [0x31] sampleBytes = some sampleUnit := by
  have hbytes : sampleBytes = unitEncode [0x31] sampleUnit := by decide +kernel
  rw [hbytes]
  exact unitDecode_unitEncode_bare (by decide) sampleUnit_wellFormed

theorem unitDecode_canonical_sample :
    unitEncode [0x31] sampleUnit = sampleBytes ∧
      (∀ before, before <+: sampleBytes → before ≠ sampleBytes →
        unitDecode [0x31] before = none) ∧
      (∀ longer, sampleBytes <+: longer → longer ≠ sampleBytes →
        unitDecode [0x31] longer = none) :=
  unitDecode_canonical unitDecode_sampleBytes

end KirbyLang
