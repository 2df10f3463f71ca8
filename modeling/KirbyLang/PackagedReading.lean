import KirbyLang.PackagedProgram

/-!
# Reading a packaged program back

What `packagedRead` and `packagedNextUnit` find in a file made of a runtime, units and a trailer,
and what they do with any payload.

* `packagedNextUnit_at`: a unit is found where it was put;
* `CursorAt`: the cursors a reader comes to; they advance and stay inside (`CursorAt.le`,
  `packagedNextUnit_advances`);
* `takeUnits_ends`: a reader is through after finitely many units;
* `packaged_units_read_back`: all of it.
-/

namespace KirbyLang

open Files

variable {version payload bytes : Bytes} {cursor cursor' rounds : ℕ} {unit : CompiledUnit}
  {units : List CompiledUnit}

/-- Units added one after the other to an empty payload. -/
def payloadOf (version : Bytes) (units : List CompiledUnit) : Bytes :=
  units.foldl (packagedAddUnit version) []

/-- A runtime with a payload and a trailer. -/
def packagedFile (runtime payload : Bytes) : Bytes :=
  runtime ++ (payload ++ trailer payload.length)

/-! ### Any payload -/

/-- Take units out of a payload until there is none, or a damaged one. -/
def takeUnits (payload : Bytes) : ℕ → ℕ → Option (List Bytes × PackagedUnitStatus)
  | 0, _ => none
  | rounds + 1, cursor =>
    match packagedNextUnit payload cursor with
    | .ok bytes cursor =>
      (takeUnits payload rounds cursor).map fun taken => (bytes :: taken.1, taken.2)
    | .finished => some ([], .finished)
    | .damaged => some ([], .damaged)

/-- The cursors that a reader of a payload comes to. -/
inductive CursorAt (payload : Bytes) : ℕ → Prop
  | start : CursorAt payload 0
  | next {cursor cursor' : ℕ} {bytes : Bytes} (h : CursorAt payload cursor)
      (taken : packagedNextUnit payload cursor = .ok bytes cursor') : CursorAt payload cursor'

theorem packagedNextUnit_advances (hcursor : cursor ≤ payload.length)
    (h : packagedNextUnit payload cursor = .ok bytes cursor') :
    cursor < cursor' ∧ cursor' ≤ payload.length := by
  unfold packagedNextUnit at h
  by_cases hend : cursor = payload.length
  · simp [hend] at h
  by_cases hshort : payload.length - cursor < 4
  · simp [hend, hshort] at h
  rw [if_neg hend, if_neg hshort] at h
  dsimp only at h
  split at h
  · simp at h
  · rename_i hfits
    simp only [PackagedUnitStatus.ok.injEq] at h
    omega

theorem CursorAt.le (h : CursorAt payload cursor) : cursor ≤ payload.length := by
  induction h with
  | start => omega
  | next h taken ih => exact (packagedNextUnit_advances ih taken).2

/-- Each unit takes a byte at least, so the bytes left bound the units. -/
theorem takeUnits_ends (hcursor : cursor ≤ payload.length)
    (hrounds : payload.length - cursor < rounds) :
    ∃ units status, takeUnits payload rounds cursor = some (units, status) ∧
      (status = .finished ∨ status = .damaged) := by
  induction rounds generalizing cursor with
  | zero => omega
  | succ rounds ih =>
    rcases hnext : packagedNextUnit payload cursor with ⟨bytes, cursor'⟩ | _ | _
    · obtain ⟨hlt, hle⟩ := packagedNextUnit_advances hcursor hnext
      obtain ⟨units, status, htaken, hstatus⟩ := ih hle (by omega)
      refine ⟨bytes :: units, status, ?_, hstatus⟩
      simp [takeUnits, hnext, htaken]
    · exact ⟨[], .finished, by simp [takeUnits, hnext], .inl rfl⟩
    · exact ⟨[], .damaged, by simp [takeUnits, hnext], .inr rfl⟩

/-! ### Units that were added -/

/-- A unit as it lies in a payload. -/
def unitRecord (version : Bytes) (unit : CompiledUnit) : Bytes :=
  putU32 ((unitEncode version unit).length % 2 ^ 32) ++ unitEncode version unit

theorem payloadOf_eq (units : List CompiledUnit) :
    payloadOf version units = units.flatMap (unitRecord version) := by
  have h : ∀ payload, units.foldl (packagedAddUnit version) payload =
      payload ++ units.flatMap (unitRecord version) := by
    induction units with
    | nil => simp
    | cons unit units ih =>
      intro payload
      simp [ih, packagedAddUnit, unitRecord]
  exact (h []).trans (List.nil_append _)

theorem length_putU32 (value : ℕ) : (putU32 value).length = 4 := by
  simp [putU32, LittleEndian.bytes_eq_shift]

/-- A unit is found where it lies. -/
theorem packagedNextUnit_at (before after : Bytes)
    (hsize : (unitEncode version unit).length < 2 ^ 32) :
    packagedNextUnit (before ++ (unitRecord version unit ++ after)) before.length =
      .ok (unitEncode version unit) (before ++ unitRecord version unit).length := by
  generalize hencoded : unitEncode version unit = encoded at hsize
  have hlength := length_putU32 encoded.length
  have hrecord : unitRecord version unit = putU32 encoded.length ++ encoded := by
    rw [unitRecord, hencoded, Nat.mod_eq_of_lt hsize]
  have hvalue : LittleEndian.orFrom 0 0 (putU32 encoded.length) = encoded.length := by
    rw [LittleEndian.value_eq_or, putU32, LittleEndian.bytes_eq_shift,
      LittleEndian.value_bytes_of_lt hsize]
  rw [hrecord, packagedNextUnit, if_neg (by simp [hlength]), if_neg (by simp [hlength])]
  have hhead : ((before ++ (putU32 encoded.length ++ encoded ++ after)).drop before.length).take 4 =
      putU32 encoded.length := by
    rw [List.drop_left, List.append_assoc, ← hlength, List.take_left]
  have hbody : ((before ++ (putU32 encoded.length ++ encoded ++ after)).drop
      (before.length + 4)).take encoded.length = encoded := by
    rw [← List.drop_drop, List.drop_left, List.append_assoc, ← hlength, List.drop_left,
      List.take_left]
  dsimp only
  rw [hhead, hvalue, if_neg (by simp [hlength]; omega), hbody]
  simp [hlength]
  omega

/-- The units come back in order, and then the payload is at its end. -/
theorem takeUnits_flatMap (before : Bytes)
    (hsize : ∀ unit ∈ units, (unitEncode version unit).length < 2 ^ 32) :
    takeUnits (before ++ units.flatMap (unitRecord version)) (units.length + 1) before.length =
      some (units.map (unitEncode version), .finished) := by
  induction units generalizing before with
  | nil => simp [takeUnits, packagedNextUnit]
  | cons unit units ih =>
    have hhead := packagedNextUnit_at before (units.flatMap (unitRecord version))
      (hsize unit List.mem_cons_self)
    have htail := ih (before ++ unitRecord version unit)
      fun u hu => hsize u (List.mem_cons_of_mem _ hu)
    rw [List.append_assoc, List.length_append] at htail
    rw [List.flatMap_cons, List.length_cons, takeUnits, hhead]
    simp [htail]

/-! ### The file -/

section Reading

variable {fs : FileSystem} {errno node position : ℕ} {path : Path} {file : InStream}

theorem bind_apply {α β : Type} (p : FileM α) (f : α → FileM β) (disk : Disk) :
    (p >>= f) disk = f (p disk).1 (p disk).2 := rfl

theorem pure_apply {α : Type} (a : α) (disk : Disk) : (pure a : FileM α) disk = (a, disk) := rfl

theorem attempt_well {α : Type} {work : FileSystem → Except ℕ (α × FileSystem)} {a : α}
    (h : work fs = .ok (a, fs)) : attempt work ⟨fs, errno, []⟩ = (some a, ⟨fs, errno, []⟩) := by
  simp [attempt, Disk.outcome, Disk.passed, h]

theorem fread_well (count : ℕ) :
    fread count file ⟨fs, errno, []⟩ = (((file.rest fs).take count,
      { file with position := file.position + min count (file.rest fs).length }),
        ⟨fs, errno, []⟩) := by
  have h : (file.rest fs).take (min count (file.rest fs).length) = (file.rest fs).take count := by
    rw [← List.take_take, List.take_length]
  simp [fread, Disk.outcome, Disk.passed, Outcome.moved, h]

/-- All the bytes asked for come when they are there. -/
theorem readChunks_well {left : ℕ} (hrounds : left < rounds)
    (hleft : left ≤ (file.rest fs).length) :
    (readChunks rounds file left bytes ⟨fs, errno, []⟩).1 =
      (true, bytes ++ (file.rest fs).take left) := by
  induction rounds generalizing file left bytes with
  | zero => omega
  | succ rounds ih =>
    by_cases hzero : left = 0
    · subst hzero
      simp [readChunks, pure_apply]
    · have hwant : min (min left 4096) (file.rest fs).length = min left 4096 := by omega
      have hrest : InStream.rest { file with position := file.position + min left 4096 } fs =
          (file.rest fs).drop (min left 4096) := by
        simp [InStream.rest, List.drop_drop]
      rw [readChunks, if_neg hzero]
      simp only [bind_apply, fread_well, hwant, List.length_take, if_true]
      rw [ih (by omega) (by rw [hrest, List.length_drop]; omega), hrest, List.append_assoc]
      have hsplit : left = min left 4096 + (left - min left 4096) := by omega
      conv_rhs => rw [hsplit, List.take_add]

theorem length_trailer (length : ℕ) : (trailer length).length = PACKAGED_TRAILER_SIZE := by
  simp [trailer, TRAILER_MAGIC, LittleEndian.bytes_eq_shift, PACKAGED_TRAILER_SIZE]

theorem packagedRead_well {runtime payload : Bytes}
    (hfile : fs.read path = some (packagedFile runtime payload)) :
    (packagedRead path ⟨fs, errno, []⟩).1 = (.ok, payload) := by
  obtain ⟨node, hnode, hbytes⟩ : ∃ node, fs.names path = some node ∧
      (fs.files node).bytes = packagedFile runtime payload := by
    simpa [FileSystem.read] using hfile
  have hfits := (fs.files node).fits
  have hlength : (packagedFile runtime payload).length =
      runtime.length + payload.length + PACKAGED_TRAILER_SIZE := by
    simp [packagedFile, length_trailer]
    omega
  rw [hbytes, hlength] at hfits
  have hopen : fopen path ⟨fs, errno, []⟩ = (some { node }, ⟨fs, errno, []⟩) :=
    attempt_well (by rw [hnode])
  have hrest : ∀ position, InStream.rest { node, position } fs =
      (packagedFile runtime payload).drop position := fun position => by
    rw [InStream.rest, hbytes]
  have hend : (packagedFile runtime payload).drop (runtime.length + payload.length) =
      trailer payload.length := by
    rw [packagedFile, ← List.append_assoc, ← List.length_append, List.drop_left]
  have hpayload : ((packagedFile runtime payload).drop runtime.length).take payload.length =
      payload := by
    rw [packagedFile, List.drop_left, List.take_left]
  have hvalue : LittleEndian.orFrom 0 0 ((trailer payload.length).drop 8) = payload.length := by
    have hsmall : payload.length < 2 ^ 64 := by omega
    rw [trailer, Nat.mod_eq_of_lt hsmall]
    change LittleEndian.orFrom 0 0 (LittleEndian.shifted 8 payload.length) = _
    rw [LittleEndian.value_eq_or, LittleEndian.bytes_eq_shift, LittleEndian.value_bytes_of_lt hsmall]
  have hmagic : (trailer payload.length).take 8 = TRAILER_MAGIC := rfl
  have hbody : (packagedRead.readFrom { node } ⟨fs, errno, []⟩).1 = (.ok, payload) := by
    have hseekEnd : fseekEnd { node } ⟨fs, errno, []⟩ =
        (some { node, position := runtime.length + payload.length + PACKAGED_TRAILER_SIZE },
          ⟨fs, errno, []⟩) := attempt_well (by rw [hbytes, hlength])
    have htell : ∀ position,
        ftell { node, position } ⟨fs, errno, []⟩ = (some position, ⟨fs, errno, []⟩) :=
      fun position => attempt_well rfl
    have hseek : ∀ position offset, fseek { node, position } offset ⟨fs, errno, []⟩ =
        (some { node, position := offset }, ⟨fs, errno, []⟩) :=
      fun position offset => attempt_well rfl
    have htrailer : (trailer payload.length).take PACKAGED_TRAILER_SIZE = trailer payload.length :=
      List.take_of_length_le (length_trailer _).le
    have hstart : runtime.length + payload.length - payload.length = runtime.length := by omega
    have hchunks := @readChunks_well [] (payload.length + 1) fs errno
      { node, position := runtime.length } payload.length (by omega)
      (by rw [hrest, List.length_drop, hlength]; omega)
    rw [hrest, hpayload, List.nil_append] at hchunks
    simp only [packagedRead.readFrom, bind_apply, hseekEnd, htell]
    rw [if_neg (by omega), Nat.add_sub_cancel, bind_apply, hseek]
    simp only [bind_apply, fread_well, hrest, hend, htrailer, length_trailer, hmagic, hvalue]
    rw [if_neg (by simp), if_neg (by simp), if_neg (by omega), bind_apply, hseek, hstart]
    simp only [bind_apply, hchunks, pure_apply, if_true]
  rw [packagedRead, bind_apply, hopen]
  exact hbody

end Reading

/-- What was packaged is read back, unit by unit, and any payload comes to an end. -/
theorem packaged_units_read_back (version : Bytes) :
    (∀ runtime units fs errno path,
      (∀ unit ∈ units, (unitEncode version unit).length < 2 ^ 32) →
      fs.read path = some (packagedFile runtime (payloadOf version units)) →
      ∃ payload, (packagedRead path ⟨fs, errno, []⟩).1 = (.ok, payload) ∧
        takeUnits payload (units.length + 1) 0 =
          some (units.map (unitEncode version), .finished)) ∧
    ∀ payload,
      (∀ cursor, CursorAt payload cursor → cursor ≤ payload.length ∧
        ∀ bytes cursor', packagedNextUnit payload cursor = .ok bytes cursor' →
          cursor < cursor' ∧ cursor' ≤ payload.length) ∧
      ∃ rounds units status, takeUnits payload rounds 0 = some (units, status) ∧
        (status = .finished ∨ status = .damaged) := by
  constructor
  · intro runtime units fs errno path hsize hfile
    have hunits := takeUnits_flatMap [] hsize
    rw [List.nil_append, ← payloadOf_eq] at hunits
    exact ⟨_, packagedRead_well hfile, hunits⟩
  · intro payload
    constructor
    · intro cursor hcursor
      exact ⟨hcursor.le, fun bytes cursor' h => packagedNextUnit_advances hcursor.le h⟩
    · exact ⟨payload.length + 1, takeUnits_ends (Nat.zero_le _) (by omega)⟩

/-- A unit whose function `one` returns a constant. -/
def oneUnit : CompiledUnit where
  strings := { arena := [0x6f, 0x6e, 0x65] }
  functions := [{ nameOffset := 0, nameLength := 3, isPublic := true, code := [⟨0, 1⟩, ⟨0, 1⟩, ⟨1, 2⟩],
                  constants := [.number .i64 1] }]

/-- A unit with a script that makes a closure. -/
def closureUnit : CompiledUnit where
  strings := { arena := [0x66] }
  functions := [{ code := [⟨2, 1⟩, ⟨1, 1⟩], constants := [.string 0 1, .function 1] },
    { arity := 1, upvalueCount := 1, nameOffset := 0, nameLength := 1, upvalues := [⟨true, 0⟩] }]

/-- A runtime that looks like a packaged program itself, and a payload with two units. -/
theorem packaged_units_read_back_nested :
    ∃ file, packagedFile (packagedFile [0x7f] [0, 1]) (payloadOf [49] [oneUnit, closureUnit]) =
        file.bytes ∧
      ∃ payload,
        (packagedRead [97] ⟨FileSystem.single [97] file, 0, []⟩).1 = (.ok, payload) ∧
        takeUnits payload 3 0 =
          some ([unitEncode [49] oneUnit, unitEncode [49] closureUnit], .finished) := by
  have hfits : (packagedFile (packagedFile [0x7f] [0, 1])
      (payloadOf [49] [oneUnit, closureUnit])).length < 2 ^ 63 := by
    decide +kernel
  exact ⟨⟨_, hfits⟩, rfl, (packaged_units_read_back [49]).1 (packagedFile [0x7f] [0, 1])
    [oneUnit, closureUnit] (FileSystem.single [97] ⟨_, hfits⟩) 0 [97] (by decide +kernel)
    (FileSystem.read_single _ _)⟩

end KirbyLang
