import KirbyLang.PackagedReading

/-!
# Writing a packaged program

`packagedWrite` is all or nothing, whatever becomes of the file operations it makes.

* `copyChunks_copies`: a copy that reports no problem is complete;
* `openTemporaryOutput_beside`: the new file lies next to the old ones;
* `writeProgram_writes`: what the temporary file was given when all is well;
* `packagedWrite_all_or_nothing`: every name as before, or the output complete.
-/

namespace KirbyLang

open Files

variable {fs old : FileSystem} {path temporaryPath outputPath : Path} {node : ℕ}


/-! ### The bytes -/

theorem copyChunks_copies {rounds : ℕ} {source : InStream} {target : OutStream}
    (hrounds : (source.rest fs).length < rounds) :
    Triple (fun disk => disk.fs = fs) (copyChunks rounds source target) fun r disk =>
      disk.fs = fs ∧ r.2.2.node = target.node ∧
        (r.1 = true → r.2.1.error = false → source.error = false ∧
          r.2.2.written = target.written ++ source.rest fs) := by
  induction rounds generalizing source target with
  | zero => omega
  | succ rounds ih =>
    refine (triple_fread (by decide)).bind ?_
    rintro ⟨chunk, source'⟩
    refine triple_assume ?_
    rintro ⟨hnode, hrest, hread⟩
    dsimp only at hnode hrest hread ⊢
    by_cases hempty : chunk.length = 0
    · rw [if_pos hempty]
      refine triple_pure fun disk hfs => ⟨hfs, rfl, fun _ herror => ?_⟩
      obtain ⟨hbefore, hnone⟩ := hread herror
      have hend := hnone (List.length_eq_zero_iff.mp hempty)
      exact ⟨hbefore, by simp [hend]⟩
    · rw [if_neg hempty]
      refine triple_fwrite.bind ?_
      rintro ⟨count, target'⟩
      refine triple_assume ?_
      rintro ⟨htarget, hwritten⟩
      dsimp only at htarget hwritten ⊢
      by_cases hcount : count = chunk.length
      · rw [if_pos hcount]
        -- the chunk is not empty, so less is left to copy
        have hless : (source'.rest fs).length < rounds := by
          rw [hrest, List.length_append] at hrounds
          omega
        refine (ih hless).weaken (fun _ h => h) ?_
        rintro ⟨ok, source'', target''⟩ disk ⟨hfs, hnode', hcopied⟩
        refine ⟨hfs, hnode'.trans htarget, fun hok herror => ?_⟩
        obtain ⟨hbefore, hall⟩ := hcopied hok herror
        refine ⟨(hread hbefore).1, ?_⟩
        rw [hall, hwritten hcount, List.append_assoc, hrest]
      · rw [if_neg hcount]
        exact triple_pure fun disk hfs => ⟨hfs, htarget, fun h => by cases h⟩

theorem copyStream_copies (source : InStream) (target : OutStream) :
    Triple (fun disk => disk.fs = fs) (copyStream source target) fun r disk =>
      disk.fs = fs ∧ r.2.2.node = target.node ∧
        (r.1 = true → r.2.2.written = target.written ++ source.rest fs) := by
  refine triple_get fun disk hfs => ?_
  subst hfs
  refine ((copyChunks_copies (Nat.lt_succ_self _)).weaken (by rintro _ rfl; rfl)
    fun _ _ h => h).bind ?_
  rintro ⟨ok, source', target'⟩
  refine triple_assume ?_
  rintro ⟨hnode, hcopied⟩
  refine triple_pure fun disk' hfs => ⟨hfs, hnode, fun hok => ?_⟩
  simp only [Bool.and_eq_true, Bool.not_eq_true'] at hok
  exact (hcopied hok.1 hok.2).2

theorem fwriteAll_writes (bytes : Bytes) (target : OutStream) :
    Triple (fun disk => disk.fs = fs) (fwriteAll bytes target) fun r disk =>
      disk.fs = fs ∧ r.2.node = target.node ∧
        (r.1 = true → r.2.written = target.written ++ bytes) := by
  refine triple_fwrite.bind ?_
  rintro ⟨count, target'⟩
  refine triple_assume ?_
  rintro ⟨hnode, hwritten⟩
  exact triple_pure fun disk hfs => ⟨hfs, hnode, fun h => hwritten (by simpa using h)⟩

theorem writeProgram_writes (runtime : InStream) (output : OutStream) (payload : Bytes) :
    Triple (fun disk => disk.fs = fs) (writeProgram runtime output payload) fun r disk =>
      disk.fs = fs ∧ r.2.2.node = output.node ∧
        (r.1 = true →
          r.2.2.written = output.written ++ packagedFile (runtime.rest fs) payload) := by
  refine (copyStream_copies runtime output).bind ?_
  rintro ⟨copied, runtime', output1⟩
  refine triple_assume ?_
  rintro ⟨hnode1, hwritten1⟩
  dsimp only at hnode1 hwritten1 ⊢
  by_cases hcopied : copied = true
  · rw [if_pos hcopied]
    refine (fwriteAll_writes payload output1).bind ?_
    rintro ⟨written, output2⟩
    refine triple_assume ?_
    rintro ⟨hnode2, hwritten2⟩
    dsimp only at hnode2 hwritten2 ⊢
    by_cases hwritten : written = true
    · rw [if_pos hwritten]
      refine (fwriteAll_writes (trailer payload.length) output2).bind ?_
      rintro ⟨ended, output3⟩
      refine triple_assume ?_
      rintro ⟨hnode3, hwritten3⟩
      refine triple_pure fun disk hfs =>
        ⟨hfs, hnode3.trans (hnode2.trans hnode1), fun hended => ?_⟩
      dsimp only at hwritten3 hended ⊢
      rw [hwritten3 hended, hwritten2 hwritten, hwritten1 hcopied, packagedFile]
      simp
    · rw [if_neg hwritten]
      exact triple_pure fun disk hfs => ⟨hfs, hnode2.trans hnode1, fun h => by cases h⟩
  · rw [if_neg hcopied]
    exact triple_pure fun disk hfs => ⟨hfs, hnode1, fun h => by cases h⟩

/-! ### The names -/

theorem isRuntimeItself_keeps (runtime : InStream) (outputPath : Path) :
    Triple (fun disk => disk.fs = fs) (isRuntimeItself runtime outputPath)
      fun _ disk => disk.fs = fs := by
  refine (triple_fstat (P := fun fs' => fs' = fs)).bind ?_
  rintro (_ | runtimeInfo)
  · exact triple_pure fun _ h => h
  · refine (triple_stat (P := fun fs' => fs' = fs)).bind ?_
    rintro (_ | outputInfo)
    · exact triple_pure fun _ h => h
    · exact triple_pure fun _ h => h

theorem openAttempts_beside {pid mode left attempt : ℕ} :
    Triple (fun disk => disk.fs = old) (openAttempts outputPath pid mode left attempt)
      fun r disk => r.elim (Same old disk.fs) fun opened =>
        Files.Beside old opened.1 opened.2.node disk.fs ∧ opened.2.written = [] := by
  induction left generalizing attempt with
  | zero => exact triple_pure fun disk hfs => by subst hfs; exact Same.refl _
  | succ left ih =>
    refine triple_openExclusive.bind ?_
    rintro (_ | descriptor)
    · refine triple_getErrno.bind fun errno => ?_
      by_cases hexists : errno = EEXIST
      · rw [if_pos hexists]
        exact ih
      · rw [if_neg hexists]
        exact triple_pure fun disk hfs => by
          obtain rfl : disk.fs = old := hfs
          exact Same.refl _
    · dsimp only [Option.elim_some]
      refine Triple.weaken (?_ : Triple (fun disk => Files.Beside old
        (temporaryPathOf outputPath pid attempt) descriptor disk.fs) _ _) ?_ fun _ _ h => h
      · refine triple_fdopen.bind ?_
        rintro (_ | file)
        · refine triple_getErrno.bind fun problem => ?_
          refine triple_assume fun _ => ?_
          refine (triple_remove fun fs hfs => Files.Beside.unlink hfs).bind fun _ => ?_
          refine (triple_setErrno (P := fun fs => Same old fs)).bind fun _ => ?_
          exact triple_pure fun _ hsame => hsame
        · refine triple_pure fun disk hdisk => ?_
          obtain rfl := hdisk.2 file rfl
          exact ⟨hdisk.1, rfl⟩
      · rintro disk ⟨habsent, rfl, hfs⟩
        rw [hfs]
        exact beside_create mode habsent

/-- The temporary file is there, and has all the bytes if all is well. -/
def Written (old : FileSystem) (path : Path) (node : ℕ) (bytes : Bytes) (ok : Bool)
    (fs : FileSystem) : Prop :=
  Files.Beside old path node fs ∧ (ok = true → (fs.files node).bytes = bytes)

theorem closeOutput_written {ok : Bool} {problem : ℕ} {output : OutStream} {bytes : Bytes}
    (hbeside : Files.Beside old path output.node fs) (hwritten : ok = true → output.written = bytes) :
    Triple (fun disk => disk.fs = fs) (closeOutput ok problem output) fun r disk =>
      Written old path output.node bytes r.1 disk.fs := by
  have hkept : ∀ fs', (fs' = fs ∨ ∃ file, fs' = fs.setFile output.node file) →
      Files.Beside old path output.node fs' := by
    rintro fs' (rfl | ⟨file, rfl⟩)
    · exact hbeside
    · exact hbeside.setFile file
  refine triple_fclose.bind fun closed => ?_
  by_cases hfirst : (!closed && ok) = true
  · rw [if_pos hfirst]
    refine triple_getErrno.bind fun errno => triple_pure fun disk hdisk => ?_
    exact ⟨hkept _ hdisk.1, fun h => by cases h⟩
  · rw [if_neg hfirst]
    refine triple_pure fun disk hdisk => ⟨hkept _ hdisk.1, fun hok => ?_⟩
    dsimp only at hok
    subst hok
    rw [hdisk.2 (by simpa using hfirst), hwritten rfl]

theorem triple_unlessFailed {R : Disk → Prop} {Q : Bool → Disk → Prop} {ok : Bool}
    {problem : ℕ} {step : FileM Bool} (hskip : ok = false → ∀ disk, R disk → Q false disk)
    (hstep : ok = true → Triple R step Q) :
    Triple R (unlessFailed ok problem step) fun r disk => Q r.1 disk := by
  unfold unlessFailed
  by_cases hok : ok = true
  · rw [if_pos hok]
    refine (hstep hok).bind fun done => ?_
    by_cases hdone : done = true
    · rw [if_pos hdone]
      exact triple_pure fun disk h => by rwa [hdone] at h
    · rw [if_neg hdone]
      refine triple_getErrno.bind fun errno => triple_pure fun disk h => ?_
      rwa [Bool.eq_false_iff.mpr hdone] at h
  · rw [if_neg hok]
    exact triple_pure fun disk h => hskip (Bool.eq_false_iff.mpr hok) disk h

theorem makeExecutable_written {bytes : Bytes} {ok : Bool} :
    Triple (fun disk => Written old path node bytes ok disk.fs) (makeExecutable path)
      fun _ disk => Written old path node bytes ok disk.fs := by
  refine (triple_stat (P := Written old path node bytes ok)).bind ?_
  rintro (_ | info)
  · exact triple_pure fun _ h => h
  · refine (triple_chmod (P := Written old path node bytes ok) ?_).bind
      fun _ => triple_pure fun _ h => h
    rintro fs n ⟨hbeside, hfile⟩ hnode
    rw [hbeside.name] at hnode
    cases hnode
    exact ⟨hbeside.setMode _, hfile⟩

/-! ### All or nothing -/

/-- The output is complete, and every other name reads as before. -/
def Packaged (old : FileSystem) (runtimePath outputPath : Path) (payload : Bytes)
    (fs : FileSystem) : Prop :=
  ∃ runtime, old.read runtimePath = some runtime ∧
    fs.read outputPath = some (packagedFile runtime payload) ∧
    ∀ path, path ≠ outputPath → fs.read path = old.read path

variable {runtimePath : Path} {payload : Bytes} {output : OutStream} {runtime : InStream}

/-- What is left to do once the temporary file is open. -/
theorem packagedWrite_finishes {process : Process} {errorSize : ℕ} {bytes : Bytes}
    (hruntime : old.read runtimePath = some bytes)
    (hname : old.names runtimePath = some runtime.node) (hposition : runtime.position = 0)
    (hempty : output.written = []) :
    Triple (fun disk => Files.Beside old temporaryPath output.node disk.fs)
      (do
        let (ok, runtime, output) ← writeProgram runtime output payload
        let (ok, problem) ← closeOutput ok (← getErrno) output
        let _ ← fcloseRead runtime
        let (ok, problem) ← unlessFailed ok problem (makeExecutable temporaryPath)
        let (ok, problem) ← unlessFailed ok problem do
          return (← rename temporaryPath outputPath).isSome
        if ok then pure none
        else do
          remove temporaryPath
          pure (some (snprintf errorSize (text "could not write \"" ++ outputPath ++ text "\": " ++
            process.strerror problem))))
      fun r disk => if r = none then Packaged old runtimePath outputPath payload disk.fs
        else Same old disk.fs := by
  refine triple_each fun fs hbeside => ?_
  have hrest : runtime.rest fs = bytes := by
    have hfile := hbeside.files runtime.node (old.fresh _ _ hname)
    simp [FileSystem.read, hname] at hruntime
    rw [InStream.rest, hposition, hfile, hruntime, List.drop_zero]
  refine (writeProgram_writes runtime output payload).bind ?_
  rintro ⟨ok, runtime', output'⟩
  refine triple_assume ?_
  rintro ⟨hnode, hwritten⟩
  dsimp only at hnode hwritten ⊢
  rw [hempty, hrest, List.nil_append] at hwritten
  rw [← hnode] at hbeside
  refine triple_getErrno.bind fun errno => ?_
  refine (closeOutput_written hbeside hwritten).bind ?_
  rintro ⟨ok1, problem1⟩
  dsimp only
  refine (triple_fcloseRead
    (P := Written old temporaryPath output'.node (packagedFile bytes payload) ok1)).bind fun _ => ?_
  refine (triple_unlessFailed (Q := fun done disk =>
    Written old temporaryPath output'.node (packagedFile bytes payload) done disk.fs)
      (fun _ disk h => ⟨h.1, fun hf => by cases hf⟩) fun hok => ?_).bind ?_
  · exact makeExecutable_written.weaken (fun _ h => h) fun _ disk h => ⟨h.1, fun _ => h.2 hok⟩
  rintro ⟨ok2, problem2⟩
  dsimp only
  refine (triple_unlessFailed (Q := fun done disk =>
    if done = true then Packaged old runtimePath outputPath payload disk.fs
    else Files.Beside old temporaryPath output'.node disk.fs) (fun _ disk h => h.1) fun hok => ?_).bind ?_
  · refine (triple_rename
      (P := Written old temporaryPath output'.node (packagedFile bytes payload) ok2)
      (Q := Packaged old runtimePath outputPath payload) ?_).bind ?_
    · rintro fs ⟨hfs, hcontent⟩
      refine ⟨bytes, hruntime, ?_, fun path hpath => hfs.read_move_of_ne hpath⟩
      rw [hfs.read_move, hcontent hok]
    · rintro (_ | _)
      · exact triple_pure fun disk h => h.1
      · exact triple_pure fun disk h => h
  rintro ⟨ok3, problem3⟩
  dsimp only
  by_cases hok : ok3 = true
  · rw [if_pos hok]
    exact triple_pure fun disk h => by rwa [if_pos hok] at h
  · rw [if_neg hok]
    refine Triple.weaken (?_ : Triple
      (fun disk => Files.Beside old temporaryPath output'.node disk.fs) _ _)
      (fun disk h => by rwa [if_neg hok] at h) fun _ _ h => h
    refine (triple_remove fun fs hfs => Files.Beside.unlink hfs).bind fun _ => ?_
    exact triple_pure fun disk h => h

/-- Whatever becomes of the file operations: when `packagedWrite` reports an error, every name
leads to what it led to before, the output among them, and there is no other; when it does not, the
output has the runtime, the payload and the trailer in full. -/
theorem packagedWrite_all_or_nothing (process : Process) (runtimePath outputPath : Path)
    (payload : Bytes) (errorSize : ℕ) (disk : Disk) :
    if (packagedWrite process runtimePath outputPath payload errorSize disk).1 = none then
      Packaged disk.fs runtimePath outputPath payload
        (packagedWrite process runtimePath outputPath payload errorSize disk).2.fs
    else Same disk.fs (packagedWrite process runtimePath outputPath payload errorSize disk).2.fs := by
  have h : Triple (fun d => d.fs = disk.fs)
      (packagedWrite process runtimePath outputPath payload errorSize) fun r d =>
        if r = none then Packaged disk.fs runtimePath outputPath payload d.fs
        else Same disk.fs d.fs := by
    have hsame : ∀ d : Disk, d.fs = disk.fs → Same disk.fs d.fs := fun d hd => by
      rw [hd]
      exact Same.refl _
    refine triple_fopen.bind ?_
    rintro (_ | runtime)
    · refine triple_assume fun _ => triple_getErrno.bind fun errno => ?_
      exact triple_pure fun d hd => hsame d hd
    · refine triple_assume fun hopened => ?_
      obtain ⟨hname, hposition⟩ := hopened runtime rfl
      refine (isRuntimeItself_keeps runtime outputPath).bind fun itself => ?_
      by_cases hitself : itself = true
      · rw [if_pos hitself]
        refine (triple_fcloseRead (P := fun fs => fs = disk.fs)).bind fun _ => ?_
        exact triple_pure fun d hd => hsame d hd
      · rw [if_neg hitself]
        refine openAttempts_beside.bind ?_
        rintro (_ | ⟨temporaryPath, output⟩)
        · refine triple_getErrno.bind fun errno => ?_
          refine (triple_fcloseRead (P := fun fs => Same disk.fs fs)).bind fun _ => ?_
          exact triple_pure fun d hd => hd
        · refine triple_assume fun hempty => ?_
          have hruntime : disk.fs.read runtimePath = some (disk.fs.files runtime.node).bytes := by
            simp [FileSystem.read, hname]
          exact packagedWrite_finishes hruntime hname hposition hempty
  exact h disk rfl

/-- What was written without an error can be read. -/
theorem packagedRead_of_packagedWrite {process : Process} {errorSize errno : ℕ} {disk : Disk}
    (h : (packagedWrite process runtimePath outputPath payload errorSize disk).1 = none) :
    (packagedRead outputPath
      ⟨(packagedWrite process runtimePath outputPath payload errorSize disk).2.fs, errno, []⟩).1 =
        (.ok, payload) := by
  have hall := packagedWrite_all_or_nothing process runtimePath outputPath payload errorSize disk
  rw [if_pos h] at hall
  obtain ⟨runtime, -, houtput, -⟩ := hall
  exact packagedRead_well houtput

end KirbyLang
