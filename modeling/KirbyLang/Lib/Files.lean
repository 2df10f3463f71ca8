import Mathlib.Data.List.Basic
import Mathlib.Algebra.Order.Ring.Nat
import Mathlib.Tactic.Common

/-!
# Files, and operations on them that may fail

The operations of POSIX and of C's stdio with which programs read, write and replace files. What
becomes of each operation is given from outside, so a program can be looked at under every course
that events may take.

* `FileSystem`: names, and the nodes they lead to;
* `Disk`: a file system, `errno`, and the outcomes of the operations still to come;
* `attempt`: an operation that does its work or fails and changes nothing;
* `Same`: two file systems that nobody can tell apart by their names;
* `Triple`: what a program makes of a disk, with the rules for putting programs together.

What a stream is given to write reaches its file when the stream is closed.
-/

namespace Files

abbrev Path := List UInt8

def ENOENT : ℕ := 2
def EEXIST : ℕ := 17
def EFBIG : ℕ := 27

/-- The content of a file. Its size is an offset, which has 63 bits. -/
structure File where
  bytes : List UInt8
  fits : bytes.length < 2 ^ 63

def File.empty : File := ⟨[], by decide⟩

/-- The file with these bytes, if there can be one. -/
def File.ofBytes? (bytes : List UInt8) : Option File :=
  if h : bytes.length < 2 ^ 63 then some ⟨bytes, h⟩ else none

structure FileSystem where
  names : Path → Option ℕ
  files : ℕ → File
  modes : ℕ → ℕ
  /-- The node that the next new file gets. -/
  next : ℕ
  fresh : ∀ path node, names path = some node → node < next

namespace FileSystem

/-- What is read under a name. -/
def read (fs : FileSystem) (path : Path) : Option (List UInt8) :=
  (fs.names path).map fun node => (fs.files node).bytes

/-- A file system with one file. -/
def single (path : Path) (file : File) : FileSystem where
  names p := if p = path then some 0 else none
  files _ := file
  modes _ := 0o644
  next := 1
  fresh p node h := by
    by_cases hp : p = path
    · simp [hp] at h
      omega
    · simp [hp] at h

theorem read_single (path : Path) (file : File) : (single path file).read path = some file.bytes := by
  simp [read, single]

/-- A new empty file. -/
def create (fs : FileSystem) (path : Path) (mode : ℕ) : FileSystem where
  names p := if p = path then some fs.next else fs.names p
  files node := if node = fs.next then .empty else fs.files node
  modes node := if node = fs.next then mode else fs.modes node
  next := fs.next + 1
  fresh p node h := by
    by_cases hp : p = path
    · rw [if_pos hp] at h
      cases h
      omega
    · rw [if_neg hp] at h
      have := fs.fresh p node h
      omega

def setFile (fs : FileSystem) (node : ℕ) (file : File) : FileSystem :=
  { fs with files := fun n => if n = node then file else fs.files n }

def setMode (fs : FileSystem) (node mode : ℕ) : FileSystem :=
  { fs with modes := fun n => if n = node then mode else fs.modes n }

def unlink (fs : FileSystem) (path : Path) : FileSystem where
  names p := if p = path then none else fs.names p
  files := fs.files
  modes := fs.modes
  next := fs.next
  fresh p node h := by
    by_cases hp : p = path
    · rw [if_pos hp] at h
      cases h
    · rw [if_neg hp] at h
      exact fs.fresh p node h

/-- The name `path` moves to the node that `old` leads to, and `old` goes. -/
def move (fs : FileSystem) (old path : Path) : FileSystem where
  names p := if p = path then fs.names old else if p = old then none else fs.names p
  files := fs.files
  modes := fs.modes
  next := fs.next
  fresh p node h := by
    by_cases hp : p = path
    · rw [if_pos hp] at h
      exact fs.fresh old node h
    · rw [if_neg hp] at h
      by_cases ho : p = old
      · rw [if_pos ho] at h
        cases h
      · rw [if_neg ho] at h
        exact fs.fresh p node h

end FileSystem

/-! ### Outcomes -/

/-- What becomes of one operation. -/
inductive Outcome
  | well
  /-- A read or a write moves only so many bytes. -/
  | short (count : ℕ)
  /-- The operation fails; a read or a write moves so many bytes before. -/
  | fails (errno count : ℕ)
  deriving DecidableEq, Repr

/-- When no outcome is left, all goes well. -/
structure Disk where
  fs : FileSystem
  errno : ℕ := 0
  outcomes : List Outcome := []

namespace Disk

/-- What becomes of the next operation. -/
def outcome (disk : Disk) : Outcome := disk.outcomes.headD .well

/-- The disk after an operation that did not change the files. -/
def passed (disk : Disk) : Disk := { disk with outcomes := disk.outcomes.tail }

@[simp] theorem passed_fs (disk : Disk) : disk.passed.fs = disk.fs := rfl

end Disk

abbrev FileM := StateM Disk

/-- An operation that does its work on the file system or fails and changes nothing. -/
def attempt {α : Type} (work : FileSystem → Except ℕ (α × FileSystem)) : FileM (Option α) :=
  fun disk =>
    match disk.outcome with
    | .fails errno _ => (none, { disk.passed with errno })
    | _ =>
      match work disk.fs with
      | .ok (a, fs) => (some a, { disk.passed with fs })
      | .error errno => (none, { disk.passed with errno })

/-! ### Streams -/

/-- A file opened for reading. -/
structure InStream where
  node : ℕ
  position : ℕ := 0
  /-- What `ferror` says. -/
  error : Bool := false
  deriving DecidableEq, Repr

/-- A file opened for writing, with the bytes it was given. -/
structure OutStream where
  node : ℕ
  written : List UInt8 := []
  deriving DecidableEq, Repr

/-- The bytes that an input stream has not delivered yet. -/
def InStream.rest (stream : InStream) (fs : FileSystem) : List UInt8 :=
  (fs.files stream.node).bytes.drop stream.position

/-- `fopen` with `"rb"`. -/
def fopen (path : Path) : FileM (Option InStream) :=
  attempt fun fs =>
    match fs.names path with
    | some node => .ok ({ node }, fs)
    | none => .error ENOENT

/-- How many bytes a read moves when `left` could be read. Without an error, at least one of
them. -/
def Outcome.moved (left : ℕ) : Outcome → ℕ
  | .well => left
  | .short count => min (max count 1) left
  | .fails _ count => min count left

/-- Up to `count` bytes. -/
def fread (count : ℕ) (stream : InStream) : FileM (List UInt8 × InStream) :=
  fun disk =>
    let rest := stream.rest disk.fs
    let moved := disk.outcome.moved (min count rest.length)
    let after := { stream with position := stream.position + moved }
    match disk.outcome with
    | .fails errno _ => ((rest.take moved, { after with error := true }), { disk.passed with errno })
    | _ => ((rest.take moved, after), disk.passed)

/-- How many of the bytes were written, all unless there was an error. -/
def fwrite (bytes : List UInt8) (stream : OutStream) : FileM (ℕ × OutStream) :=
  fun disk =>
    let moved := disk.outcome.moved bytes.length
    let after := { stream with written := stream.written ++ bytes.take moved }
    match disk.outcome with
    | .fails errno _ => ((moved, after), { disk.passed with errno })
    | _ => ((moved, after), disk.passed)

/-- `fseek` to an offset from the start of the file. -/
def fseek (stream : InStream) (offset : ℕ) : FileM (Option InStream) :=
  attempt fun fs => .ok ({ stream with position := offset }, fs)

/-- `fseek` to the end of the file. -/
def fseekEnd (stream : InStream) : FileM (Option InStream) :=
  attempt fun fs => .ok ({ stream with position := (fs.files stream.node).bytes.length }, fs)

def ftell (stream : InStream) : FileM (Option ℕ) :=
  attempt fun fs => .ok (stream.position, fs)

/-- `fclose` of a file that was read. -/
def fcloseRead (_stream : InStream) : FileM (Option Unit) := attempt fun fs => .ok ((), fs)

/-- `fclose` of a file that was written. When it fails, some of the bytes may have gone out. -/
def fclose (stream : OutStream) : FileM Bool :=
  fun disk =>
    let put (bytes : List UInt8) :=
      (File.ofBytes? bytes).elim disk.fs fun file => disk.fs.setFile stream.node file
    match disk.outcome with
    | .fails errno count =>
      (false, { disk.passed with fs := put (stream.written.take count), errno })
    | _ =>
      if stream.written.length < 2 ^ 63 then
        (true, { disk.passed with fs := put stream.written })
      else (false, { disk.passed with errno := EFBIG })

/-! ### Descriptors and names -/

/-- What `stat` says of a file. -/
structure Stat where
  node : ℕ
  mode : ℕ
  deriving DecidableEq, Repr

def fstat (node : ℕ) : FileM (Option Stat) :=
  attempt fun fs => .ok (⟨node, fs.modes node⟩, fs)

def stat (path : Path) : FileM (Option Stat) :=
  attempt fun fs =>
    match fs.names path with
    | some node => .ok (⟨node, fs.modes node⟩, fs)
    | none => .error ENOENT

/-- `open` with `O_WRONLY | O_CREAT | O_EXCL`. -/
def openExclusive (path : Path) (mode : ℕ) : FileM (Option ℕ) :=
  attempt fun fs =>
    match fs.names path with
    | some _ => .error EEXIST
    | none => .ok (fs.next, fs.create path mode)

/-- `fdopen` with `"wb"`. -/
def fdopen (node : ℕ) : FileM (Option OutStream) :=
  attempt fun fs => .ok ({ node }, fs)

def chmod (path : Path) (mode : ℕ) : FileM (Option Unit) :=
  attempt fun fs =>
    match fs.names path with
    | some node => .ok ((), fs.setMode node mode)
    | none => .error ENOENT

/-- Replaces what is at `path` in one step. -/
def rename (old path : Path) : FileM (Option Unit) :=
  attempt fun fs =>
    match fs.names old with
    | some _ => .ok ((), fs.move old path)
    | none => .error ENOENT

/-- `remove`, which is taken to succeed. -/
def remove (path : Path) : FileM Unit :=
  fun disk => ((), { disk.passed with fs := disk.fs.unlink path })

def getErrno : FileM ℕ := fun disk => (disk.errno, disk)

def setErrno (errno : ℕ) : FileM Unit := fun disk => ((), { disk with errno })

/-! ### File systems that look the same -/

/-- Every name leads where it did, and what was there is as it was. -/
structure Same (fs fs' : FileSystem) : Prop where
  names : fs'.names = fs.names
  files : ∀ node < fs.next, fs'.files node = fs.files node
  modes : ∀ node < fs.next, fs'.modes node = fs.modes node

theorem Same.refl (fs : FileSystem) : Same fs fs := ⟨rfl, fun _ _ => rfl, fun _ _ => rfl⟩

theorem Same.read {fs fs' : FileSystem} (h : Same fs fs') (path : Path) :
    fs'.read path = fs.read path := by
  rw [FileSystem.read, FileSystem.read, h.names]
  cases hnode : fs.names path with
  | none => rfl
  | some node => simp [h.files node (fs.fresh path node hnode)]

/-- A file system with one new file next to the old ones. -/
structure Beside (old : FileSystem) (path : Path) (node : ℕ) (fs : FileSystem) : Prop where
  absent : old.names path = none
  names : fs.names = fun p => if p = path then some node else old.names p
  new : old.next ≤ node
  files : ∀ n < old.next, fs.files n = old.files n
  modes : ∀ n < old.next, fs.modes n = old.modes n

section Beside

variable {old fs : FileSystem} {path target : Path} {node : ℕ}

theorem beside_create (mode : ℕ) (h : old.names path = none) :
    Beside old path old.next (old.create path mode) where
  absent := h
  names := rfl
  new := Nat.le_refl _
  files _ hn := if_neg (Nat.ne_of_lt hn)
  modes _ hn := if_neg (Nat.ne_of_lt hn)

theorem Beside.name (h : Beside old path node fs) : fs.names path = some node := by
  simp [h.names]

theorem Beside.setFile (h : Beside old path node fs) (file : File) :
    Beside old path node (fs.setFile node file) where
  absent := h.absent
  names := h.names
  new := h.new
  files n hn := by
    have hne : n ≠ node := by
      have := h.new
      omega
    simp [FileSystem.setFile, hne, h.files n hn]
  modes := h.modes

theorem Beside.setMode (h : Beside old path node fs) (mode : ℕ) :
    Beside old path node (fs.setMode node mode) where
  absent := h.absent
  names := h.names
  new := h.new
  files := h.files
  modes n hn := by
    have hne : n ≠ node := by
      have := h.new
      omega
    simp [FileSystem.setMode, hne, h.modes n hn]

/-- Without the new file, all is as it was. -/
theorem Beside.unlink (h : Beside old path node fs) : Same old (fs.unlink path) where
  names := by
    funext p
    by_cases hp : p = path
    · simp [FileSystem.unlink, hp, h.absent]
    · simp [FileSystem.unlink, hp, h.names]
  files := h.files
  modes := h.modes

theorem Beside.read_move (h : Beside old path node fs) :
    (fs.move path target).read target = some (fs.files node).bytes := by
  simp [FileSystem.read, FileSystem.move, h.names]

/-- Moving the new file changes no other name. -/
theorem Beside.read_move_of_ne (h : Beside old path node fs) {p : Path} (hp : p ≠ target) :
    (fs.move path target).read p = old.read p := by
  by_cases hpath : p = path
  · simp [FileSystem.read, FileSystem.move, hpath, h.absent]
    intro hsame
    exact absurd (hpath.trans hsame) hp
  · cases hnode : old.names p with
    | none => simp [FileSystem.read, FileSystem.move, hp, hpath, h.names, hnode]
    | some n =>
      have hfile := h.files n (old.fresh p n hnode)
      simp [FileSystem.read, FileSystem.move, hp, hpath, h.names, hnode, hfile]

end Beside

/-! ### Triples -/

/-- From a disk with `pre` the program comes to a result and a disk with `post`. -/
def Triple {α : Type} (pre : Disk → Prop) (p : FileM α) (post : α → Disk → Prop) : Prop :=
  ∀ disk, pre disk → post (p disk).1 (p disk).2

section Rules

variable {α β : Type} {pre pre' : Disk → Prop} {p : FileM α} {post post' : α → Disk → Prop}
  {f : α → FileM β} {final : β → Disk → Prop} {P Q : FileSystem → Prop}

theorem Triple.bind (hp : Triple pre p post) (hf : ∀ a, Triple (post a) (f a) final) :
    Triple pre (p >>= f) final :=
  fun disk h => hf (p disk).1 (p disk).2 (hp disk h)

theorem triple_pure {a : α} (h : ∀ disk, pre disk → post a disk) :
    Triple pre (pure a : FileM α) post :=
  fun disk hpre => h disk hpre

theorem Triple.weaken (h : Triple pre p post) (hpre : ∀ disk, pre' disk → pre disk)
    (hpost : ∀ a disk, post a disk → post' a disk) : Triple pre' p post' :=
  fun disk hdisk => hpost _ _ (h disk (hpre disk hdisk))

/-- What is known besides the disk may be used. -/
theorem triple_assume {known : Prop} (h : known → Triple pre p post) :
    Triple (fun disk => pre disk ∧ known) p post :=
  fun disk hdisk => h hdisk.2 disk hdisk.1

/-- A triple may be shown for one file system at a time. -/
theorem triple_each (h : ∀ fs, P fs → Triple (fun disk => disk.fs = fs) p post) :
    Triple (fun disk => P disk.fs) p post :=
  fun disk hdisk => h disk.fs hdisk disk rfl

/-- An attempt, by what its work makes of the file system. A failure leaves it as it was. -/
theorem triple_attempt {work : FileSystem → Except ℕ (α × FileSystem)}
    {Q : α → FileSystem → Prop}
    (h : ∀ fs a fs', P fs → work fs = .ok (a, fs') → Q a fs') :
    Triple (fun disk => P disk.fs) (attempt work)
      fun r disk => r.elim (P disk.fs) fun a => Q a disk.fs := by
  intro disk hpre
  unfold attempt
  split
  · exact hpre
  · rcases hwork : work disk.fs with errno | ⟨a, fs⟩
    · exact hpre
    · exact h disk.fs a fs hpre hwork

/-- An attempt that only looks. -/
theorem triple_look {work : FileSystem → Except ℕ (α × FileSystem)} {K : α → Prop}
    (h : ∀ fs a fs', P fs → work fs = .ok (a, fs') → fs' = fs ∧ K a) :
    Triple (fun disk => P disk.fs) (attempt work)
      fun r disk => P disk.fs ∧ ∀ a, r = some a → K a := by
  refine (triple_attempt (Q := fun a fs => P fs ∧ K a) ?_).weaken (fun _ h => h) ?_
  · intro fs a fs' hP hwork
    obtain ⟨rfl, hK⟩ := h fs a fs' hP hwork
    exact ⟨hP, hK⟩
  · rintro (_ | a) disk hdisk
    · exact ⟨hdisk, fun a ha => by cases ha⟩
    · exact ⟨hdisk.1, fun a' ha => by cases ha; exact hdisk.2⟩

theorem triple_get {g : Disk → FileM β}
    (h : ∀ disk, pre disk → Triple (fun d => d = disk) (g disk) final) :
    Triple pre (get >>= g) final :=
  fun disk hpre => h disk hpre disk rfl

theorem triple_getErrno : Triple pre getErrno fun _ => pre := fun _ h => h

theorem triple_setErrno {errno : ℕ} :
    Triple (fun disk => P disk.fs) (setErrno errno) fun _ disk => P disk.fs := fun _ h => h

theorem triple_remove {path : Path} (h : ∀ fs, P fs → Q (fs.unlink path)) :
    Triple (fun disk => P disk.fs) (remove path) fun _ disk => Q disk.fs :=
  fun disk hpre => h disk.fs hpre

theorem triple_fopen {fs : FileSystem} {path : Path} :
    Triple (fun disk => disk.fs = fs) (fopen path) fun r disk =>
      disk.fs = fs ∧ ∀ stream, r = some stream →
        fs.names path = some stream.node ∧ stream.position = 0 := by
  refine triple_look (P := fun fs' => fs' = fs) fun fs' stream fs'' hfs hwork => ?_
  subst hfs
  cases hnode : fs'.names path with
  | none => simp [hnode] at hwork
  | some node =>
    simp only [hnode, Except.ok.injEq, Prod.mk.injEq] at hwork
    obtain ⟨rfl, rfl⟩ := hwork
    exact ⟨rfl, rfl, rfl⟩

theorem triple_fcloseRead {stream : InStream} :
    Triple (fun disk => P disk.fs) (fcloseRead stream) fun _ disk => P disk.fs :=
  (triple_look (K := fun _ => True) fun fs a fs' _ hwork => by cases hwork; simp).weaken
    (fun _ h => h) fun _ _ h => h.1

theorem triple_fstat {node : ℕ} :
    Triple (fun disk => P disk.fs) (fstat node) fun _ disk => P disk.fs :=
  (triple_look (K := fun _ => True) fun fs a fs' _ hwork => by cases hwork; simp).weaken
    (fun _ h => h) fun _ _ h => h.1

theorem triple_stat {path : Path} :
    Triple (fun disk => P disk.fs) (stat path) fun _ disk => P disk.fs := by
  refine (triple_look (K := fun _ => True) fun fs a fs' _ hwork => ?_).weaken
    (fun _ h => h) fun _ _ h => h.1
  cases hnode : fs.names path with
  | none => simp [hnode] at hwork
  | some node =>
    simp only [hnode, Except.ok.injEq, Prod.mk.injEq] at hwork
    exact ⟨hwork.2.symm, trivial⟩

theorem triple_fdopen {node : ℕ} :
    Triple (fun disk => P disk.fs) (fdopen node) fun r disk =>
      P disk.fs ∧ ∀ stream, r = some stream → stream = { node } :=
  triple_look fun fs a fs' _ hwork => by cases hwork; simp

theorem triple_openExclusive {fs : FileSystem} {path : Path} {mode : ℕ} :
    Triple (fun disk => disk.fs = fs) (openExclusive path mode) fun r disk =>
      r.elim (disk.fs = fs) fun node =>
        fs.names path = none ∧ node = fs.next ∧ disk.fs = fs.create path mode := by
  refine triple_attempt (P := fun fs' => fs' = fs)
    (Q := fun node fs' => fs.names path = none ∧ node = fs.next ∧ fs' = fs.create path mode)
    fun fs' node fs'' hfs hwork => ?_
  subst hfs
  cases hnode : fs'.names path with
  | none =>
    simp only [hnode, Except.ok.injEq, Prod.mk.injEq] at hwork
    exact ⟨rfl, hwork.1.symm, hwork.2.symm⟩
  | some node => simp [hnode] at hwork

theorem triple_chmod {path : Path} {mode : ℕ}
    (h : ∀ fs node, P fs → fs.names path = some node → P (fs.setMode node mode)) :
    Triple (fun disk => P disk.fs) (chmod path mode) fun _ disk => P disk.fs := by
  refine (triple_attempt (Q := fun _ => P) fun fs a fs' hP hwork => ?_).weaken (fun _ h => h)
    (by rintro (_ | a) disk hdisk <;> exact hdisk)
  cases hnode : fs.names path with
  | none => simp [hnode] at hwork
  | some node =>
    simp only [hnode, Except.ok.injEq, Prod.mk.injEq] at hwork
    rw [← hwork.2]
    exact h fs node hP hnode

theorem triple_rename {old path : Path} (h : ∀ fs, P fs → Q (fs.move old path)) :
    Triple (fun disk => P disk.fs) (rename old path) fun r disk =>
      r.elim (P disk.fs) fun _ => Q disk.fs := by
  refine triple_attempt fun fs a fs' hP hwork => ?_
  cases hnode : fs.names old with
  | none => simp [hnode] at hwork
  | some node =>
    simp only [hnode, Except.ok.injEq, Prod.mk.injEq] at hwork
    rw [← hwork.2]
    exact h fs hP

/-- A read delivers the next bytes. Without an error it delivers some while there are any. -/
theorem triple_fread {fs : FileSystem} {count : ℕ} {stream : InStream} (hcount : 0 < count) :
    Triple (fun disk => disk.fs = fs) (fread count stream) fun r disk =>
      disk.fs = fs ∧ r.2.node = stream.node ∧ stream.rest fs = r.1 ++ r.2.rest fs ∧
        (r.2.error = false → stream.error = false ∧ (r.1 = [] → stream.rest fs = [])) := by
  intro disk hfs
  subst hfs
  have hrest : ∀ moved error, InStream.rest
      { stream with position := stream.position + moved, error } disk.fs =
        (stream.rest disk.fs).drop moved := fun moved error => by
    simp [InStream.rest, List.drop_drop]
  have hnone : ∀ moved, (min count (stream.rest disk.fs).length ≠ 0 → moved ≠ 0) →
      (stream.rest disk.fs).take moved = [] → stream.rest disk.fs = [] := by
    intro moved hmoved htake
    rcases List.take_eq_nil_iff.mp htake with hzero | hnil
    · exact List.length_eq_zero_iff.mp (by omega)
    · exact hnil
  unfold fread
  cases disk.outcome with
  | fails errno moved => simp [hrest]
  | well =>
    simp only [hrest, Outcome.moved, Disk.passed_fs, List.take_append_drop, true_and]
    exact fun herror => ⟨herror, hnone _ id⟩
  | short moved =>
    simp only [hrest, Outcome.moved, Disk.passed_fs, List.take_append_drop, true_and]
    exact fun herror => ⟨herror, hnone _ (by omega)⟩

theorem triple_fwrite {fs : FileSystem} {bytes : List UInt8} {stream : OutStream} :
    Triple (fun disk => disk.fs = fs) (fwrite bytes stream) fun r disk =>
      disk.fs = fs ∧ r.2.node = stream.node ∧
        (r.1 = bytes.length → r.2.written = stream.written ++ bytes) := by
  intro disk hfs
  subst hfs
  unfold fwrite
  cases disk.outcome <;> simp +contextual

/-- Closing writes all the bytes, or fails and writes some. -/
theorem triple_fclose {fs : FileSystem} {stream : OutStream} :
    Triple (fun disk => disk.fs = fs) (fclose stream) fun closed disk =>
      (disk.fs = fs ∨ ∃ file, disk.fs = fs.setFile stream.node file) ∧
        (closed = true → (disk.fs.files stream.node).bytes = stream.written) := by
  intro disk hfs
  subst hfs
  have hput : ∀ bytes, (File.ofBytes? bytes).elim disk.fs (disk.fs.setFile stream.node) = disk.fs ∨
      ∃ file, (File.ofBytes? bytes).elim disk.fs (disk.fs.setFile stream.node) =
        disk.fs.setFile stream.node file := fun bytes => by
    cases File.ofBytes? bytes with
    | none => exact .inl rfl
    | some file => exact .inr ⟨file, rfl⟩
  have hall (h : stream.written.length < 2 ^ 63) :
      (File.ofBytes? stream.written).elim disk.fs (disk.fs.setFile stream.node) =
        disk.fs.setFile stream.node ⟨stream.written, h⟩ := by
    rw [File.ofBytes?, dif_pos h]
    rfl
  unfold fclose
  by_cases hfits : stream.written.length < 2 ^ 63
  · cases disk.outcome with
    | fails errno moved => exact ⟨hput _, by simp⟩
    | well =>
      simp only [if_pos hfits, hall hfits]
      exact ⟨.inr ⟨_, rfl⟩, fun _ => by simp [FileSystem.setFile]⟩
    | short moved =>
      simp only [if_pos hfits, hall hfits]
      exact ⟨.inr ⟨_, rfl⟩, fun _ => by simp [FileSystem.setFile]⟩
  · cases disk.outcome with
    | fails errno moved => exact ⟨hput _, by simp⟩
    | well =>
      simp only [if_neg hfits]
      exact ⟨.inl rfl, fun h => nomatch h⟩
    | short moved =>
      simp only [if_neg hfits]
      exact ⟨.inl rfl, fun h => nomatch h⟩

end Rules

end Files
