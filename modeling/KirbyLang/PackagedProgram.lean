import KirbyLang.Lib.Files
import KirbyLang.Printing
import KirbyLang.UnitBytes

/-!
# Packaged programs

`packaged_program.c`: a runtime executable with compiled units attached to its end, then a trailer
that says how long they are. Each file operation may fail or be short, as its outcome on the
`Disk` says. `malloc` does not fail here.
-/

namespace KirbyLang

open Files

/-! ### Units -/

def PACKAGED_TRAILER_SIZE : ℕ := 16

/-- `KRBAPP01`. -/
def TRAILER_MAGIC : Bytes := [0x4b, 0x52, 0x42, 0x41, 0x50, 0x50, 0x30, 0x31]

def COPY_CHUNK_SIZE : ℕ := 65536

/-- The length is put in front once the unit is encoded. -/
def packagedAddUnit (version : Bytes) (payload : Bytes) (unit : CompiledUnit) : Bytes :=
  let encoded := unitEncode version unit
  payload ++ (putU32 (encoded.length % 2 ^ 32) ++ encoded)

inductive PackagedUnitStatus
  /-- the unit's bytes, and the cursor after it -/
  | ok (bytes : Bytes) (cursor : ℕ)
  /-- no more units -/
  | finished
  /-- the next unit runs past the end of the payload -/
  | damaged
  deriving DecidableEq, Repr

/-- The cursor is never past the end (`CursorAt.le`), so that the subtractions do not go below
zero. -/
def packagedNextUnit (payload : Bytes) (cursor : ℕ) : PackagedUnitStatus :=
  if cursor = payload.length then .finished
  else if payload.length - cursor < 4 then .damaged
  else
    let unitLength := LittleEndian.orFrom 0 0 ((payload.drop cursor).take 4)
    let position := cursor + 4
    if payload.length - position < unitLength then .damaged
    else .ok ((payload.drop position).take unitLength) (position + unitLength)

/-! ### Writing -/

def trailer (payloadLength : ℕ) : Bytes :=
  TRAILER_MAGIC ++ LittleEndian.shifted 8 (payloadLength % 2 ^ 64)

/-- Copy everything left in a stream, one chunk at a time. -/
def copyChunks : ℕ → InStream → OutStream → FileM (Bool × InStream × OutStream)
  | 0, source, target => pure (true, source, target)
  | rounds + 1, source, target => do
    let (chunk, source) ← fread COPY_CHUNK_SIZE source
    if chunk.length = 0 then pure (true, source, target)
    else do
      let (count, target) ← fwrite chunk target
      if count = chunk.length then copyChunks rounds source target
      else pure (false, source, target)

/-- Each round copies a byte or is the last, so the bytes left bound the rounds. -/
def copyStream (source : InStream) (target : OutStream) :
    FileM (Bool × InStream × OutStream) := do
  let disk ← get
  let (ok, source, target) ← copyChunks ((source.rest disk.fs).length + 1) source target
  pure (ok && !source.error, source, target)

/-- Whether everything was written. -/
def fwriteAll (bytes : Bytes) (target : OutStream) : FileM (Bool × OutStream) := do
  let (count, target) ← fwrite bytes target
  pure (decide (count = bytes.length), target)

def writeTrailer (target : OutStream) (payloadLength : ℕ) : FileM (Bool × OutStream) :=
  fwriteAll (trailer payloadLength) target

/-- Execute permission wherever there is read permission. -/
def makeExecutable (path : Path) : FileM Bool := do
  match ← stat path with
  | none => pure false
  | some info =>
    let mode := info.mode &&& 0o777
    let changed ← chmod path (mode ||| ((mode &&& 0o444) >>> 2))
    pure changed.isSome

/-- `%s.tmp%ld-%d`. -/
def temporaryPathOf (outputPath : Path) (pid attempt : ℕ) : Path :=
  outputPath ++ (text ".tmp" ++ (decimal pid ++ (text "-" ++ decimal attempt)))

/-- The attempts from one number on. `mode` is what the user's umask leaves of 0666. -/
def openAttempts (outputPath : Path) (pid mode : ℕ) : ℕ → ℕ → FileM (Option (Path × OutStream))
  | 0, _ => pure none
  | left + 1, attempt => do
    let path := temporaryPathOf outputPath pid attempt
    match ← openExclusive path mode with
    | none =>
      if (← getErrno) = EEXIST then openAttempts outputPath pid mode left (attempt + 1)
      else pure none
    | some descriptor =>
      match ← fdopen descriptor with
      | some file => pure (some (path, file))
      | none => do
        let problem ← getErrno
        remove path
        setErrno problem
        pure none

/-- A new file next to the output, which is only moved there once it is complete. -/
def openTemporaryOutput (outputPath : Path) (pid mode : ℕ) : FileM (Option (Path × OutStream)) :=
  openAttempts outputPath pid mode 100 0

/-- What the process and its C library bring to the writing of a file. -/
structure Process where
  pid : ℕ
  /-- What the user's umask leaves of 0666. -/
  mode : ℕ
  strerror : ℕ → Bytes

def snprintf (size : ℕ) (chars : Bytes) : Bytes := chars.take (size - 1)

/-- `fstat` and `stat` succeed and find the same file. -/
def isRuntimeItself (runtime : InStream) (outputPath : Path) : FileM Bool := do
  match ← fstat runtime.node with
  | none => pure false
  | some runtimeInfo =>
    match ← stat outputPath with
    | none => pure false
    | some outputInfo => pure (decide (runtimeInfo.node = outputInfo.node))

/-- The runtime, the payload and the trailer, one after the other until one fails. -/
def writeProgram (runtime : InStream) (output : OutStream) (payload : Bytes) :
    FileM (Bool × InStream × OutStream) := do
  let (copied, runtime, output) ← copyStream runtime output
  if copied then do
    let (written, output) ← fwriteAll payload output
    if written then do
      let (ended, output) ← writeTrailer output payload.length
      pure (ended, runtime, output)
    else pure (false, runtime, output)
  else pure (false, runtime, output)

/-- A step taken while all is well, with the `errno` of the step that failed. -/
def unlessFailed (ok : Bool) (problem : ℕ) (step : FileM Bool) : FileM (Bool × ℕ) :=
  if ok then do
    let done ← step
    if done then pure (true, problem) else do pure (false, ← getErrno)
  else pure (false, problem)

/-- Close the output whether or not all is well; a failure counts when it is the first. -/
def closeOutput (ok : Bool) (problem : ℕ) (output : OutStream) : FileM (Bool × ℕ) := do
  let closed ← fclose output
  if !closed && ok then do pure (false, ← getErrno) else pure (ok, problem)

/-- The error message, or `none` when the program was written. -/
def packagedWrite (process : Process) (runtimePath outputPath : Path) (payload : Bytes)
    (errorSize : ℕ) : FileM (Option Bytes) := do
  match ← fopen runtimePath with
  | none =>
    let errno ← getErrno
    pure (some (snprintf errorSize (text "could not open the runtime \"" ++ runtimePath ++
      text "\": " ++ process.strerror errno)))
  | some runtime =>
    if ← isRuntimeItself runtime outputPath then do
      let _ ← fcloseRead runtime
      pure (some (snprintf errorSize (text "the output \"" ++ outputPath ++
        text "\" is the runtime itself")))
    else do
      match ← openTemporaryOutput outputPath process.pid process.mode with
      | none =>
        let errno ← getErrno
        let _ ← fcloseRead runtime
        pure (some (snprintf errorSize (text "could not write \"" ++ outputPath ++ text "\": " ++
          process.strerror errno)))
      | some (temporaryPath, output) =>
        let (ok, runtime, output) ← writeProgram runtime output payload
        let (ok, problem) ← closeOutput ok (← getErrno) output
        let _ ← fcloseRead runtime
        let (ok, problem) ← unlessFailed ok problem (makeExecutable temporaryPath)
        let (ok, problem) ← unlessFailed ok problem do
          return (← rename temporaryPath outputPath).isSome
        if ok then pure none
        else do
          remove temporaryPath
          pure (some (snprintf errorSize (text "could not write \"" ++ outputPath ++ text "\": " ++
            process.strerror problem)))

/-! ### Reading -/

inductive PackagedReadStatus
  | ok
  /-- the file has no trailer -/
  | noProgram
  /-- the trailer asks for more bytes than the file has -/
  | damaged
  /-- the file could not be opened or read -/
  | ioError
  deriving DecidableEq, Repr

/-- The payload so far, and whether all `left` bytes came. -/
def readChunks : ℕ → InStream → ℕ → Bytes → FileM (Bool × Bytes)
  | 0, _, _, payload => pure (true, payload)
  | rounds + 1, file, left, payload =>
    if left = 0 then pure (true, payload)
    else do
      let want := min left 4096
      let (chunk, file) ← fread want file
      if chunk.length = want then readChunks rounds file (left - want) (payload ++ chunk)
      else pure (false, payload)

/-- The payload is what was read of it, whatever the status. -/
def packagedRead (path : Path) : FileM (PackagedReadStatus × Bytes) := do
  match ← fopen path with
  | none => pure (.ioError, [])
  | some file =>
    let result ← readFrom file
    let _ ← fcloseRead file
    pure result
where
  /-- The body, from an open file. -/
  readFrom (file : InStream) : FileM (PackagedReadStatus × Bytes) := do
    let some file ← fseekEnd file | pure (.ioError, [])
    let some size ← ftell file | pure (.ioError, [])
    if size < PACKAGED_TRAILER_SIZE then pure (.noProgram, [])
    else
      let some file ← fseek file (size - PACKAGED_TRAILER_SIZE) | pure (.ioError, [])
      let (trailer, file) ← fread PACKAGED_TRAILER_SIZE file
      if trailer.length ≠ PACKAGED_TRAILER_SIZE then pure (.ioError, [])
      else if trailer.take 8 ≠ TRAILER_MAGIC then pure (.noProgram, [])
      else
        let length := LittleEndian.orFrom 0 0 (trailer.drop 8)
        if size - PACKAGED_TRAILER_SIZE < length then pure (.damaged, [])
        else
          let some file ← fseek file (size - PACKAGED_TRAILER_SIZE - length) |
            pure (.ioError, [])
          let (ok, payload) ← readChunks (length + 1) file length []
          pure (if ok then .ok else .ioError, payload)

end KirbyLang
