import Plang.Runtime.CrtCursor
import Plang.Runtime.Numbers
import Plang.Runtime.PascalFile

/-!
# Turbo Pascal's files

The entry points of Turbo Pascal's file model.  A failing one leaves the code of its error in
`InOutRes`, and while a code is there all of them but `Assign` and `SetTextBuf` do nothing.
-/

namespace Plang

namespace Runtime

open Stdio

/-- The state in which an entry point of Turbo Pascal runs. -/
structure TurboCall extends Call where
  /-- How reals look. -/
  reals : RealText
  /-- `InOutRes`. -/
  inOutRes : Int := 0
  /-- `FileMode`. -/
  fileMode : Int := 2
  /-- The console's cursor. -/
  cursor : CrtCursor := {}
  /-- The run-time error that ended the program. -/
  stopped : Option Int := none

namespace TurboCall

/-- Change the file variable. -/
def withFile (c : TurboCall) (change : PascalFile → PascalFile) : TurboCall :=
  { c with file := change c.file }

/-- Use what all file models share. -/
def shared (c : TurboCall) (use : Call → Call) : TurboCall := { c with toCall := use c.toCall }

/-- An error is recorded unless one is pending. -/
def setInOutResIfClear (c : TurboCall) (code : Int) : TurboCall :=
  if c.inOutRes = 0 then { c with inOutRes := code } else c

/-- An error is pending. -/
def tpSuppressedByPendingError (c : TurboCall) : Bool := decide (c.inOutRes ≠ 0)

/-- The code of an error of the operating system. -/
def plangTpPosixToRunError (posixErrno : Int) : Int :=
  if posixErrno = ENOENT then 2
  else if posixErrno = ENAMETOOLONG then 3
  else if posixErrno ∈ [ENFILE, EMFILE] then 4
  else if posixErrno ∈ [EACCES, EROFS, EEXIST, ENOTEMPTY, EBUSY, ENOTDIR, EISDIR] then 5
  else if posixErrno ∈ [EPIPE, EINTR, EIO, EAGAIN, ENOSPC] then 101
  else if posixErrno = EINVAL then 218
  else posixErrno

/-- The system has failed. -/
def failed (c : TurboCall) (libc : Libc) : TurboCall :=
  { c with libc }.setInOutResIfClear (plangTpPosixToRunError libc.errno)

/-- The program ends with a run-time error. -/
def plangTpRunerror (c : TurboCall) (code : Int) : TurboCall := { c with stopped := some code }

/-- The file can be used: no error is pending and the file is open. -/
def tpFileReady (c : TurboCall) : Bool × TurboCall :=
  if c.tpSuppressedByPendingError then (false, c)
  else if c.file.fp.isNone then (false, c.setInOutResIfClear 103)
  else (true, c.shared Call.clearerr)

/-- The guard of most entry points: they do nothing unless the file can be used. -/
def ifReady (c : TurboCall) (body : TurboCall → TurboCall) : TurboCall :=
  match c.tpFileReady with
  | (true, ready) => body ready
  | (false, unready) => unready

/-- The guard of a function, with its answer where the file cannot be used. -/
def ifReadyOr {α : Type} (c : TurboCall) (answer : α) (body : TurboCall → α × TurboCall) :
    α × TurboCall :=
  match c.tpFileReady with
  | (true, ready) => body ready
  | (false, unready) => (answer, unready)

/-- The error of a stream used in the wrong direction, or one of the system. -/
def tpTrapOnStreamError (c : TurboCall) (wantWrite : Bool) : TurboCall :=
  if c.ferror then
    if c.libc.errno = 0 ∨ c.libc.errno = EBADF then
      c.setInOutResIfClear (if wantWrite then 105 else 104)
    else
      c.setInOutResIfClear (plangTpPosixToRunError c.libc.errno)
  else
    c

/-- The error of an internal file used in the wrong direction. -/
def tpTrapOnWrongDirection (c : TurboCall) (wantWrite : Bool) : TurboCall :=
  if c.file.binding ≠ .temp ∨ c.file.readable = .both then c
  else if (wantWrite ∧ c.file.readable = .read) ∨ (¬wantWrite ∧ c.file.readable = .write) then
    c.setInOutResIfClear (if wantWrite then 105 else 104)
  else c

/-! ## Opening and closing -/

/-- The file is open on a stream. -/
def opened (c : TurboCall) (stream : Stream) (readable : Readable) (mode : FileMode) : TurboCall :=
  c.withFile fun file =>
    { file with fp := some stream, readable, buf := .uninit, mode, compLoaded := false }

/-- The file is open on a standard stream. -/
def openedStd (c : TurboCall) (stream : Stream) (readable : Readable) (mode : FileMode) :
    TurboCall :=
  (c.opened stream readable mode).withFile fun file => { file with binding := .std }

/-- `Assign(f, name)`. -/
def plangTpAssign (c : TurboCall) (name : Option Text) : TurboCall :=
  (c.shared Call.closeStream).withFile fun file =>
    { file with name := storedName name, mode := .fmClosed }

/-- `Reset` for writing only, which the C library has no mode for. -/
def resetWriteOnly (c : TurboCall) : TurboCall :=
  match c.libc.fopen .writeOnly c.file.name with
  | (none, libc) => c.failed libc
  | (some stream, libc) =>
      if Libc.isDirectory stream then { c with libc }.setInOutResIfClear 5
      else
        match libc.fdopen c.file.name with
        | (false, libc) => c.failed libc
        | (true, libc) => { c with libc }.opened stream .write .fmInput

/-- `Reset` for reading, and writing too. -/
def resetRead (c : TurboCall) (readWrite : Bool) : TurboCall :=
  match c.libc.fopen (if readWrite then .readUpdate else .read) c.file.name with
  | (none, libc) => c.failed libc
  | (some stream, libc) =>
      if Libc.isDirectory stream then { c with libc }.setInOutResIfClear 5
      else { c with libc }.opened stream (if readWrite then .both else .read) .fmInput

/-- `Reset(f)`; a text is read whatever `FileMode` says. -/
def plangTpReset (c : TurboCall) : TurboCall :=
  if c.tpSuppressedByPendingError then c
  else
    let closed := c.shared Call.closeStream
    let effectiveFileMode := if 0 < closed.file.recSize then closed.fileMode else 0
    if closed.file.name = [] then closed.openedStd .stdin .read .fmInput
    else if effectiveFileMode = 1 then closed.resetWriteOnly
    else closed.resetRead (effectiveFileMode == 2)

/-- Open the file for writing. -/
def openFor (c : TurboCall) (request : Request) (readable : Readable) (mode : FileMode) :
    TurboCall :=
  match c.libc.fopen request c.file.name with
  | (none, libc) => c.failed libc
  | (some stream, libc) => { c with libc }.opened stream readable mode

/-- `Rewrite(f)`. -/
def plangTpRewrite (c : TurboCall) : TurboCall :=
  if c.tpSuppressedByPendingError then c
  else
    let closed := c.shared Call.closeStream
    if closed.file.name = [] then closed.openedStd .stdout .write .fmOutput
    else if 0 < closed.file.recSize then closed.openFor .writeUpdate .both .fmOutput
    else closed.openFor .write .write .fmOutput

/-- `Append` for a file with a name; it has to be there. -/
def appendNamed (c : TurboCall) : TurboCall :=
  match c.libc.access c.file.name with
  | (false, libc) => c.failed libc
  | (true, libc) => { c with libc }.openFor .append .write .fmOutput

/-- `Append(f)`, which creates no file. -/
def plangTpAppend (c : TurboCall) : TurboCall :=
  if c.tpSuppressedByPendingError then c
  else
    let closed := c.shared Call.closeStream
    if closed.file.name = [] then closed.openedStd .stdout .write .fmOutput
    else closed.appendNamed

/-- A record size for an opening; zero is refused, and closes the file. -/
def sized (c : TurboCall) (recSize : Int) (openIt : TurboCall → TurboCall) : TurboCall :=
  if c.tpSuppressedByPendingError then c
  else if recSize = 0 then (c.shared Call.closeStream).setInOutResIfClear 2
  else openIt (c.withFile fun file => { file with recSize })

/-- `Reset(f, recSize)`. -/
def plangTpResetSized (c : TurboCall) (recSize : Int) : TurboCall := c.sized recSize plangTpReset

/-- `Rewrite(f, recSize)`. -/
def plangTpRewriteSized (c : TurboCall) (recSize : Int) : TurboCall :=
  c.sized recSize plangTpRewrite

/-- `Close(f)`. -/
def plangTpClose (c : TurboCall) : TurboCall :=
  c.ifReady fun c =>
    (c.shared Call.closeStream).withFile fun file =>
      { file with buf := .uninit, readable := .write, mode := .fmClosed, compLoaded := false }

/-- `Erase(f)`. -/
def plangTpErase (c : TurboCall) : TurboCall :=
  if c.tpSuppressedByPendingError then c
  else if c.file.mode ≠ .fmClosed then c.setInOutResIfClear 102
  else
    match c.libc.remove c.file.name with
    | (false, libc) => c.failed libc
    | (true, libc) => { c with libc }

/-- `Rename(f, newName)`. -/
def plangTpRename (c : TurboCall) (newName : Option Text) : TurboCall :=
  if c.tpSuppressedByPendingError then c
  else if c.file.mode ≠ .fmClosed then c.setInOutResIfClear 102
  else
    match c.libc.rename c.file.name (newName.getD []) with
    | (false, libc) => c.failed libc
    | (true, libc) => { c with libc }.withFile fun file => { file with name := storedName newName }

/-! ## Positions -/

/-- The window is to be filled again. -/
def unprime (c : TurboCall) : TurboCall :=
  c.withFile fun file => { file with buf := .uninit, compLoaded := false }

/-- `FilePos(f)`. -/
def plangTpFilepos (c : TurboCall) : Int × TurboCall :=
  c.ifReadyOr 0 fun c =>
    match c.ftell with
    | none => (0, c)
    | some pos => (if c.file.recSize ≤ 0 then 0 else pos / c.file.recSize, c)

/-- `FileSize(f)`. -/
def plangTpFilesize (c : TurboCall) : Int × TurboCall :=
  c.ifReadyOr 0 fun c =>
    match c.sizeOf with
    | none => (0, c)
    | some size => (if c.file.recSize ≤ 0 then 0 else size / c.file.recSize, c)

/-- The offset of a component, unless computing it overflows. -/
def seekOffset (n elemSize indexLow : Int) : Option Int :=
  let inRange (value : Int) := decide (-9223372036854775808 ≤ value ∧ value ≤ 9223372036854775807)
  if inRange (n - indexLow) && inRange ((n - indexLow) * elemSize) then
    some ((n - indexLow) * elemSize)
  else none

/-- `Seek(f, n)`. -/
def plangTpSeek (c : TurboCall) (n : Int) : TurboCall :=
  c.ifReady fun c =>
    match seekOffset n (if 0 < c.file.recSize then c.file.recSize else 1) 0 with
    | none => c.setInOutResIfClear 218
    | some offset =>
        match c.fseek offset with
        | (false, call) => { c with toCall := call }.failed call.libc
        | (true, call) => { c with toCall := call }.unprime

/-- Cut the file off at the position. -/
def truncateHere (c : TurboCall) : TurboCall :=
  match c.file.fp, c.ftell with
  | some stream, some pos =>
      match c.libc.ftruncate stream pos with
      | (false, libc) => c.failed libc
      | (true, libc) => { c with libc }.unprime
  | _, _ => c.failed { c.libc with errno := ESPIPE }

/-- `Truncate(f)`. -/
def plangTpTruncate (c : TurboCall) : TurboCall :=
  c.ifReady fun c =>
    if c.file.readable = .read then c.setInOutResIfClear 103
    else (c.shared fun call => call.fflush.2).truncateHere

/-- How many bytes a number of records has. -/
def blockBytes (count recSize : Int) : Nat := (count * recSize % 18446744073709551616).toNat

/-- `BlockRead(f, buf, count)`: the bytes, and how many whole records. -/
def plangTpBlockread (c : TurboCall) (count : Int) (hasResult : Bool) :
    (Text × Int) × TurboCall :=
  c.ifReadyOr ([], 0) fun c =>
    if count ≤ 0 then (([], 0), c)
    else if c.file.recSize < 0 then (([], 0), c.plangTpRunerror 217)
    else if c.file.recSize = 0 then (([], 0), c)
    else
      let (bytes, call) := c.fread (blockBytes count c.file.recSize)
      let actual : Int := bytes.length / c.file.recSize
      let after := { c with toCall := call }.unprime
      ((bytes, actual),
        if !hasResult && decide (actual < count) then after.setInOutResIfClear 100 else after)

/-- `BlockWrite(f, buf, count)`: how many whole records. -/
def plangTpBlockwrite (c : TurboCall) (buf : Text) (count : Int) (hasResult : Bool) :
    Int × TurboCall :=
  c.ifReadyOr 0 fun c =>
    if count ≤ 0 then (0, c)
    else if c.file.recSize < 0 then (0, c.plangTpRunerror 217)
    else if c.file.recSize = 0 then (0, c)
    else
      let checked := c.tpTrapOnWrongDirection true
      let (got, call) := checked.fwrite (buf.take (blockBytes count c.file.recSize))
      let actual : Int := got / c.file.recSize
      let after := ({ checked with toCall := call }.tpTrapOnStreamError true).unprime
      (actual,
        if !hasResult && decide (actual < count) then after.setInOutResIfClear 101 else after)

/-- A file that can only be read has nothing to flush. -/
def tpFlushWrongDirection (c : TurboCall) : TurboCall :=
  if c.file.readable = .read then c.setInOutResIfClear 105 else c

/-- `Flush(f)`. -/
def plangTpFlush (c : TurboCall) : TurboCall :=
  c.ifReady fun c =>
    let checked := c.tpFlushWrongDirection
    match checked.fflush with
    | (false, call) => { checked with toCall := call }.failed call.libc
    | (true, call) => { checked with toCall := call }

/-- `SetTextBuf(f, buf, size)`, when `ahead` bytes of the file have been read ahead: nothing where
the file is not open. -/
def plangTpSettextbuf (c : TurboCall) (size : Int) (ahead : Nat) : TurboCall :=
  match c.file.fp with
  | none => c
  | some stream => if size ≤ 0 then c else { c with libc := c.libc.setvbuf stream ahead }

end TurboCall

end Runtime

end Plang
