import Plang.Library.Runs
import Plang.Runtime.TurboText

/-!
# A program of file operations

A running program with its file variables.  The machine takes one event after the other: a call of
an entry point with one of the variables, a look at `InOutRes`, or a change of the system around
it.
-/

namespace Plang

namespace Runtime

open Stdio

/-- The entry points that read values. -/
inductive Reading where
  | i64
  | u64
  | f64
  | char
  | strFixed (n : Nat)
  | sstr (cap : Int)
  | binary (elemSize : Nat)

/-- The entry points that write. -/
inductive Writing where
  | writeln
  | char (value : Char)
  | str (value : Option Text)
  | i64 (value : Int)
  | u64 (value : Nat)
  | bool (value upper : Bool)
  | f64E (value : UInt64) (width : Int) (upper : Bool)
  | f32E (value : UInt64) (width : Int) (upper : Bool)
  | f64 (value : UInt64) (upper : Bool)
  | f32 (value : UInt64) (upper : Bool)
  | i64W (value width : Int)
  | u64W (value : Nat) (width : Int)
  | f64F (value : UInt64) (width decimals : Int) (upper : Bool)
  | boolW (value : Bool) (width : Int) (upper noTrunc : Bool)
  | strW (value : Option Text) (width : Int) (noTrunc : Bool)
  | charW (value : Char) (width : Int) (alwaysWrite : Bool)
  | strFixed (value : Text)
  | sstr (value : Text)
  | strFixedW (value : Text) (width : Int)
  | sstrW (value : Text) (width : Int)
  | binary (bytes : Text)

/-- The entry points that work on a file variable. -/
inductive FileOperation where
  | assign (name : Option Text)
  | reset
  | rewrite
  | append
  | resetSized (recSize : Int)
  | rewriteSized (recSize : Int)
  | close
  | erase
  | rename (newName : Option Text)
  | filepos
  | filesize
  | seek (n : Int)
  | truncate
  | blockread (count : Int) (hasResult : Bool)
  | blockwrite (buf : Text) (count : Int) (hasResult : Bool)
  | flush
  /-- `ahead` bytes of the file have been read ahead of the program. -/
  | settextbuf (size : Int) (ahead : Nat)
  | eof
  | eoln
  | seekeof
  | seekeoln
  | readln
  | read (reading : Reading)
  | write (writing : Writing)

namespace TurboCall

/-- Read a value. -/
def read (c : TurboCall) : Reading → TurboCall
  | .i64 => c.plangReadFileI64Turbo.2
  | .u64 => c.plangReadFileU64Turbo.2
  | .f64 => c.plangReadFileF64Turbo.2
  | .char => c.plangReadFileCharTurbo.2
  | .strFixed n => (c.plangStrReadFixedFileTurbo n).2
  | .sstr cap => (c.plangSstrReadFile cap).2
  | .binary elemSize => (c.plangReadBinaryTurbo elemSize).2

/-- Write a value. -/
def write (c : TurboCall) : Writing → TurboCall
  | .writeln => c.plangWritelnFileTurbo
  | .char value => c.plangWriteFileCharTurbo value
  | .str value => c.plangWriteFileStrTurbo value
  | .i64 value => c.plangWriteFileI64Turbo value
  | .u64 value => c.plangWriteFileU64Turbo value
  | .bool value upper => c.plangWriteFileBoolTurbo value upper
  | .f64E value width upper => c.plangWriteFileF64ETurbo value width upper
  | .f32E value width upper => c.plangWriteFileF32ETurbo value width upper
  | .f64 value upper => c.plangWriteFileF64Turbo value upper
  | .f32 value upper => c.plangWriteFileF32Turbo value upper
  | .i64W value width => c.plangWriteFileI64WTurbo value width
  | .u64W value width => c.plangWriteFileU64WTurbo value width
  | .f64F value width decimals upper => c.plangWriteFileF64FTurbo value width decimals upper
  | .boolW value width upper noTrunc => c.plangWriteFileBoolWTurbo value width upper noTrunc
  | .strW value width noTrunc => c.plangWriteFileStrWTurbo value width noTrunc
  | .charW value width alwaysWrite => c.plangWriteFileCharWTurbo value width alwaysWrite
  | .strFixed value => c.plangStrWriteFileTurbo value
  | .sstr value => c.plangSstrWriteFile value
  | .strFixedW value width => c.plangStrWriteFileWTurbo value width
  | .sstrW value width => c.plangSstrWriteFileW value width
  | .binary bytes => c.plangWriteBinaryTurbo bytes

/-- Call an entry point. -/
def perform (c : TurboCall) : FileOperation → TurboCall
  | .assign name => c.plangTpAssign name
  | .reset => c.plangTpReset
  | .rewrite => c.plangTpRewrite
  | .append => c.plangTpAppend
  | .resetSized recSize => c.plangTpResetSized recSize
  | .rewriteSized recSize => c.plangTpRewriteSized recSize
  | .close => c.plangTpClose
  | .erase => c.plangTpErase
  | .rename newName => c.plangTpRename newName
  | .filepos => c.plangTpFilepos.2
  | .filesize => c.plangTpFilesize.2
  | .seek n => c.plangTpSeek n
  | .truncate => c.plangTpTruncate
  | .blockread count hasResult => (c.plangTpBlockread count hasResult).2
  | .blockwrite buf count hasResult => (c.plangTpBlockwrite buf count hasResult).2
  | .flush => c.plangTpFlush
  | .settextbuf size ahead => c.plangTpSettextbuf size ahead
  | .eof => c.plangEofFileTurbo.2
  | .eoln => c.plangEolnFileTurbo.2
  | .seekeof => c.plangTpSeekeof.2
  | .seekeoln => c.plangTpSeekeoln.2
  | .readln => c.plangReadlnFileTurbo
  | .read reading => c.read reading
  | .write writing => c.write writing

end TurboCall

/-- A running program with the file variables `V`. -/
structure TurboState (V : Type*) where
  /-- The C library. -/
  libc : Libc
  /-- How reals look. -/
  reals : RealText
  /-- `InOutRes`. -/
  inOutRes : Int := 0
  /-- `FileMode`. -/
  fileMode : Int := 2
  /-- The console's cursor. -/
  cursor : CrtCursor := {}
  /-- The run-time error that ended the program. -/
  stopped : Option Int := none
  /-- The file variables. -/
  files : V → PascalFile

/-- The events of a program. -/
inductive Event (V : Type*) where
  | call (f : V) (op : FileOperation)
  | ioResult
  | ioCheck
  | setFileMode (mode : Int)
  | system (libc : Libc)

namespace TurboState

variable {V : Type*} [DecidableEq V]

omit [DecidableEq V] in
/-- The state of a call with a file variable. -/
def enter (state : TurboState V) (f : V) : TurboCall :=
  { libc := state.libc, file := state.files f, reals := state.reals, inOutRes := state.inOutRes,
    fileMode := state.fileMode, cursor := state.cursor, stopped := state.stopped }

/-- Put the state of a call on a file back into the program's. -/
def leave (state : TurboState V) (f : V) (c : TurboCall) : TurboState V :=
  { libc := c.libc, reals := c.reals, inOutRes := c.inOutRes, fileMode := c.fileMode
    cursor := c.cursor, stopped := c.stopped, files := Function.update state.files f c.file }

/-- An entry point is called. -/
def perform (state : TurboState V) (f : V) (op : FileOperation) : TurboState V :=
  state.leave f ((state.enter f).perform op)

omit [DecidableEq V] in
/-- `IOResult`: the pending error, which is pending no more. -/
def plangTpIoresult (state : TurboState V) : Int × TurboState V :=
  (state.inOutRes, { state with inOutRes := 0 })

omit [DecidableEq V] in
/-- The check behind a statement in `{$I+}`. -/
def plangIocheck (state : TurboState V) : TurboState V :=
  let (code, read) := state.plangTpIoresult
  if code = 0 then read else { read with stopped := some code }

/-- The effect of an event on a running program. -/
def handle (state : TurboState V) : Event V → TurboState V
  | .call f op => state.perform f op
  | .ioResult => state.plangTpIoresult.2
  | .ioCheck => state.plangIocheck
  | .setFileMode mode => { state with fileMode := mode }
  | .system libc => { state with libc := { libc with output := state.libc.output } }

/-- One event; nothing happens to a program that has ended. -/
def step (state : TurboState V) (event : Event V) : TurboState V :=
  if state.stopped.isSome then state else state.handle event

/-- A run of the program. -/
def run (state : TurboState V) (events : List (Event V)) : TurboState V :=
  Runs.run step state events

@[simp] theorem leave_enter (state : TurboState V) (f : V) :
    state.leave f (state.enter f) = state := by
  simp [leave, enter, Function.update_eq_self]

@[simp] theorem enter_leave (state : TurboState V) (f : V) (c : TurboCall) :
    (state.leave f c).enter f = c := by
  simp [leave, enter, Function.update_self]

/-- The other file variables are left alone. -/
theorem leave_files_of_ne (state : TurboState V) {f g : V} (different : g ≠ f) (c : TurboCall) :
    (state.leave f c).files g = state.files g :=
  Function.update_of_ne different ..

theorem step_of_stopped {state : TurboState V} (ended : state.stopped.isSome) (event : Event V) :
    state.step event = state :=
  if_pos ended

theorem step_of_running {state : TurboState V} (running : state.stopped = none)
    (event : Event V) : state.step event = state.handle event :=
  if_neg (by simp [running])

end TurboState

end Runtime

end Plang
