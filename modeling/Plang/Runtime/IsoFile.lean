import Plang.Runtime.NameTable
import Plang.Runtime.PascalFile

/-!
# Standard and Extended Pascal's files

The entry points that open, write and close the files of standard and Extended Pascal.  An error
ends the program.
-/

namespace Plang

namespace Runtime

open Stdio

/-- Where an entry point of standard or Extended Pascal runs. -/
structure IsoCall extends Call where
  /-- Which file variable this is. -/
  self : Nat
  /-- The paths of the files being written. -/
  writePaths : NameTable
  /-- The names of the external entities that files are bound to. -/
  bindings : NameTable
  /-- The program has ended. -/
  stopped : Bool := false

namespace IsoCall

/-- A program that has just started, with nothing on disk. -/
def started : IsoCall :=
  { libc := {}, file := {}, self := 0, writePaths := .empty, bindings := .empty }

/-- Use what all file models share. -/
def shared (c : IsoCall) (use : Call → Call) : IsoCall := { c with toCall := use c.toCall }

/-- Change the file variable. -/
def withFile (c : IsoCall) (change : PascalFile → PascalFile) : IsoCall :=
  { c with file := change c.file }

/-- The program ends. -/
def stop (c : IsoCall) : IsoCall := { c with stopped := true }

/-- Go on unless the program has ended. -/
def andThen (c : IsoCall) (next : IsoCall → IsoCall) : IsoCall := if c.stopped then c else next c

/-! ## The tables -/

/-- The path the file is being written to. -/
def findWritePath (c : IsoCall) : Option Text := c.writePaths.find c.self

/-- Forget the path. -/
def clearWritePath (c : IsoCall) : IsoCall := { c with writePaths := c.writePaths.clear c.self }

/-- Remember the path; where the table is full it is not remembered. -/
def setWritePath (c : IsoCall) (name : Text) : IsoCall :=
  if name = [] then c.clearWritePath
  else
    match (c.writePaths.clear c.self).insert c.self name with
    | none => c.clearWritePath
    | some writePaths => { c with writePaths }

/-- The name of the external entity. -/
def findBinding (c : IsoCall) : Option Text := c.bindings.find c.self

/-- Bind the file; where the table is full the program ends. -/
def setBinding (c : IsoCall) (name : Text) : IsoCall :=
  match c.bindings.rename c.self name with
  | some bindings => { c with bindings }
  | none =>
      match c.bindings.insert c.self name with
      | some bindings => { c with bindings }
      | none => c.stop

/-- The name to open: the one given, or that of the external entity. -/
def nameToOpen (c : IsoCall) (name : Text) : Text :=
  if name = [] then c.findBinding.getD [] else name

/-- A name that was given is kept as the external entity's. -/
def retain (c : IsoCall) (name : Text) : IsoCall := if name = [] then c else c.setBinding name

/-! ## The last line -/

/-- The last byte at a path, and whether the path could be opened at all. -/
def peekLast (libc : Libc) (path : Text) : Option (Option Char) × Libc :=
  match libc.fopen .read path with
  | (none, libc) => (none, libc)
  | (some peek, libc) =>
      match libc.sizeOf peek with
      | some (size + 1) => (some (libc.fgetc { peek with pos := size }).1, libc)
      | some 0 => (some none, libc)
      | none => (some none, libc)

/-- A line that was begun is ended. -/
def endLine (c : IsoCall) (last : Option Char) : IsoCall :=
  match last with
  | none => c
  | some char => if char = '\n' then c else c.shared fun call => (call.fwrite ['\n']).2

/-- The last line of a file with a path is looked at through a second stream. -/
def closeNamedLine (c : IsoCall) (path : Text) : IsoCall :=
  match peekLast c.libc path with
  | (none, libc) => { c with libc }
  | (some last, libc) => { c with libc }.endLine last

/-- The last line of any other file is looked at through the stream itself. -/
def closeOwnLine (c : IsoCall) (pos : Nat) : IsoCall :=
  match c.fseek ((pos : Int) - 1) with
  | (false, call) => { c with toCall := call }
  | (true, call) =>
      let (last, read) := call.fgetc
      ({ c with toCall := read }.endLine last).shared Call.clearerr

/-- A line is only a line once a line marker ends it: end the last line of a file being written. -/
def closeFinalLine (c : IsoCall) : IsoCall :=
  if c.file.fp.isNone || c.file.readable.nonzero then c
  else
    let c := c.shared fun call => call.fflush.2
    match c.ftell with
    | none => c
    | some 0 => c
    | some pos =>
        match c.findWritePath with
        | some path => c.closeNamedLine path
        | none => c.closeOwnLine pos

/-- Only a text file has lines. -/
def finishText (c : IsoCall) (isText : Bool) : IsoCall := if isText then c.closeFinalLine else c

/-! ## Opening and closing -/

/-- A fresh internal file. -/
def openTemp (c : IsoCall) : IsoCall :=
  match c.libc.tmpfile with
  | (none, libc) => { c with libc }.stop
  | (some stream, libc) =>
      { c with libc }.withFile fun file => { file with fp := some stream, binding := .temp }

/-- Go to a place in the file. -/
def goTo (c : IsoCall) (pos : Nat) : IsoCall :=
  c.shared fun call => (call.fflush.2.fseek pos).2

/-- Face a direction; the window is empty. -/
def facing (c : IsoCall) (readable : Readable) : IsoCall :=
  c.withFile fun file => { file with buf := .uninit, readable, compLoaded := false }

/-- Attach a stream. -/
def attach (c : IsoCall) (stream : Stream) : IsoCall :=
  c.withFile fun file => { file with fp := some stream }

/-- `reset` with a name. -/
def resetNamed (c : IsoCall) (given name : Text) : IsoCall :=
  let closed := c.shared Call.closeStream
  match closed.libc.fopen .read name with
  | (none, libc) => { closed with libc }.stop
  | (some stream, libc) =>
      if Libc.isDirectory stream then { closed with libc }.stop
      else ({ closed with libc }.attach stream).retain given

/-- `reset` without one. -/
def resetInternal (c : IsoCall) : IsoCall :=
  if c.file.binding = .std then c
  else if c.file.fp.isSome then (c.goTo 0).shared Call.clearerr
  else c.openTemp

/-- The file faces its reader, who looks at the first character. -/
def faceReader (c : IsoCall) : IsoCall :=
  (c.withFile fun file => { file with readable := .read, compLoaded := false }).shared Call.prime

/-- `reset(f, name)`. -/
def plangReset (c : IsoCall) (given : Text) (isText : Bool) : IsoCall :=
  let c := c.finishText isText
  let name := c.nameToOpen given
  (if name = [] then c.resetInternal else c.resetNamed given name).andThen faceReader

/-- `rewrite` with a name. -/
def rewriteNamed (c : IsoCall) (given name : Text) : IsoCall :=
  match c.libc.fopen .write name with
  | (none, libc) => { c with libc }.stop
  | (some stream, libc) => (({ c with libc }.attach stream).setWritePath name).retain given

/-- `rewrite(f, name)`. -/
def plangRewrite (c : IsoCall) (given : Text) (isText : Bool) : IsoCall :=
  let c := c.finishText isText
  let name := c.nameToOpen given
  if name = [] ∧ c.file.binding = .std then c.facing .write
  else
    let closed := c.shared Call.closeStream
    (if name = [] then closed.openTemp.andThen clearWritePath
      else closed.rewriteNamed given name).andThen fun c => c.facing .write

/-- Open for reading and writing; a file that is not there is created. -/
def openBoth (c : IsoCall) (name : Text) : IsoCall :=
  match c.libc.fopen .readUpdate name with
  | (some stream, libc) => { c with libc }.attach stream
  | (none, libc) =>
      match libc.fopen .writeUpdate name with
      | (none, libc) => { c with libc }.stop
      | (some stream, libc) => { c with libc }.attach stream

/-- `extend` and `update` with a name. -/
def bothNamed (c : IsoCall) (given name : Text) (place : IsoCall → IsoCall) : IsoCall :=
  ((c.shared Call.closeStream).openBoth name).andThen fun c =>
    ((place c).setWritePath name).retain given

/-- `extend` and `update` without one. -/
def bothInternal (c : IsoCall) (place : IsoCall → IsoCall) : IsoCall :=
  (if c.file.fp.isSome then place c else c.openTemp).andThen clearWritePath

/-- Open in both directions, at a place of the file. -/
def openAt (c : IsoCall) (given : Text) (isText : Bool) (place : IsoCall → IsoCall) : IsoCall :=
  let c := c.finishText isText
  let name := c.nameToOpen given
  (if name = [] then c.bothInternal place else c.bothNamed given name place).andThen fun c =>
    c.facing .both

/-- Go to the end of the file. -/
def goToEnd (c : IsoCall) : IsoCall :=
  match c.sizeOf with
  | none => c
  | some size => c.goTo size

/-- `extend(f, name)`. -/
def plangExtend (c : IsoCall) (given : Text) (isText : Bool) : IsoCall :=
  c.openAt given isText goToEnd

/-- `update(f, name)`. -/
def plangUpdate (c : IsoCall) (given : Text) (isText : Bool) : IsoCall :=
  c.openAt given isText fun c => (c.goTo 0).shared Call.clearerr

/-- `close(f)`. -/
def plangClose (c : IsoCall) (isText : Bool) : IsoCall :=
  (((c.finishText isText).shared Call.closeStream).withFile fun file =>
    { file with buf := .uninit, readable := .write, comp := none, compSize := 0,
                compLoaded := false }).clearWritePath

/-! ## Writing -/

/-- A closed file ends the program; else the stream's error indicator is cleared. -/
def abortIfClosed (c : IsoCall) : IsoCall :=
  if c.file.fp.isNone then c.stop else c.shared Call.clearerr

/-- An internal file that faces the other direction ends the program. -/
def trapOnWrongDirection (c : IsoCall) (wantWrite : Bool) : IsoCall :=
  if c.file.binding ≠ .temp ∨ c.file.readable = .both then c
  else if (wantWrite ∧ c.file.readable = .read) ∨ (¬wantWrite ∧ c.file.readable = .write) then
    c.stop
  else c

/-- A stream that refused ends the program. -/
def trapOnStreamError (c : IsoCall) : IsoCall := if c.ferror then c.stop else c

/-- Give the stream bytes, if there are any. -/
def put (c : IsoCall) (bytes : Text) : IsoCall :=
  if bytes = [] then c else c.shared fun call => (call.fwrite bytes).2

/-- A text write: what the writers of all types do with the bytes they made. -/
def plangWrite (c : IsoCall) (bytes : Text) : IsoCall :=
  c.abortIfClosed.andThen fun c =>
    (c.trapOnWrongDirection true).andThen fun c => (c.put bytes).trapOnStreamError

/-- A character or a text written with width zero. -/
def plangWriteNothing (c : IsoCall) : IsoCall := c.abortIfClosed

end IsoCall

/-! ## Programs -/

/-- The operations on a text file; without a name an opening gives the empty one. -/
inductive TextOp where
  | reset (name : Text)
  | rewrite (name : Text)
  | extend (name : Text)
  | update (name : Text)
  | close
  | write (bytes : Text)
  | writeNothing
  /-- The end of the program, which closes no file. -/
  | exit
  deriving DecidableEq

namespace IsoCall

/-- One operation. -/
def perform (c : IsoCall) : TextOp → IsoCall
  | .reset name => c.plangReset name true
  | .rewrite name => c.plangRewrite name true
  | .extend name => c.plangExtend name true
  | .update name => c.plangUpdate name true
  | .close => c.plangClose true
  | .write bytes => c.plangWrite bytes
  | .writeNothing => c.plangWriteNothing
  | .exit => c.stop

/-- One operation, unless the program has ended. -/
def step (c : IsoCall) (op : TextOp) : IsoCall := c.andThen fun c => c.perform op

end IsoCall

end Runtime

end Plang
