import Plang.Runtime.IsoFile
import Plang.Runtime.TurboFile

/-!
# Extended Pascal's direct-access files

The buffer variable, `get` and `put`, and the entry points that go to an index of a file and tell
where it is.  An index is a value of the file's index type, whose smallest value stands for the first
component.
-/

namespace Plang

namespace Stdio

/-- An offset that has no number. -/
def EOVERFLOW : Int := 75

/-- `fseek` relative to the position; whether it succeeds. -/
def Libc.fseekCur (libc : Libc) (stream : Stream) (offset : Int) : Bool × Libc × Stream :=
  match Libc.ftell stream with
  | none => (false, { libc with errno := ESPIPE }, stream)
  | some pos =>
      if pos + offset ≤ 9223372036854775807 then libc.fseek stream (pos + offset)
      else (false, { libc with errno := EOVERFLOW }, stream)

end Stdio

namespace Runtime

open Stdio

/-- `fseek` relative to the position. -/
def Call.fseekCur (c : Call) (offset : Int) : Bool × Call :=
  c.onStream true fun libc stream => libc.fseekCur stream offset

namespace IsoCall

/-! ## The buffer variable -/

/-- A component that nothing was read into. -/
def blank (elemSize : Int) : Text := List.replicate elemSize.toNat '\x00'

/-- The buffer variable has the size of a component. -/
def allocated (c : IsoCall) (elemSize : Int) : IsoCall :=
  if c.file.compSize = elemSize then c
  else
    c.withFile fun file =>
      { file with comp := some (blank elemSize), compSize := elemSize, compLoaded := false }

/-- The buffer variable holds a component. -/
def loaded (c : IsoCall) (component : Text) : IsoCall :=
  c.withFile fun file => { file with comp := some component, compLoaded := true }

/-- A component of one byte is the character of the window; a line marker reads as a space. -/
def charComponent (window : Window) (isText : Bool) : Text :=
  match window with
  | .char char => if isText ∧ char = '\n' then [' '] else [char]
  | .eof | .uninit => blank 1

/-- A component is read by peeking: it is read and the position put back. -/
def peekComponent (c : IsoCall) (elemSize : Int) : IsoCall :=
  let (bytes, read) := c.fread elemSize.toNat
  let back :=
    match c.ftell with
    | none => read.clearerr
    | some pos => (read.clearerr.fseek pos).2
  { c with toCall := back.prime }.loaded
    (if bytes.length = elemSize.toNat then bytes else blank elemSize)

/-- Fill the buffer variable. -/
def loadComponent (c : IsoCall) (elemSize : Int) (isText : Bool) : IsoCall :=
  if c.file.readable.nonzero then
    let primed := c.shared Call.ensurePrimed
    if elemSize = 1 then primed.loaded (charComponent primed.file.buf isText)
    else primed.peekComponent elemSize
  else c.loaded (blank elemSize)

/-- `f^`, which holds the component at the position. -/
def plangFileBuffer (c : IsoCall) (elemSize : Int) (isText : Bool) : IsoCall :=
  c.abortIfClosed.andThen fun c =>
    let sized := c.allocated (max elemSize 1)
    if sized.file.compLoaded then sized else sized.loadComponent (max elemSize 1) isText

/-- `get(f)` moves on to the next component. -/
def plangGetFile (c : IsoCall) (elemSize : Int) : IsoCall :=
  c.abortIfClosed.andThen fun c =>
    c.shared fun call =>
      (if 1 < elemSize then (call.fseekCur elemSize).2.prime else call.advance.2).unloadComponent

/-- `put(f)` appends `f^`; where it was never assigned there is nothing to append. -/
def plangPutFile (c : IsoCall) (elemSize : Int) : IsoCall :=
  c.abortIfClosed.andThen fun c =>
    match c.file.comp with
    | none => c
    | some component =>
        (c.trapOnWrongDirection true).andThen fun c =>
          (c.put (component.take (max elemSize 1).toNat)).trapOnStreamError.andThen fun c =>
            c.shared Call.unloadComponent

/-! ## Going to an index -/

/-- Go to an index; where its offset cannot be computed or reached the program ends. -/
def seekTo (c : IsoCall) (n elemSize indexLow : Int) (settle : IsoCall → IsoCall) : IsoCall :=
  c.abortIfClosed.andThen fun c =>
    match TurboCall.seekOffset n elemSize indexLow with
    | none => c.stop
    | some offset =>
        match c.fseek offset with
        | (false, call) => { c with toCall := call }.stop
        | (true, call) => settle { c with toCall := call }

/-- `SeekRead(f, n)`. -/
def plangSeekread (c : IsoCall) (n elemSize indexLow : Int) : IsoCall :=
  c.seekTo n elemSize indexLow faceReader

/-- `SeekWrite(f, n)`. -/
def plangSeekwrite (c : IsoCall) (n elemSize indexLow : Int) : IsoCall :=
  c.seekTo n elemSize indexLow fun c => c.facing .write

/-- `SeekUpdate(f, n)`. -/
def plangSeekupdate (c : IsoCall) (n elemSize indexLow : Int) : IsoCall :=
  c.seekTo n elemSize indexLow fun c => c.facing .both

/-! ## Telling where it is -/

/-- A number in 64 bits. -/
def word (value : Int) : Int := value.bmod 18446744073709551616

/-- `position(f)`. -/
def plangPosition (c : IsoCall) (elemSize indexLow : Int) : Int × IsoCall :=
  (match c.ftell with
    | none => indexLow
    | some pos => word (indexLow + if 0 < elemSize then pos / elemSize else 0),
    c.abortIfClosed)

/-- `LastPosition(f)`. -/
def plangLastposition (c : IsoCall) (elemSize indexLow : Int) : Int × IsoCall :=
  (match c.sizeOf with
    | none => word (indexLow - 1)
    | some size =>
        if elemSize ≤ 0 ∨ size = 0 then word (indexLow - 1)
        else word (indexLow + size / elemSize - 1),
    c.abortIfClosed)

/-- `empty(f)`. -/
def plangEmpty (c : IsoCall) : Bool × IsoCall := (decide (c.sizeOf = some 0), c.abortIfClosed)

end IsoCall

/-! ## Programs -/

/-- The operations on an open direct-access file whose components have `size` bytes. -/
inductive DirectOp (size : Nat) where
  | seekRead (n : Int)
  | seekWrite (n : Int)
  | seekUpdate (n : Int)
  | get
  | put
  | update (name : Text)
  /-- `f^` is looked at. -/
  | look
  /-- `f^` is assigned. -/
  | assign (component : Text) (whole : component.length = size)

namespace IsoCall

/-- One operation on a file whose index type has a smallest value. -/
def performDirect {size : Nat} (indexLow : Int) (isText : Bool) (c : IsoCall) :
    DirectOp size → IsoCall
  | .seekRead n => c.plangSeekread n size indexLow
  | .seekWrite n => c.plangSeekwrite n size indexLow
  | .seekUpdate n => c.plangSeekupdate n size indexLow
  | .get => c.plangGetFile size
  | .put => c.plangPutFile size
  | .update name => c.plangUpdate name isText
  | .look => c.plangFileBuffer size isText
  | .assign component _ =>
      (c.plangFileBuffer size isText).andThen fun c =>
        c.withFile fun file => { file with comp := some component }

/-- One operation, unless the program has ended. -/
def stepDirect {size : Nat} (indexLow : Int) (isText : Bool) (c : IsoCall) (op : DirectOp size) :
    IsoCall :=
  c.andThen fun c => c.performDirect indexLow isText op

/-- One operation after the other. -/
def runDirect {size : Nat} (indexLow : Int) (isText : Bool) (c : IsoCall)
    (ops : List (DirectOp size)) : IsoCall :=
  ops.foldl (stepDirect indexLow isText) c

end IsoCall

end Runtime

end Plang
