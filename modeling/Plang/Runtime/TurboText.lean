import Plang.Runtime.TurboFile

/-!
# Turbo Pascal's texts and typed files

Status, reading and writing.  Every entry point begins by asking whether the file can be used.
-/

namespace Plang

namespace Runtime

open Stdio

namespace TurboCall

/-! ## Status -/

/-- The window shows the end of a line; a carriage return is one too. -/
def Window.endsLine : Window → Bool
  | .char c => c == '\n' || c == '\r'
  | .eof => true
  | .uninit => false

/-- `Eof(f)`; a file of records is at its end where no whole record is left. -/
def plangEofFileTurbo (c : TurboCall) : Bool × TurboCall :=
  if c.tpSuppressedByPendingError then (true, c)
  else
    c.ifReadyOr true fun c =>
      if ¬c.file.readable.nonzero then (true, c)
      else if 0 < c.file.recSize then
        let (pos, c) := c.plangTpFilepos
        let (size, c) := c.plangTpFilesize
        (decide (size ≤ pos), c)
      else
        let primed := c.shared Call.ensurePrimed
        (decide (primed.file.buf = .eof), primed)

/-- `Eoln(f)`. -/
def plangEolnFileTurbo (c : TurboCall) : Bool × TurboCall :=
  if c.tpSuppressedByPendingError then (true, c)
  else
    c.ifReadyOr true fun c =>
      let primed := c.shared Call.ensurePrimed
      (Window.endsLine primed.file.buf, primed)

/-- Read on while the window holds what is to be read; `check` is done after each character. -/
def advanceWhile (keep : Window → Bool) (check : TurboCall → TurboCall) :
    Nat → TurboCall → Text × TurboCall
  | 0, c => ([], c)
  | fuel + 1, c =>
      if keep c.file.buf then
        let (char, call) := c.advance
        let (text, after) := advanceWhile keep check fuel (check { c with toCall := call })
        (char.getD '\xff' :: text, after)
      else
        ([], c)

/-- How often the window can move before it shows the end. -/
def bound (c : TurboCall) : Nat := c.left + 1

/-- Read on as long as there is something to be read. -/
def readWhile (c : TurboCall) (keep : Window → Bool) (check : TurboCall → TurboCall) :
    Text × TurboCall :=
  advanceWhile keep check c.bound c

/-- Reading on ends where there is nothing more to be read, not at the bound. -/
theorem keep_advanceWhile {keep : Window → Bool} {check : TurboCall → TurboCall}
    (ends : keep .eof = false) (checked : ∀ now, (check now).toCall = now.toCall) {fuel : Nat}
    {c : TurboCall} (enough : keep c.file.buf = false ∨ c.left < fuel) :
    keep (advanceWhile keep check fuel c).2.file.buf = false := by
  induction fuel generalizing c with
  | zero => exact enough.resolve_right (Nat.not_lt_zero _)
  | succ fuel induction =>
      rw [advanceWhile]
      split <;> rename_i kept
      · have within := enough.resolve_left (by simp [kept])
        refine induction ?_
        rw [checked]
        rcases c.left_advance with closed | fewer
        · exact Or.inl (by rw [closed, ends])
        · exact Or.inr (Nat.lt_of_lt_of_le fewer (Nat.lt_succ_iff.mp within))
      · simpa using kept

/-- What `readWhile` leaves in the window is not to be read. -/
theorem keep_readWhile {keep : Window → Bool} {check : TurboCall → TurboCall}
    (ends : keep .eof = false) (checked : ∀ now, (check now).toCall = now.toCall)
    (c : TurboCall) : keep (c.readWhile keep check).2.file.buf = false :=
  keep_advanceWhile ends checked (Or.inr (Nat.lt_succ_self _))

/-- Check the stream after each character that is read. -/
def checkRead (c : TurboCall) : TurboCall := c.tpTrapOnStreamError false

/-- A blank, or a line marker where lines may be crossed. -/
def Window.isBlank (crossLines : Bool) : Window → Bool
  | .char c => c == ' ' || c == '\t' || (crossLines && (c == '\n' || c == '\r'))
  | _ => false

/-- Neither the end of the file nor the end of a line. -/
def Window.inLine : Window → Bool
  | .char c => c != '\n' && c != '\r'
  | .eof => false
  | .uninit => true

/-- Part of a token. -/
def Window.inToken : Window → Bool
  | .char c => c != ' ' && c != '\t' && c != '\n' && c != '\r'
  | .eof => false
  | .uninit => true

/-- Skip blanks. -/
def skipTurboWhitespace (c : TurboCall) (crossLines : Bool) : TurboCall :=
  ((c.shared Call.ensurePrimed).readWhile (Window.isBlank crossLines) id).2

/-- `SeekEof(f)`. -/
def plangTpSeekeof (c : TurboCall) : Bool × TurboCall :=
  c.ifReadyOr true fun c =>
    if ¬c.file.readable.nonzero then (true, c)
    else
      let skipped := c.skipTurboWhitespace true
      (decide (skipped.file.buf = .eof), skipped)

/-- `SeekEoln(f)`. -/
def plangTpSeekeoln (c : TurboCall) : Bool × TurboCall :=
  c.ifReadyOr true fun c =>
    if ¬c.file.readable.nonzero then (true, c)
    else
      let skipped := c.skipTurboWhitespace false
      (Window.endsLine skipped.file.buf, skipped)

/-! ## Reading -/

/-- `Readln(f)`; a carriage return and a line feed are one marker. -/
def plangReadlnFileTurbo (c : TurboCall) : TurboCall :=
  c.ifReady fun c =>
    let line := ((c.shared Call.ensurePrimed).readWhile Window.inLine id).2
    let passed :=
      if line.file.buf = .char '\r' then
        let behind := line.shared fun call => call.advance.2
        if behind.file.buf = .char '\n' then behind.shared fun call => call.advance.2 else behind
      else if line.file.buf = .char '\n' then line.shared fun call => call.advance.2
      else line
    passed.shared Call.unloadComponent

/-- Skip blanks in front of a token. -/
def tpSkipBlanksFile (c : TurboCall) : TurboCall :=
  let primed := if c.file.buf = .uninit then c.shared Call.prime else c
  (primed.checkRead.readWhile (Window.isBlank true) checkRead).2

/-- The next token, unless the file ends before it. -/
def scanTokenTurboFile (c : TurboCall) : Option Text × TurboCall :=
  let skipped := c.tpSkipBlanksFile
  let (token, after) := skipped.readWhile Window.inToken checkRead
  (if skipped.file.buf = .eof then none else some (cString token), after)

/-- Read a token and take its value; `error` is the value of a token that has none. -/
def readToken {α : Type} (c : TurboCall) (error : α) (value : Text → Option α) : α × TurboCall :=
  c.ifReadyOr error fun c =>
    let (token, read) := (c.tpTrapOnWrongDirection false).scanTokenTurboFile
    let after := read.shared Call.unloadComponent
    match token with
    | none => (error, after)
    | some token =>
        match value token with
        | some value => (value, after)
        | none => (error, after.setInOutResIfClear 106)

/-- `Read(f, i)`. -/
def plangReadFileI64Turbo (c : TurboCall) : Int × TurboCall := c.readToken 0 turboInteger

/-- `Read(f, u)`. -/
def plangReadFileU64Turbo (c : TurboCall) : Int × TurboCall := c.readToken 0 turboUnsigned

/-- `Read(f, r)`. -/
def plangReadFileF64Turbo (c : TurboCall) : UInt64 × TurboCall := c.readToken 0 c.reals.parse

/-- `Read(f, ch)`; behind the end of the file stands a Ctrl-Z. -/
def plangReadFileCharTurbo (c : TurboCall) : Char × TurboCall :=
  c.ifReadyOr '\x00' fun c =>
    let primed := (c.tpTrapOnWrongDirection false).shared Call.ensurePrimed
    if primed.file.buf = .eof then ('\x1a', primed)
    else
      let (char, call) := primed.advance
      (char.getD '\xff', ({ primed with toCall := call }.checkRead).shared Call.unloadComponent)

/-- The rest of the line. -/
def readLine (c : TurboCall) : Text × TurboCall :=
  ((c.tpTrapOnWrongDirection false).shared Call.ensurePrimed).readWhile Window.inLine checkRead

/-- `Read(f, s)` for a packed array of `n` characters. -/
def plangStrReadFixedFileTurbo (c : TurboCall) (n : Nat) : Text × TurboCall :=
  c.ifReadyOr (List.replicate n ' ') fun c =>
    let (line, after) := c.readLine
    (line.take n ++ List.replicate (n - line.length) ' ', after)

/-- `Read(f, s)` for a `string[cap]`. -/
def plangSstrReadFile (c : TurboCall) (cap : Int) : Text × TurboCall :=
  c.ifReadyOr [] fun c =>
    let (line, after) := c.readLine
    (line.take (if cap < 255 then cap else 255).toNat, after)

/-- `Read(f, v)` for a component of `elemSize` bytes; a file that cannot be used leaves the variable
alone. -/
def plangReadBinaryTurbo (c : TurboCall) (elemSize : Nat) : Option Text × TurboCall :=
  c.ifReadyOr none fun c =>
    let checked := c.tpTrapOnWrongDirection false
    let (bytes, call) := checked.fread elemSize
    let trapped := { checked with toCall := call }.checkRead
    let got := decide (0 < elemSize ∧ bytes.length = elemSize)
    let after := if got then trapped else trapped.setInOutResIfClear 100
    (some (bytes ++ List.replicate (elemSize - bytes.length) '\x00'), after.shared Call.prime)

/-! ## Writing -/

/-- The text goes to the stream. -/
def put (c : TurboCall) (text : Text) : TurboCall := c.shared fun call => (call.fwrite text).2

/-- The tracker is told what the console has been given. -/
def track (c : TurboCall) (text : Text) : TurboCall :=
  if c.isStdout then { c with cursor := c.cursor.plangCrtTrackOutput text } else c

/-- Write to a file that can be used. -/
def putChecked (c : TurboCall) (text : Text) : TurboCall :=
  ((c.tpTrapOnWrongDirection true).put text).tpTrapOnStreamError true

/-- Write to a file that can be used, and tell the tracker. -/
def putTracked (c : TurboCall) (text : Text) : TurboCall :=
  (((c.tpTrapOnWrongDirection true).put text).track text).tpTrapOnStreamError true

/-- Write a text. -/
def writeFile (c : TurboCall) (text : Text) : TurboCall := c.ifReady fun c => c.putChecked text

/-- Write a text and tell the tracker. -/
def writeFileTracked (c : TurboCall) (text : Text) : TurboCall :=
  c.ifReady fun c => c.putTracked text

/-- `Writeln(f)`. -/
def plangWritelnFileTurbo (c : TurboCall) : TurboCall := c.writeFileTracked ['\n']

/-- `Write(f, ch)`. -/
def plangWriteFileCharTurbo (c : TurboCall) (value : Char) : TurboCall :=
  c.writeFileTracked [value]

/-- `Write(f, 'text')`. -/
def plangWriteFileStrTurbo (c : TurboCall) (value : Option Text) : TurboCall :=
  c.writeFileTracked (cString (value.getD []))

/-- `Write(f, i)`. -/
def plangWriteFileI64Turbo (c : TurboCall) (value : Int) : TurboCall := c.writeFile (decimal value)

/-- `Write(f, u)`. -/
def plangWriteFileU64Turbo (c : TurboCall) (value : Nat) : TurboCall := c.writeFile (decimal value)

/-- How a Boolean is spelled. -/
def booleanText (value upper : Bool) : Text :=
  (if upper then (if value then "TRUE" else "FALSE") else (if value then "true" else "false")).toList

/-- `Write(f, b)`. -/
def plangWriteFileBoolTurbo (c : TurboCall) (value upper : Bool) : TurboCall :=
  c.writeFile (booleanText value upper)

/-- `Write(f, r:w)`. -/
def plangWriteFileF64ETurbo (c : TurboCall) (value : UInt64) (width : Int) (upper : Bool) :
    TurboCall :=
  c.writeFile (c.reals.format value width upper false)

/-- `Write(f, s:w)` for a single. -/
def plangWriteFileF32ETurbo (c : TurboCall) (value : UInt64) (width : Int) (upper : Bool) :
    TurboCall :=
  c.writeFile (c.reals.format value width upper true)

/-- `Write(f, r)`. -/
def plangWriteFileF64Turbo (c : TurboCall) (value : UInt64) (upper : Bool) : TurboCall :=
  c.plangWriteFileF64ETurbo value PlangRealWidth upper

/-- `Write(f, s)` for a single. -/
def plangWriteFileF32Turbo (c : TurboCall) (value : UInt64) (upper : Bool) : TurboCall :=
  c.plangWriteFileF32ETurbo value PlangRealWidth upper

/-- `Write(f, i:w)`. -/
def plangWriteFileI64WTurbo (c : TurboCall) (value width : Int) : TurboCall :=
  c.writeFile (padLeft (checkedWidth (wrapWidthTP width)) (decimal value))

/-- `Write(f, u:w)`. -/
def plangWriteFileU64WTurbo (c : TurboCall) (value : Nat) (width : Int) : TurboCall :=
  c.writeFile (padLeft (checkedWidth (wrapWidthTP width)) (decimal value))

/-- `Write(f, r:w:d)`; a negative number of decimals is none. -/
def plangWriteFileF64FTurbo (c : TurboCall) (value : UInt64) (width decimals : Int)
    (upper : Bool) : TurboCall :=
  c.ifReady fun c =>
    if wrapWidthTP decimals < 0 then
      c.plangWriteFileF64ETurbo value (wrapWidthTP width) upper
    else
      c.putChecked (c.reals.fixed value (wrapWidthTP width) (wrapWidthTP decimals))

/-- A text in a field: cut off at the width unless that is not allowed, and in full without a
width. -/
def fieldText (text : Text) (width : Int) (noTrunc : Bool) : Text :=
  if width < 0 then text
  else if noTrunc then padLeft (checkedWidth width) text
  else padLeft (checkedWidth width) (text.take (checkedWidth width))

/-- Write a text in a field; a field of no width that may cut the text off is not written at all. -/
def tpWritePadded (c : TurboCall) (text : Text) (width : Int) (noTrunc : Bool) : TurboCall :=
  if !noTrunc && wrapWidthTP width == 0 then c
  else c.putChecked (fieldText text (wrapWidthTP width) noTrunc)

/-- `Write(f, b:w)`. -/
def plangWriteFileBoolWTurbo (c : TurboCall) (value : Bool) (width : Int) (upper noTrunc : Bool) :
    TurboCall :=
  c.ifReady fun c => c.tpWritePadded (booleanText value upper) width noTrunc

/-- `Write(f, 'text':w)`. -/
def plangWriteFileStrWTurbo (c : TurboCall) (value : Option Text) (width : Int) (noTrunc : Bool) :
    TurboCall :=
  c.ifReady fun c => c.tpWritePadded (cString (value.getD [])) width noTrunc

/-- `Write(f, ch:w)`. -/
def plangWriteFileCharWTurbo (c : TurboCall) (value : Char) (width : Int) (alwaysWrite : Bool) :
    TurboCall :=
  c.ifReady fun c =>
    if wrapWidthTP width = 0 ∧ ¬alwaysWrite then c
    else if wrapWidthTP width < 0 then c.putChecked [value]
    else c.putChecked (padLeft (checkedWidth (wrapWidthTP width)) [value])

/-- A string is written unless it is empty. -/
def putNonempty (c : TurboCall) (text : Text) : TurboCall :=
  if text.isEmpty then c else c.putChecked text

/-- `Write(f, s)` for a packed array of characters. -/
def plangStrWriteFileTurbo (c : TurboCall) (value : Text) : TurboCall :=
  c.ifReady fun c => c.putNonempty value

/-- `Write(f, s)` for a `string[n]`. -/
def plangSstrWriteFile (c : TurboCall) (value : Text) : TurboCall :=
  c.ifReady fun c => c.putNonempty value

/-- `Write(f, s:w)` for a packed array of characters. -/
def plangStrWriteFileWTurbo (c : TurboCall) (value : Text) (width : Int) : TurboCall :=
  c.ifReady fun c => c.tpWritePadded value width false

/-- `Write(f, s:w)` for a `string[n]`. -/
def plangSstrWriteFileW (c : TurboCall) (value : Text) (width : Int) : TurboCall :=
  c.ifReady fun c => c.tpWritePadded value width false

/-- `Write(f, v)` for the bytes of a component. -/
def plangWriteBinaryTurbo (c : TurboCall) (bytes : Text) : TurboCall :=
  c.ifReady fun c => (c.putChecked bytes).withFile fun file => { file with buf := .uninit }

end TurboCall

end Runtime

end Plang
