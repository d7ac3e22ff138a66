import Plang.Runtime.Stdio

/-!
# File variables

The record behind every file variable, with its one-character window, and the operations on it that
the entry points share.
-/

namespace Plang

namespace Runtime

open Stdio

/-- The window holds nothing yet, the end of the file, or the next character. -/
inductive Window where
  | uninit
  | eof
  | char (c : Char)
  deriving DecidableEq

/-- The attachments of a stream with no file name. -/
inductive Binding where
  | none
  | temp
  | std
  deriving DecidableEq

/-- The direction of a file. -/
inductive Readable where
  | write
  | read
  | both
  deriving DecidableEq

/-- Whether the file may be looked at. -/
def Readable.nonzero : Readable → Bool
  | .write => false
  | .read | .both => true

/-- The mode Turbo Pascal keeps; a variable that was never assigned has the first. -/
inductive FileMode where
  | unassigned
  | fmClosed
  | fmInput
  | fmOutput
  | fmInOut
  deriving DecidableEq

/-- A file variable. -/
structure PascalFile where
  /-- The open stream. -/
  fp : Option Stream := none
  /-- The buffer variable. -/
  comp : Option Text := none
  /-- Its size. -/
  compSize : Int := 0
  /-- The window. -/
  buf : Window := .uninit
  /-- The attachment of a stream with no file name. -/
  binding : Binding := .none
  /-- The direction. -/
  readable : Readable := .write
  /-- The buffer variable holds the component at the position. -/
  compLoaded : Bool := false
  /-- The assigned name. -/
  name : Text := []
  /-- The mode. -/
  mode : FileMode := .unassigned
  /-- The record size. -/
  recSize : Int := 0

/-- The longest name that fits, with its terminator. -/
def PlangFileNameCap : Nat := 512

/-- A name as it is stored. -/
def storedName (name : Option Text) : Text := (name.getD []).take (PlangFileNameCap - 1)

/-- Where an entry point runs: the C library and the file variable it was called with. -/
structure Call where
  /-- The C library. -/
  libc : Libc
  /-- The file variable. -/
  file : PascalFile

namespace Call

/-- Use the stream of the file; there is one wherever the runtime does so. -/
def onStream {α : Type} (default : α) (use : Libc → Stream → α × Libc × Stream) (c : Call) :
    α × Call :=
  match c.file.fp with
  | none => (default, c)
  | some stream =>
      let (answer, libc, stream) := use c.libc stream
      (answer, { libc, file := { c.file with fp := some stream } })

/-- `clearerr`. -/
def clearerr (c : Call) : Call :=
  (c.onStream () fun libc stream => ((), libc, { stream with error := false })).2

/-- `ferror`. -/
def ferror (c : Call) : Bool := c.file.fp.any Stream.error

/-- `fgetc`. -/
def fgetc (c : Call) : Option Char × Call := c.onStream none Libc.fgetc

/-- `fread`. -/
def fread (c : Call) (count : Nat) : Text × Call :=
  c.onStream [] fun libc stream => libc.fread stream count

/-- `fwrite`; how many bytes were taken. -/
def fwrite (c : Call) (bytes : Text) : Nat × Call :=
  c.onStream 0 fun libc stream => libc.fwrite stream bytes

/-- `ungetc`. -/
def ungetc (c : Call) (char : Char) : Call :=
  (c.onStream () fun libc stream => ((), libc.ungetc stream char)).2

/-- `ftell`. -/
def ftell (c : Call) : Option Nat := c.file.fp.bind Libc.ftell

/-- The size of the file, as seeking to its end finds it. -/
def sizeOf (c : Call) : Option Nat := c.file.fp.bind c.libc.sizeOf

/-- `fseek`. -/
def fseek (c : Call) (offset : Int) : Bool × Call :=
  c.onStream true fun libc stream => libc.fseek stream offset

/-- `fflush`. -/
def fflush (c : Call) : Bool × Call := c.onStream true Libc.fflush

/-- The stream is standard output. -/
def isStdout (c : Call) : Bool := c.file.fp.any Stream.isStdout

/-- Look at the next character without consuming it. -/
def prime (c : Call) : Call :=
  match c.fgetc with
  | (none, read) => { read with file := { read.file with buf := .eof } }
  | (some char, read) =>
      let back := read.ungetc char
      { back with file := { back.file with buf := .char char } }

/-- Fill the window if nothing has needed it yet. -/
def ensurePrimed (c : Call) : Call :=
  if c.file.buf = .uninit ∧ c.file.readable.nonzero ∧ c.file.fp.isSome then c.prime else c

/-- Consume the window's character and look at the one after it. -/
def advance (c : Call) : Option Char × Call :=
  let (char, read) := c.fgetc
  (char, read.prime)

/-- How many characters the stream still has. -/
def left (c : Call) : Nat := c.file.fp.elim 0 fun stream => (c.libc.unread stream).length

/-- Looking at the next character consumes nothing, unless there is none. -/
theorem left_prime (c : Call) : c.prime.file.buf = .eof ∨ c.prime.left = c.left := by
  rcases fp : c.file.fp with _ | stream
  · exact Or.inl (by simp [prime, fgetc, onStream, fp])
  · rcases read : c.libc.fgetc stream with ⟨_ | char, libc, moved⟩
    · exact Or.inl (by simp [prime, fgetc, onStream, fp, read])
    · obtain ⟨consumed, given_back⟩ := Libc.unread_of_fgetc read
      exact Or.inr (by
        simp [prime, fgetc, ungetc, onStream, left, fp, read, consumed, given_back])

/-- Consuming a character leaves fewer of them. -/
theorem left_advance (c : Call) : c.advance.2.file.buf = .eof ∨ c.advance.2.left < c.left := by
  rcases fp : c.file.fp with _ | stream
  · exact Or.inl (by simp [advance, prime, fgetc, onStream, fp])
  · rcases read : c.libc.fgetc stream with ⟨_ | char, libc, moved⟩
    · have again := Libc.fgetc_of_fgetc_none read
      rcases read_again : libc.fgetc moved with ⟨_ | char, after, last⟩
      · exact Or.inl (by simp [advance, prime, fgetc, onStream, fp, read, read_again])
      · simp [read_again] at again
    · obtain ⟨consumed, -⟩ := Libc.unread_of_fgetc read
      rcases left_prime c.fgetc.2 with closed | same
      · exact Or.inl closed
      · refine Or.inr (Nat.lt_of_le_of_lt (Nat.le_of_eq same) ?_)
        simp [fgetc, onStream, left, fp, read, consumed]

/-- The position has moved away from the buffer variable's component. -/
def unloadComponent (c : Call) : Call := { c with file := { c.file with compLoaded := false } }

/-- Close the stream, a standard stream excepted, and forget it. -/
def closeStream (c : Call) : Call :=
  { c with file := { c.file with fp := none, binding := .none } }

end Call

end Runtime

end Plang
